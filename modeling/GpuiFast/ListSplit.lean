import Mathlib

/-! Where an element stands in a list that grows at its end, and where a bound stands in a sorted one. -/

namespace GpuiFast

open List

variable {α : Type*}

variable {l : List α} {x : α}

lemma snoc_split {before after : List α} {y : α} (h : l ++ [x] = before ++ y :: after) :
    (after = [] ∧ x = y ∧ l = before) ∨ ∃ after', after = after' ++ [x] ∧ l = before ++ y :: after' := by
  rcases eq_nil_or_concat after with rfl | ⟨after', z, rfl⟩
  · obtain ⟨hl, hx⟩ := append_inj' h rfl
    rw [singleton_inj] at hx
    exact .inl ⟨rfl, hx, hl⟩
  · rw [concat_eq_append, ← cons_append, ← append_assoc] at h
    obtain ⟨hl, hx⟩ := append_inj' h rfl
    rw [singleton_inj] at hx
    exact .inr ⟨after', by rw [hx, concat_eq_append], hl⟩

lemma exists_snoc_split {P : List α → α → Prop} :
    (∃ before y after, l ++ [x] = before ++ y :: after ∧ P before y) ↔
      (∃ before y after, l = before ++ y :: after ∧ P before y) ∨ P l x := by
  constructor
  · rintro ⟨before, y, after, h, hp⟩
    rcases snoc_split h with ⟨-, rfl, rfl⟩ | ⟨after', -, hl⟩
    · exact .inr hp
    · exact .inl ⟨before, y, after', hl, hp⟩
  · rintro (⟨before, y, after, rfl, hp⟩ | hp)
    · exact ⟨before, y, after ++ [x], by simp, hp⟩
    · exact ⟨l, x, [], rfl, hp⟩

lemma last_split_unique {a b a' b' : List α} (h : a ++ x :: b = a' ++ x :: b') (hb : x ∉ b)
    (hb' : x ∉ b') : a = a' ∧ b = b' := by
  rcases append_eq_append_iff.mp h with ⟨c, rfl, hc⟩ | ⟨c, rfl, hc⟩
  · cases c with
    | nil => simpa using hc
    | cons y c =>
      rw [cons_append, List.cons.injEq] at hc
      exact absurd (hc.2 ▸ by simp : x ∈ b) hb
  · cases c with
    | nil => simpa using hc.symm
    | cons y c =>
      rw [cons_append, List.cons.injEq] at hc
      exact absurd (hc.2 ▸ by simp : x ∈ b') hb'

lemma exists_split_of_sorted {β : Type*} [LinearOrder β] (key : α → β)
    (hl : l.Pairwise (fun a b => key a < key b)) (bound : β) :
    ∃ before after, l = before ++ after ∧ (∀ a ∈ before, key a < bound) ∧
      ∀ a ∈ after, bound ≤ key a := by
  induction l with
  | nil => exact ⟨[], [], rfl, by simp, by simp⟩
  | cons a l ih =>
    rw [pairwise_cons] at hl
    rcases lt_or_ge (key a) bound with ha | ha
    · obtain ⟨before, after, rfl, hbefore, hafter⟩ := ih hl.2
      refine ⟨a :: before, after, rfl, ?_, hafter⟩
      intro b hb
      rcases mem_cons.mp hb with rfl | hb
      · exact ha
      · exact hbefore b hb
    · refine ⟨[], a :: l, rfl, by simp, ?_⟩
      intro b hb
      rcases mem_cons.mp hb with rfl | hb
      · exact ha
      · exact le_trans ha (le_of_lt (hl.1 b hb))

end GpuiFast
