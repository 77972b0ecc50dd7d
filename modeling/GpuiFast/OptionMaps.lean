import Mathlib.Tactic.Common

/-! Where a function gives nothing at some element of a list, mapping the list gives nothing. -/

namespace GpuiFast

open List Option

variable {α β : Type*}

variable {f : α → Option β} {as : List α}

lemma mapM_eq_some_map {g : α → β} (h : ∀ a ∈ as, f a = some (g a)) :
    as.mapM f = some (as.map g) := by
  induction as with
  | nil => rfl
  | cons a as ih =>
    rw [mapM_cons, h a mem_cons_self, ih (fun b hb => h b (mem_cons_of_mem a hb))]
    rfl

lemma mapM_eq_none {a : α} (ha : a ∈ as) (h : f a = none) : as.mapM f = none := by
  induction as with
  | nil => cases ha
  | cons b as ih =>
    rw [mapM_cons]
    rcases mem_cons.mp ha with rfl | ha
    · rw [h]
      rfl
    · rw [ih ha]
      cases f b <;> rfl

lemma mapM_mem {bs : List β} (h : as.mapM f = some bs) : ∀ b ∈ bs, ∃ a ∈ as, f a = some b := by
  induction as generalizing bs with
  | nil =>
    simp only [mapM_nil, Option.pure_def, some.injEq] at h
    simp [← h]
  | cons a as ih =>
    simp only [mapM_cons, bind_eq_bind, bind_eq_some_iff, Option.pure_def, some.injEq] at h
    obtain ⟨b, hb, rest, hrest, rfl⟩ := h
    intro c hc
    rcases mem_cons.mp hc with rfl | hc
    · exact ⟨a, mem_cons_self, hb⟩
    · obtain ⟨d, hd, heq⟩ := ih hrest c hc
      exact ⟨d, mem_cons_of_mem _ hd, heq⟩

variable {γ : Type*}

lemma foldlM_map {f : β → α → Option β} {g : γ → α → Option γ} {keep : β → γ}
    (h : ∀ b a, (f b a).map keep = g (keep b) a) (as : List α) (b : β) :
    (as.foldlM f b).map keep = as.foldlM g (keep b) := by
  induction as generalizing b with
  | nil => rfl
  | cons a as ih =>
    rw [foldlM_cons, foldlM_cons, ← h b a]
    cases f b a with
    | none => rfl
    | some b' => exact ih b'

lemma foldlM_invariant {f : β → α → Option β} {P : β → Prop}
    (h : ∀ a ∈ as, ∀ b b', P b → f b a = some b' → P b') {b b' : β} (hb : P b)
    (hfold : as.foldlM f b = some b') : P b' := by
  induction as generalizing b with
  | nil => exact some.inj hfold ▸ hb
  | cons a as ih =>
    rw [foldlM_cons] at hfold
    obtain ⟨c, hc, hfold⟩ := bind_eq_some_iff.mp hfold
    exact ih (fun a' ha' => h a' (mem_cons_of_mem a ha'))
      (h a mem_cons_self b c hb hc) hfold

end GpuiFast
