import Mathlib

/-! `maxOver p l` scans a list of keyed orderings for the greatest one among the keys
`p` selects. Every bound on it is a bound on the selected entries, which is the
only fact the proofs below need about it. -/

namespace GpuiFast

variable {α : Type*}

/-- The greatest ordering among the entries whose key `p` selects, or 0. -/
def maxOver (p : α → Bool) (l : List (α × ℕ)) : ℕ :=
  ((l.filter fun e => p e.1).map Prod.snd).max?.getD 0

variable {p : α → Bool} {l : List (α × ℕ)}

theorem maxOver_le_iff {n : ℕ} : maxOver p l ≤ n ↔ ∀ e ∈ l, p e.1 = true → e.2 ≤ n := by
  have hmem : (∀ b ∈ (l.filter fun e => p e.1).map Prod.snd, b ≤ n) ↔
      ∀ e ∈ l, p e.1 = true → e.2 ≤ n := by
    simp only [List.forall_mem_map, List.mem_filter, and_imp]
  rw [← hmem, maxOver]
  cases h : ((l.filter fun e => p e.1).map Prod.snd).max? with
  | none => simp [List.max?_eq_none_iff.mp h]
  | some m => exact List.max?_le_iff h

theorem le_maxOver {e : α × ℕ} (he : e ∈ l) (hp : p e.1 = true) : e.2 ≤ maxOver p l :=
  maxOver_le_iff.mp le_rfl e he hp

theorem eq_maxOver {m : ℕ} (h : ∀ n, m ≤ n ↔ ∀ e ∈ l, p e.1 = true → e.2 ≤ n) : m = maxOver p l :=
  eq_of_forall_ge_iff fun n => (h n).trans maxOver_le_iff.symm

@[simp] theorem maxOver_nil (p : α → Bool) : maxOver p [] = 0 := rfl

theorem maxOver_concat (p : α → Bool) (l : List (α × ℕ)) (e : α × ℕ) :
    maxOver p (l ++ [e]) = if p e.1 then max (maxOver p l) e.2 else maxOver p l := by
  symm
  apply eq_maxOver
  intro n
  by_cases hp : p e.1 = true
  · simp [hp, maxOver_le_iff, or_imp, forall_and]
  · simp [hp, maxOver_le_iff, or_imp, forall_and]

theorem maxOver_eq_of_agree {l' : List (α × ℕ)} (hlen : l.length = l'.length)
    (h : ∀ (j : ℕ) e e', l[j]? = some e → l'[j]? = some e' →
      e = e' ∨ (p e.1 = false ∧ p e'.1 = false)) : maxOver p l = maxOver p l' := by
  have side : ∀ {a b : List (α × ℕ)}, a.length = b.length →
      (∀ (j : ℕ) e e', a[j]? = some e → b[j]? = some e' →
        e = e' ∨ (p e.1 = false ∧ p e'.1 = false)) → maxOver p a ≤ maxOver p b := by
    intro a b hab hagree
    rw [maxOver_le_iff]
    intro e he hp
    obtain ⟨j, hj, hje⟩ := List.mem_iff_getElem.mp he
    have hjb : j < b.length := hab ▸ hj
    obtain heq | ⟨hne, -⟩ := hagree j e b[j] (by simp [hj, hje]) (by simp [hjb])
    · exact heq ▸ le_maxOver (List.getElem_mem hjb) (heq ▸ hp)
    · simp [hp] at hne
  refine le_antisymm (side hlen h) (side hlen.symm fun j e e' he he' => ?_)
  exact (h j e' e he' he).imp Eq.symm And.symm

end GpuiFast
