import Mathlib.Data.List.Basic
import Mathlib.Order.Basic

/-! The binary search for where a list stops satisfying a predicate. It looks at some of the elements
only, so what it finds in a list that is not partitioned depends on which. -/

namespace GpuiFast

open List

variable {α β : Type*}

/-- Halves `size` places from `base` until one is left; `fuel` places are enough. -/
def bisect (p : ℕ → Bool) : (fuel size base : ℕ) → ℕ
  | 0, _, base => base
  | fuel + 1, size, base =>
    if 1 < size then
      let half := size / 2
      bisect p fuel (size - half) (if p (base + half) then base + half else base)
    else base

/-- Where a list stops satisfying `p`, if it satisfies it up to some place and not from there on. -/
def partitionPoint (p : α → Bool) (xs : List α) : ℕ :=
  let holds := fun i => xs[i]?.any p
  let base := bisect holds xs.length xs.length 0
  if holds base then base + 1 else base

lemma bisect_spec {p : ℕ → Bool} {n : ℕ} (hp : ∀ i, p i = true ↔ i < n) {fuel size base : ℕ}
    (hfuel : size ≤ fuel) (hbase : base ≤ n) (hn : n ≤ base + size) :
    bisect p fuel size base ≤ n ∧ n ≤ bisect p fuel size base + 1 := by
  induction fuel generalizing size base with
  | zero =>
    rw [bisect]
    omega
  | succ fuel ih =>
    rw [bisect]
    split
    · next hsize =>
      simp only
      by_cases hmid : p (base + size / 2) = true
      · have := (hp _).mp hmid
        rw [if_pos hmid]
        exact ih (by omega) (by omega) (by omega)
      · have := mt (hp _).mpr hmid
        rw [if_neg hmid]
        exact ih (by omega) (by omega) (by omega)
    · omega

lemma partitionPoint_append {p : α → Bool} {front back : List α} (hfront : ∀ a ∈ front, p a = true)
    (hback : ∀ a ∈ back, p a = false) : partitionPoint p (front ++ back) = front.length := by
  have hp : ∀ i, (front ++ back)[i]?.any p = true ↔ i < front.length := by
    intro i
    by_cases hi : i < front.length
    · rw [getElem?_append_left hi, getElem?_eq_getElem hi, Option.any_some]
      simp [hi, hfront _ (getElem_mem hi)]
    · rw [getElem?_append_right (Nat.not_lt.mp hi)]
      refine iff_of_false (fun h => ?_) hi
      obtain ⟨a, ha, hpa⟩ := (Option.any_eq_true ..).mp h
      rw [hback a (mem_of_getElem? ha)] at hpa
      cases hpa
  have hn : front.length ≤ 0 + (front ++ back).length := by
    rw [length_append]
    omega
  obtain ⟨hle, hge⟩ := bisect_spec hp (Nat.le_refl _) (Nat.zero_le _) hn
  rw [partitionPoint]
  simp only
  by_cases hlt : bisect (fun i => (front ++ back)[i]?.any p) (front ++ back).length
      (front ++ back).length 0 < front.length
  · rw [if_pos ((hp _).mpr hlt)]
    omega
  · rw [if_neg (mt (hp _).mp hlt)]
    omega

lemma partitionPoint_map {p : β → Bool} {q : α → Bool} {f : α → β} {xs : List α}
    (h : ∀ a ∈ xs, p (f a) = q a) : partitionPoint p (xs.map f) = partitionPoint q xs := by
  have hholds : (fun i : ℕ => (xs.map f)[i]?.any p) = fun i : ℕ => xs[i]?.any q := by
    funext i
    rw [getElem?_map]
    cases hget : xs[i]? with
    | none => rfl
    | some a => exact h a (mem_of_getElem? hget)
  rw [partitionPoint, partitionPoint, hholds, length_map]

end GpuiFast
