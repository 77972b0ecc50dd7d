import Mathlib

/-! Entries live in one growing arena and link to older entries by index. `Linked`
relates a head index to the entries reached from it; growing the arena keeps every
list it holds, and no list is longer than the arena. -/

namespace GpuiFast.ArenaList

variable {ε : Type*} (next : ε → Option ℕ)

/-- The entries reached from `head`, newest first; each link goes to an older entry. -/
inductive Linked (arena : List ε) : Option ℕ → List ε → Prop
  | nil : Linked arena none []
  | cons {ix : ℕ} {e : ε} {l : List ε} (here : arena[ix]? = some e)
      (older : ∀ j, next e = some j → j < ix) (rest : Linked arena (next e) l) :
      Linked arena (some ix) (e :: l)

variable {next} {arena : List ε} {head : Option ℕ} {l : List ε}

theorem Linked.grow (h : Linked next arena head l) (e : ε) : Linked next (arena ++ [e]) head l := by
  induction h with
  | nil => exact .nil
  | cons here older _ ih =>
    obtain ⟨hlt, hget⟩ := List.getElem?_eq_some_iff.mp here
    exact .cons (by rw [List.getElem?_append_left hlt]; exact here) older ih

theorem Linked.push (h : Linked next arena head l) {e : ε} (he : next e = head) :
    Linked next (arena ++ [e]) (some arena.length) (e :: l) := by
  refine .cons (by simp) ?_ (he ▸ h.grow e)
  intro j hj
  rw [he] at hj
  subst hj
  cases h with
  | cons here _ _ => exact (List.getElem?_eq_some_iff.mp here).1

theorem Linked.length_le_head (h : Linked next arena head l) :
    ∀ ix, head = some ix → l.length ≤ ix + 1 := by
  induction h with
  | nil => intro ix hix; cases hix
  | @cons jx e l _ older rest ih =>
    intro ix hix
    cases hix
    cases hn : next e with
    | none =>
      rw [hn] at rest
      cases rest
      simp
    | some j =>
      have := ih j hn
      have := older j hn
      simp only [List.length_cons]
      omega

theorem Linked.length_le (h : Linked next arena head l) : l.length ≤ arena.length := by
  cases h with
  | nil => simp
  | @cons ix e l here older rest =>
    have hix := (List.getElem?_eq_some_iff.mp here).1
    have := (Linked.cons here older rest).length_le_head ix rfl
    omega

end GpuiFast.ArenaList
