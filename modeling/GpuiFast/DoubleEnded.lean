import Mathlib.Data.List.Basic

/-! An iterator that gives items from the front and from the back. If either end gives the outermost item
of what is left, any order of calls gives every item once. -/

namespace GpuiFast

open List Option

structure DoubleEnded (σ α : Type*) where
  next : σ → Option α × σ
  nextBack : σ → Option α × σ

namespace DoubleEnded

variable {σ α : Type*} (iter : DoubleEnded σ α)

/-- Calls `next` where `true` and `nextBack` where `false`: the items each gave, in the order of the
calls, and the iterator after them. -/
def run : List Bool → σ → List α × List α × σ
  | [], s => ([], [], s)
  | true :: calls, s =>
    let later := run calls (iter.next s).2
    ((iter.next s).1.toList ++ later.1, later.2.1, later.2.2)
  | false :: calls, s =>
    let later := run calls (iter.nextBack s).2
    (later.1, (iter.nextBack s).1.toList ++ later.2.1, later.2.2)

/-- Whatever the calls, the items at the front and at the back are given in order, each once, and the
others are left; all are given by as many calls as there are items. -/
def GivesOnce (s : σ) (items : List α) : Prop :=
  ∀ calls, ∃ left, items = (iter.run calls s).1 ++ left ++ (iter.run calls s).2.1.reverse ∧
    (iter.run calls s).1.length + (iter.run calls s).2.1.length = min calls.length items.length

structure Gives (holds : σ → List α → Prop) : Prop where
  next : ∀ s items, holds s items →
    (iter.next s).1 = items.head? ∧ holds (iter.next s).2 items.tail
  nextBack : ∀ s items, holds s items →
    (iter.nextBack s).1 = items.getLast? ∧ holds (iter.nextBack s).2 items.dropLast

theorem Gives.givesOnce {iter : DoubleEnded σ α} {holds : σ → List α → Prop}
    (hgives : iter.Gives holds) {s : σ} {items : List α} (h : holds s items) :
    iter.GivesOnce s items := by
  intro calls
  induction calls generalizing s items with
  | nil => exact ⟨items, by simp [run], by simp [run]⟩
  | cons call calls ih =>
    cases call with
    | true =>
      obtain ⟨hitem, hrest⟩ := hgives.next s items h
      obtain ⟨left, happ, hlen⟩ := ih hrest
      refine ⟨left, ?_, ?_⟩
      · cases items with
        | nil => simpa [run, hitem] using happ
        | cons a items => simpa [run, hitem] using happ
      · cases items with
        | nil => simpa [run, hitem] using hlen
        | cons a items =>
          simp only [run, hitem, head?_cons, toList_some, length_append,
            length_cons, length_nil, tail_cons] at hlen ⊢
          omega
    | false =>
      obtain ⟨hitem, hrest⟩ := hgives.nextBack s items h
      obtain ⟨left, happ, hlen⟩ := ih hrest
      refine ⟨left, ?_, ?_⟩
      · rcases eq_nil_or_concat items with rfl | ⟨items, a, rfl⟩
        · simpa [run, hitem] using happ
        · rw [concat_eq_append] at hitem happ ⊢
          rw [dropLast_concat] at happ
          simp only [run, hitem, getLast?_concat, toList_some, singleton_append, reverse_cons]
          rw [← List.append_assoc, ← happ]
      · rcases eq_nil_or_concat items with rfl | ⟨items, a, rfl⟩
        · simpa [run, hitem] using hlen
        · rw [concat_eq_append] at hitem hlen ⊢
          rw [dropLast_concat] at hlen
          simp only [run, hitem, getLast?_concat, toList_some, length_append,
            length_cons, length_nil]
          omega

end DoubleEnded

end GpuiFast
