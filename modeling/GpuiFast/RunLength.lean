import Mathlib.Algebra.Order.BigOperators.Group.List
import Mathlib.Algebra.Order.Ring.Nat
import Mathlib.Data.List.Chain

/-! A list cut into its longest stretches of equal elements, built from the front: an element joins the
last stretch if it equals it, and opens one otherwise. -/

namespace GpuiFast

open List

namespace RunLength

variable {α : Type*}

def expand (stretches : List (ℕ × α)) : List α :=
  stretches.flatMap (fun stretch => List.replicate stretch.1 stretch.2)

@[simp]
lemma expand_nil : expand ([] : List (ℕ × α)) = [] := rfl

@[simp]
lemma expand_append (a b : List (ℕ × α)) : expand (a ++ b) = expand a ++ expand b := by
  simp [expand]

@[simp]
lemma expand_singleton (n : ℕ) (a : α) : expand [(n, a)] = List.replicate n a := by
  simp [expand]

lemma length_expand (stretches : List (ℕ × α)) :
    (expand stretches).length = (stretches.map Prod.fst).sum := by
  simp [expand, length_flatMap]

variable [DecidableEq α]

def add (stretches : List (ℕ × α)) (n : ℕ) (a : α) : List (ℕ × α) :=
  match stretches.getLast? with
  | some last =>
    if last.2 = a then stretches.dropLast ++ [(last.1 + n, a)] else stretches ++ [(n, a)]
  | none => [(n, a)]

@[simp]
lemma add_nil (n : ℕ) (a : α) : add [] n a = [(n, a)] := rfl

lemma add_concat_self (stretches : List (ℕ × α)) (m n : ℕ) (a : α) :
    add (stretches ++ [(m, a)]) n a = stretches ++ [(m + n, a)] := by
  simp [add]

lemma add_concat_of_ne (stretches : List (ℕ × α)) (m n : ℕ) {a b : α} (h : b ≠ a) :
    add (stretches ++ [(m, b)]) n a = stretches ++ [(m, b)] ++ [(n, a)] := by
  simp [add, h]

lemma add_cases (stretches : List (ℕ × α)) (n : ℕ) (a : α) :
    (∃ front m, stretches = front ++ [(m, a)] ∧ add stretches n a = front ++ [(m + n, a)]) ∨
      (∀ last ∈ stretches.getLast?, last.2 ≠ a) ∧ add stretches n a = stretches ++ [(n, a)] := by
  induction stretches using reverseRecOn with
  | nil => exact .inr ⟨by simp, rfl⟩
  | append_singleton front last _ =>
    obtain ⟨m, b⟩ := last
    by_cases hb : b = a
    · subst hb
      exact .inl ⟨front, m, rfl, add_concat_self front m n b⟩
    · exact .inr ⟨by simpa using hb, add_concat_of_ne front m n hb⟩

lemma expand_add (stretches : List (ℕ × α)) (n : ℕ) (a : α) :
    expand (add stretches n a) = expand stretches ++ List.replicate n a := by
  rcases add_cases stretches n a with ⟨front, m, rfl, h⟩ | ⟨-, h⟩
  · rw [h, expand_append, expand_append, expand_singleton, expand_singleton, append_assoc,
      replicate_append_replicate]
  · simp [h]

lemma add_add (stretches : List (ℕ × α)) (m n : ℕ) (a : α) :
    add (add stretches m a) n a = add stretches (m + n) a := by
  rcases add_cases stretches m a with ⟨front, k, rfl, h⟩ | ⟨hne, h⟩
  · rw [h, add_concat_self, add_concat_self, Nat.add_assoc]
  · rw [h, add_concat_self]
    rcases add_cases stretches (m + n) a with ⟨front, k, rfl, -⟩ | ⟨-, h'⟩
    · exact absurd rfl (hne (k, a) (by simp))
    · exact h'.symm

def stretches (xs : List α) : List (ℕ × α) := xs.foldl (fun found a => add found 1 a) []

@[simp]
lemma stretches_nil : stretches ([] : List α) = [] := rfl

lemma stretches_concat (xs : List α) (a : α) : stretches (xs ++ [a]) = add (stretches xs) 1 a := by
  simp [stretches]

lemma stretches_append_replicate (xs : List α) {n : ℕ} (hn : 0 < n) (a : α) :
    stretches (xs ++ List.replicate n a) = add (stretches xs) n a := by
  induction n, hn using Nat.le_induction with
  | base => exact stretches_concat xs a
  | succ n _ ih =>
    rw [replicate_succ', ← append_assoc, stretches_concat, ih, add_add]

@[simp]
lemma expand_stretches (xs : List α) : expand (stretches xs) = xs := by
  induction xs using reverseRecOn with
  | nil => rfl
  | append_singleton xs a ih =>
    rw [stretches_concat, expand_add, ih]
    rfl

lemma stretches_replicate {n : ℕ} (hn : 0 < n) (a : α) :
    stretches (List.replicate n a) = [(n, a)] := by
  rw [← nil_append (List.replicate n a), stretches_append_replicate [] hn]
  rfl

lemma fst_le_length {xs : List α} {stretch : ℕ × α} (h : stretch ∈ stretches xs) :
    stretch.1 ≤ xs.length := by
  conv_rhs => rw [← expand_stretches xs, length_expand]
  exact le_sum_of_mem (mem_map_of_mem h)

lemma getLast?_stretches (xs : List α) : (stretches xs).getLast?.map Prod.snd = xs.getLast? := by
  induction xs using reverseRecOn with
  | nil => rfl
  | append_singleton xs a _ =>
    rw [stretches_concat, getLast?_concat]
    rcases add_cases (stretches xs) 1 a with ⟨front, m, -, h⟩ | ⟨-, h⟩ <;> simp [h]

lemma isChain_stretches (xs : List α) : (stretches xs).IsChain (fun a b => a.2 ≠ b.2) := by
  induction xs using reverseRecOn with
  | nil => exact IsChain.nil
  | append_singleton xs a ih =>
    rw [stretches_concat]
    rcases add_cases (stretches xs) 1 a with ⟨front, m, hsplit, h⟩ | ⟨hne, h⟩
    · rw [hsplit, isChain_append] at ih
      rw [h, isChain_append]
      exact ⟨ih.1, List.IsChain.singleton _, by simpa using ih.2.2⟩
    · rw [h, isChain_append]
      exact ⟨ih, List.IsChain.singleton _, by simpa using hne⟩

end RunLength

end GpuiFast
