import Mathlib

/-! Things used one after the other, the last used first, and as many of the last used as two limits
let be kept: how many they are and what they weigh together. -/

namespace GpuiFast.Recency

open List

variable {α : Type*}

section Fits

/-- The longest part at the front that weighs no more than `limit` and is no longer than `count`. -/
def takeFits (weight : α → ℕ) : (limit count : ℕ) → List α → List α
  | _, _, [] => []
  | limit, count, a :: stack =>
    if weight a ≤ limit ∧ 0 < count then
      a :: takeFits weight (limit - weight a) (count - 1) stack
    else []

variable {weight : α → ℕ} {limit count : ℕ} {stack : List α}

lemma takeFits_isPrefix : takeFits weight limit count stack <+: stack := by
  induction stack generalizing limit count with
  | nil => exact nil_prefix
  | cons a stack ih =>
    rw [takeFits]
    split
    · exact (prefix_cons_inj a).mpr ih
    · exact nil_prefix

lemma takeFits_sum_le : ((takeFits weight limit count stack).map weight).sum ≤ limit ∧
    (takeFits weight limit count stack).length ≤ count := by
  induction stack generalizing limit count with
  | nil => simp [takeFits]
  | cons a stack ih =>
    rw [takeFits]
    split
    · obtain ⟨hsum, hlength⟩ := @ih (limit - weight a) (count - 1)
      simp only [map_cons, sum_cons, length_cons]
      omega
    · simp

lemma takeFits_append (rest : List α) (hsum : (stack.map weight).sum ≤ limit)
    (hlength : stack.length ≤ count) :
    takeFits weight limit count (stack ++ rest) =
      stack ++ takeFits weight (limit - (stack.map weight).sum) (count - stack.length) rest := by
  induction stack generalizing limit count with
  | nil => rfl
  | cons a stack ih =>
    simp only [map_cons, sum_cons, length_cons] at hsum hlength ⊢
    rw [cons_append, takeFits, if_pos (by omega), ih (by omega) (by omega), cons_append,
      Nat.sub_sub, Nat.sub_sub, Nat.add_comm 1]

lemma takeFits_eq_self (hsum : (stack.map weight).sum ≤ limit) (hlength : stack.length ≤ count) :
    takeFits weight limit count stack = stack := by
  have happend := takeFits_append [] hsum hlength
  simpa [takeFits] using happend

lemma takeFits_concat {a : α}
    (h : limit < (stack.map weight).sum + weight a ∨ count ≤ stack.length) :
    takeFits weight limit count (stack ++ [a]) = takeFits weight limit count stack := by
  induction stack generalizing limit count with
  | nil =>
    simp only [map_nil, sum_nil, length_nil, Nat.zero_add] at h
    have hnot : ¬ (weight a ≤ limit ∧ 0 < count) := by omega
    simp [takeFits, hnot]
  | cons b stack ih =>
    simp only [map_cons, sum_cons, length_cons] at h
    rw [cons_append, takeFits, takeFits]
    split
    · rw [ih (by omega)]
    · rfl

end Fits

section Touch

variable [DecidableEq α]

/-- Puts `a` in front, whether it was there or not. -/
def touch (stack : List α) (a : α) : List α := a :: stack.erase a

/-- What was used in `history`, each once, the last used first. -/
def stack (history : List α) : List α := history.foldl touch []

/-- What was used after the last use of `a`, the last first. -/
def since (history : List α) (a : α) : List α := history.reverse.takeWhile (· ≠ a)

/-- What stands before `a`. -/
def above (stack : List α) (a : α) : List α := stack.takeWhile (· ≠ a)

@[simp] lemma stack_nil : stack ([] : List α) = [] := rfl

@[simp] lemma stack_concat (history : List α) (a : α) :
    stack (history ++ [a]) = touch (stack history) a := by
  simp [stack]

variable {b : α} {history : List α}

lemma mem_touch {stack : List α} {a : α} : b ∈ touch stack a ↔ b = a ∨ b ∈ stack := by
  by_cases h : b = a
  · simp [touch, h]
  · simp [touch, h, mem_erase_of_ne h]

lemma nodup_touch {stack : List α} (h : stack.Nodup) (a : α) : (touch stack a).Nodup :=
  nodup_cons.mpr ⟨h.not_mem_erase, h.erase a⟩

lemma touch_append {front back : List α} {a : α} (h : a ∉ front) :
    touch (front ++ a :: back) a = a :: (front ++ back) := by
  rw [touch, erase_append_right _ h, erase_cons_head]

lemma nodup_stack (history : List α) : (stack history).Nodup := by
  induction history using reverseRecOn with
  | nil => exact nodup_nil
  | append_singleton history a ih =>
    rw [stack_concat]
    exact nodup_touch ih a

lemma mem_stack {a : α} : a ∈ stack history ↔ a ∈ history := by
  induction history using reverseRecOn with
  | nil => simp
  | append_singleton history b ih =>
    rw [stack_concat, mem_touch, ih, mem_append, mem_singleton, or_comm]

lemma above_erase {stack : List α} {a : α} (h : a ≠ b) :
    above (stack.erase b) a = (above stack a).erase b := by
  induction stack with
  | nil => rfl
  | cons c stack ih =>
    by_cases hcb : c = b
    · subst hcb
      simp [above, h.symm]
    · rw [erase_cons_tail (by simpa using hcb)]
      by_cases hca : c = a
      · simp [above, hca]
      · simp only [above, hca, takeWhile_cons, ne_eq, not_false_eq_true, decide_true,
        if_true] at ih ⊢
        rw [erase_cons_tail (by simpa using hcb), ih]

lemma toFinset_above_stack {a : α} :
    (above (stack history) a).toFinset = (since history a).toFinset := by
  induction history using reverseRecOn with
  | nil => rfl
  | append_singleton history b ih =>
    rw [stack_concat]
    by_cases h : b = a
    · simp [touch, above, since, h]
    · have hsince : since (history ++ [b]) a = b :: since history a := by simp [since, h]
      have habove : above (touch (stack history) b) a = b :: (above (stack history) a).erase b := by
        rw [← above_erase (Ne.symm h)]
        simp [above, touch, h]
      rw [hsince, habove, toFinset_cons, toFinset_cons, ← ih]
      ext c
      by_cases hc : c = b
      · simp [hc]
      · simp [hc, mem_erase_of_ne hc]

variable {weight : α → ℕ} {limit count : ℕ} {stack : List α} {a : α}

lemma mem_takeFits (hnodup : stack.Nodup) :
    a ∈ takeFits weight limit count stack ↔ a ∈ stack ∧ (above stack a).length < count ∧
      ((above stack a).map weight).sum + weight a ≤ limit := by
  induction stack generalizing limit count with
  | nil => simp [takeFits]
  | cons b stack ih =>
    obtain ⟨hnotin, hnodup⟩ := nodup_cons.mp hnodup
    rw [takeFits]
    by_cases hba : b = a
    · subst hba
      have habove : above (b :: stack) b = [] := by simp [above]
      rw [habove]
      by_cases hfits : weight b ≤ limit ∧ 0 < count
      · simp [hfits]
      · have hnot : ¬ (0 < count ∧ weight b ≤ limit) := fun h => hfits ⟨h.2, h.1⟩
        simp [hfits, hnot]
    · have habove : above (b :: stack) a = b :: above stack a := by simp [above, hba]
      simp only [habove, length_cons, map_cons, sum_cons, mem_cons, Ne.symm hba, false_or]
      split
      · rw [mem_cons, ih hnodup]
        simp only [Ne.symm hba, false_or]
        refine and_congr_right fun _ => ?_
        omega
      · simp only [not_mem_nil, false_iff]
        rintro ⟨-, hcount, hlimit⟩
        omega

lemma takeFits_touch_of_mem (h : a ∈ takeFits weight limit count stack) :
    takeFits weight limit count (touch stack a) = touch (takeFits weight limit count stack) a := by
  obtain ⟨hsum, hlength⟩ := @takeFits_sum_le _ weight limit count stack
  obtain ⟨rest, hrest⟩ := @takeFits_isPrefix _ weight limit count stack
  generalize hkept : takeFits weight limit count stack = kept at h hsum hlength hrest
  have hperm : (touch kept a).Perm kept := (perm_cons_erase h).symm
  have hsum' : ((touch kept a).map weight).sum = (kept.map weight).sum :=
    (hperm.map weight).sum_eq
  -- Nothing after what is kept fits, in whichever order that is.
  have hnone : takeFits weight (limit - (kept.map weight).sum) (count - kept.length) rest = [] := by
    rw [← hrest, takeFits_append rest hsum hlength] at hkept
    exact append_right_eq_self.mp hkept
  have htouch : touch stack a = touch kept a ++ rest := by
    rw [← hrest, touch, erase_append_left _ h]
    rfl
  rw [htouch, takeFits_append rest (hsum'.trans_le hsum) (hperm.length_eq.trans_le hlength), hsum',
    hperm.length_eq, hnone, append_nil]

lemma takeFits_touch_of_notMem (hweight : weight a ≤ limit) (hcount : 0 < count)
    (h : a ∉ takeFits weight limit count stack) :
    takeFits weight limit count (touch stack a) =
      a :: takeFits weight (limit - weight a) (count - 1) (takeFits weight limit count stack) := by
  rw [touch, takeFits, if_pos ⟨hweight, hcount⟩]
  refine congrArg (a :: ·) ?_
  induction stack generalizing limit count with
  | nil => rfl
  | cons b stack ih =>
    by_cases hfits : weight b ≤ limit ∧ 0 < count
    · rw [takeFits, if_pos hfits, mem_cons, not_or] at h
      have hba : b ≠ a := Ne.symm h.1
      rw [erase_cons_tail (by simpa using hba)]
      conv_rhs => rw [takeFits, if_pos hfits]
      rw [takeFits, takeFits]
      split
      · rename_i hbeside
        have hrest := @ih (limit - weight b) (count - 1) (by omega) (by omega) h.2
        rw [Nat.sub_right_comm] at hrest
        rw [hrest]
      · rfl
    · have hba : b ≠ a := by
        rintro rfl
        exact hfits ⟨hweight, hcount⟩
      rw [erase_cons_tail (by simpa using hba), takeFits, if_neg (by omega)]
      conv_rhs => rw [takeFits, if_neg hfits]
      rfl

end Touch

end GpuiFast.Recency
