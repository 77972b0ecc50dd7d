import GpuiFast.LayerFollow
import Mathlib.Data.List.Pairwise

namespace GpuiFast

open List

structure FrameCopy (ι : Type*) where
  source : FrameRange ι
  target : ι → ℕ

namespace FrameRange

variable {ι : Type*}

def Ordered (range : FrameRange ι) : Prop := ∀ list, range.start list ≤ range.stop list

def Empty (range : FrameRange ι) : Prop := ∀ list, range.stop list ≤ range.start list

def Within (range outer : FrameRange ι) : Prop :=
  ∀ list, outer.start list ≤ range.start list ∧ range.start list ≤ range.stop list ∧
    range.stop list ≤ outer.stop list

def Disjoint (range other : FrameRange ι) : Prop :=
  ∀ list, range.stop list ≤ other.start list ∨ other.stop list ≤ range.start list

instance [Fintype ι] (range : FrameRange ι) : Decidable range.Empty :=
  inferInstanceAs (Decidable (∀ list, range.stop list ≤ range.start list))

def CarriedOnce [Fintype ι] (compared : ι → Bool) : List (FrameCopy ι) → FrameRange ι → Prop
  | [], _ => True
  | copy :: copies, range =>
    if range.Inside compared copy.source then
      ∀ later ∈ copies,
        ¬(range.shifted copy.source.start copy.target).Inside compared later.source
    else CarriedOnce compared copies range

def carriers [Fintype ι] (compared : ι → Bool) :
    List (FrameCopy ι) → FrameRange ι → List (FrameCopy ι)
  | [], _ => []
  | copy :: copies, range =>
    if range.Inside compared copy.source then
      copy :: carriers compared copies (range.shifted copy.source.start copy.target)
    else carriers compared copies range

def carried (range : FrameRange ι) (copies : List (FrameCopy ι)) : FrameRange ι :=
  copies.foldl (fun range copy => range.shifted copy.source.start copy.target) range

attribute [grind =] carriers CarriedOnce

variable [Fintype ι] {compared : ι → Bool}

variable {copies : List (FrameCopy ι)} {range : FrameRange ι}

lemma carriers_eq_nil_iff :
    carriers compared copies range = [] ↔ ∀ copy ∈ copies, ¬range.Inside compared copy.source := by
  induction copies generalizing range with
  | nil => simp [carriers]
  | cons copy copies ih =>
    rw [carriers]
    split
    case isTrue h => simp [h]
    case isFalse h => simp [h, ih]

lemma exists_inside_of_carriers (h : carriers compared copies range ≠ []) :
    ∃ copy ∈ copies, range.Inside compared copy.source := by
  by_contra hnone
  push Not at hnone
  exact h (carriers_eq_nil_iff.mpr hnone)

lemma carriers_length_le_one_iff :
    (carriers compared copies range).length ≤ 1 ↔ range.CarriedOnce compared copies := by
  induction copies generalizing range with
  | nil => simp [carriers, CarriedOnce]
  | cons copy copies ih =>
    rw [carriers, CarriedOnce]
    split
    case isTrue h =>
      rw [← carriers_eq_nil_iff, length_cons, ← length_eq_zero_iff]
      omega
    case isFalse h => exact ih

lemma carriers_sublist (copies : List (FrameCopy ι)) (range : FrameRange ι) :
    (carriers compared copies range).Sublist copies := by
  induction copies generalizing range with
  | nil => exact .slnil
  | cons copy copies ih =>
    rw [carriers]
    split
    · exact (ih _).cons_cons copy
    · exact (ih range).cons copy

lemma inside_of_carriers {rest : List (FrameCopy ι)} {first : FrameCopy ι}
    (h : carriers compared copies range = first :: rest) : range.Inside compared first.source := by
  induction copies with
  | nil => simp [carriers] at h
  | cons copy copies ih =>
    rw [carriers] at h
    split at h
    case isTrue hinside =>
      obtain ⟨rfl, -⟩ := cons_eq_cons.mp h
      exact hinside
    case isFalse => exact ih h

omit [Fintype ι] in
lemma le_carried_start (hcopies : copies ≠ []) {bound : ℕ} {list : ι}
    (h : ∀ copy ∈ copies, bound ≤ copy.target list) :
    bound ≤ (range.carried copies).start list := by
  induction copies generalizing range with
  | nil => exact absurd rfl hcopies
  | cons copy copies ih =>
    obtain rfl | hrest := copies.eq_nil_or_concat
    · have := h copy mem_cons_self
      simp only [carried, foldl_cons, foldl_nil, shifted, shiftedIndex]
      omega
    · have hne : copies ≠ [] := by
        obtain ⟨front, last, rfl⟩ := hrest
        simp
      exact ih hne fun copy hcopy => h copy (mem_cons_of_mem _ hcopy)

end FrameRange

namespace FrameEntries

variable {ι : Type*} {entries : FrameEntries ι} {steps : List (FrameStep ι)}

def copies : FrameEntries ι → List (FrameStep ι) → List (FrameCopy ι)
  | _, [] => []
  | entries, .build added :: steps => copies (entries.build added) steps
  | entries, .reuse range :: steps => ⟨range, entries.index⟩ :: copies (entries.reuse range) steps

def drawn (entries : FrameEntries ι) (steps : List (FrameStep ι)) : FrameEntries ι :=
  steps.foldl step entries

lemma prefix_step (step : FrameStep ι) (list : ι) : entries list <+: entries.step step list := by
  cases step with
  | build added => exact prefix_append _ _
  | reuse range => exact prefix_append _ _

lemma prefix_drawn (list : ι) : entries list <+: entries.drawn steps list := by
  induction steps generalizing entries with
  | nil => exact prefix_refl _
  | cons step steps ih => exact (prefix_step step list).trans ih

variable {copy : FrameCopy ι} {place : ℕ}

lemma index_le_target (h : copy ∈ entries.copies steps) (list : ι) :
    entries.index list ≤ copy.target list := by
  induction steps generalizing entries with
  | nil => simp [copies] at h
  | cons step steps ih =>
    cases step with
    | build added =>
      refine le_trans ?_ (ih h)
      simp [index, build]
    | reuse range =>
      rcases mem_cons.mp h with rfl | h
      · exact le_rfl
      · refine le_trans ?_ (ih h)
        simp [index, reuse]

lemma copies_pairwise (entries : FrameEntries ι) (steps : List (FrameStep ι)) :
    (entries.copies steps).Pairwise fun copy later => ∀ list,
      copy.target list + (copy.source.stop list - copy.source.start list) ≤ later.target list := by
  induction steps generalizing entries with
  | nil => exact .nil
  | cons step steps ih =>
    cases step with
    | build added => exact ih _
    | reuse range =>
      refine .cons (fun later hlater list => ?_) (ih _)
      have := index_le_target hlater list
      simpa [index, reuse] using this

lemma drawn_at_copy (h : copy ∈ entries.copies steps) {list : ι}
    (hplace : place < copy.source.stop list - copy.source.start list) :
    (entries.drawn steps list)[copy.target list + place]? =
      some (some (copy.source.start list + place)) := by
  induction steps generalizing entries with
  | nil => simp [copies] at h
  | cons step steps ih =>
    cases step with
    | build added => exact ih h
    | reuse range =>
      rcases mem_cons.mp h with rfl | h
      · have hat : (entries.reuse range list)[(entries list).length + place]? =
            some (some (range.start list + place)) := by
          rw [reuse, getElem?_append_right (by omega), Nat.add_sub_cancel_left,
            getElem?_map, getElem?_range' hplace]
          simp
        obtain ⟨tail, htail⟩ := (prefix_drawn list :
          entries.reuse range list <+: (entries.reuse range).drawn steps list)
        have hlt := (List.getElem?_eq_some_iff.mp hat).1
        change ((entries.reuse range).drawn steps list)[(entries list).length + place]? = _
        rw [← htail, getElem?_append_left hlt, hat]
      · exact ih h

lemma copied_by {list : ι} {value : ℕ} (h : (entries.drawn steps list)[place]? = some (some value)) :
    (entries list)[place]? = some (some value) ∨
      ∃ copy ∈ entries.copies steps,
        place < copy.target list + (copy.source.stop list - copy.source.start list) ∧
        copy.source.start list ≤ value ∧ value < copy.source.stop list := by
  induction steps generalizing entries with
  | nil => exact .inl h
  | cons step steps ih =>
    cases step with
    | build added =>
      rcases ih h with hbuilt | hcopy
      · left
        change (entries list ++ List.replicate (added list) none)[place]? = _ at hbuilt
        rw [getElem?_append] at hbuilt
        split at hbuilt
        · exact hbuilt
        · rw [getElem?_replicate] at hbuilt
          split at hbuilt <;> simp at hbuilt
      · exact .inr hcopy
    | reuse range =>
      rcases ih h with hreused | ⟨copy, hcopy, hbounds⟩
      · change (entries list ++ (range' (range.start list)
          (range.stop list - range.start list)).map some)[place]? = _ at hreused
        rw [getElem?_append] at hreused
        split at hreused
        case isTrue => exact .inl hreused
        case isFalse hlt =>
          right
          refine ⟨⟨range, entries.index⟩, mem_cons_self, ?_⟩
          obtain ⟨offset, hoffset, rfl⟩ : ∃ offset, (range' (range.start list)
              (range.stop list - range.start list))[place - (entries list).length]? =
              some offset ∧ offset = value := by
            simpa using hreused
          obtain ⟨hbound, rfl⟩ := List.getElem?_eq_some_iff.mp hoffset
          rw [length_range'] at hbound
          simp only [getElem_range', index]
          omega
      · exact .inr ⟨copy, mem_cons_of_mem _ hcopy, hbounds⟩

section Frame

variable {copy : FrameCopy ι} {range inner : FrameRange ι}

lemma copyOf_shifted (h : copy ∈ entries.copies steps) (hrange : range.Within copy.source) :
    (entries.drawn steps).CopyOf range (range.shifted copy.source.start copy.target) := by
  intro list
  obtain ⟨hstart, hordered, hstop⟩ := hrange list
  simp only [FrameRange.shifted, FrameRange.shiftedIndex]
  apply ext_getElem?
  intro place
  rw [getElem?_take, getElem?_drop, getElem?_map]
  by_cases hplace : place < range.stop list - range.start list
  · rw [if_pos (by omega), getElem?_range' hplace]
    have hplace' : range.start list - copy.source.start list + place <
        copy.source.stop list - copy.source.start list := by omega
    have hat := drawn_at_copy h hplace'
    rw [show range.start list - copy.source.start list + copy.target list + place =
      copy.target list + (range.start list - copy.source.start list + place) by omega, hat]
    simp
    omega
  · rw [if_neg (by omega), getElem?_eq_none (by simp; omega)]
    rfl

lemma not_copyOf_of_past (hempty : ∀ list, entries list = [])
    (hdisjoint : (entries.copies steps).Pairwise fun copy later =>
      copy.source.Disjoint later.source)
    (h : copy ∈ entries.copies steps) (hrange : inner.Within copy.source) {list : ι}
    (hsome : inner.start list < inner.stop list)
    (hpast : copy.target list + (copy.source.stop list - copy.source.start list) ≤
      range.start list) : ¬(entries.drawn steps).CopyOf inner range := by
  intro hcopy
  have hfirst := congrArg (·[0]?) (hcopy list)
  simp only [getElem?_take, getElem?_drop, getElem?_map, Nat.add_zero] at hfirst
  rw [getElem?_range' (by omega)] at hfirst
  simp only [Nat.mul_zero, Nat.add_zero, Option.map_some] at hfirst
  split at hfirst
  case isFalse => simp at hfirst
  case isTrue =>
    rcases copied_by hfirst with hbefore | ⟨other, hother, hlt, hvalue⟩
    · simp [hempty] at hbefore
    · obtain ⟨hstart, -, hstop⟩ := hrange list
      have hsame : other = copy := by
        by_contra hne
        have : Std.Symm fun copy later : FrameCopy ι => copy.source.Disjoint later.source :=
          ⟨fun _ _ hapart list => (hapart list).symm⟩
        have hapart := hdisjoint.forall hother h hne list
        omega
      subst hsame
      omega

end Frame

end FrameEntries

end GpuiFast
