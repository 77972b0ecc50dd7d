import GpuiFast.UniformList
import Mathlib.Data.Rat.Floor

namespace GpuiFast

namespace UniformList

variable {K : Type*} [Field K] [LinearOrder K] (list : UniformList K)

def Shown (scrollOffset : K) (ix : ℕ) : Prop :=
  max (list.rowTop scrollOffset ix) list.clip.1 <
    min (list.rowTop scrollOffset ix + list.itemHeight) list.clip.2

def BeginsBelow (scrollOffset : K) (ix : ℕ) : Prop :=
  list.paddedTop + list.listHeight ≤ list.rowTop scrollOffset ix

def EndsAbove (scrollOffset : K) (ix : ℕ) : Prop :=
  list.rowTop scrollOffset ix + list.itemHeight ≤ list.boundsTop + list.borderTop

def Admits (scrollOffset : K) : Prop :=
  -max (list.contentHeight - list.listHeight) 0 ≤ scrollOffset ∧ scrollOffset ≤ 0

section Order

variable [IsStrictOrderedRing K] [FloorRing K]

theorem roundToTwoDecimals_nonpos {pixels : K} (h : pixels ≤ 0) :
    roundToTwoDecimals pixels ≤ 0 := by
  have hround : roundHalfAway (pixels * 100) ≤ 0 := by
    unfold roundHalfAway
    split_ifs with h0
    · have hzero : pixels * 100 = 0 := by linarith
      rw [hzero]
      norm_num
    · have hceil : ⌈pixels * 100 - 1 / 2⌉ ≤ 0 := by
        rw [Int.ceil_le]
        push_cast
        linarith
      exact_mod_cast hceil
  unfold roundToTwoDecimals
  linarith

variable (scrollOffset : K)

theorem clampedOffset_admits : list.Admits (list.clampedOffset scrollOffset) := by
  have hclamp : -list.scrollMax ≤ list.clampScrollPosition scrollOffset ∧
      list.clampScrollPosition scrollOffset ≤ 0 := by
    have hmax : 0 ≤ list.scrollMax := le_max_right _ _
    unfold clampScrollPosition
    constructor
    · exact le_max_left _ _
    · exact max_le (by linarith) (min_le_right _ _)
  have hborders : list.contentHeight + (list.paddingTop + list.paddingBottom) -
      list.boundsHeight ≤ list.contentHeight - list.listHeight := by
    have := list.borderTop_nonneg
    have := list.borderBottom_nonneg
    unfold listHeight
    linarith
  unfold clampedOffset Admits
  dsimp only
  by_cases hshort : list.contentHeight - list.listHeight ≤ 0
  · -- a list that fits is not scrolled
    have hmax : list.scrollMax = 0 :=
      max_eq_right (roundToTwoDecimals_nonpos (hborders.trans hshort))
    rw [hmax] at hclamp
    have hzero : list.clampScrollPosition scrollOffset = 0 := by linarith
    rw [hzero, max_eq_right hshort]
    simp
  · rw [not_le] at hshort
    rw [max_eq_left hshort.le]
    split_ifs with h
    · constructor <;> linarith
    · refine ⟨?_, hclamp.2⟩
      by_cases hzero : list.clampScrollPosition scrollOffset = 0
      · rw [hzero]
        linarith
      · have := not_lt.mp (fun hlt => h ⟨hzero, hlt⟩)
        linarith

variable (ix : ℕ)

theorem first_le_iff :
    (list.visibleRange scrollOffset).1 ≤ ix ↔ ¬ list.EndsAbove scrollOffset ix := by
  have hfloor : (list.visibleRange scrollOffset).1 ≤ ix ↔
      -scrollOffset - list.paddingTop < list.rows (ix + 1) := by
    unfold visibleRange rows
    rw [Int.toNat_le, ← Int.lt_add_one_iff, Int.floor_lt, div_lt_iff₀ list.itemHeight_pos, mul_comm]
    push_cast
    rfl
  rw [hfloor, rows_succ]
  unfold EndsAbove rowTop paddedTop
  constructor <;> intro h <;> linarith

theorem lt_last_iff :
    ix < (list.visibleRange scrollOffset).2 ↔
      ¬ list.BeginsBelow scrollOffset ix ∧ ix < list.itemCount := by
  have hceil : ix < (list.visibleRange scrollOffset).2 ↔
      list.rows ix < -scrollOffset + list.listHeight ∧ ix < list.itemCount := by
    unfold visibleRange rows
    rw [lt_min_iff, Int.lt_toNat, Int.lt_ceil, lt_div_iff₀ list.itemHeight_pos, mul_comm]
    push_cast
    rfl
  rw [hceil]
  unfold BeginsBelow rowTop
  constructor <;> rintro ⟨h, hcount⟩ <;> exact ⟨by linarith, hcount⟩

omit [FloorRing K] in
/-- No more than the borders is clipped away. -/
theorem clip_within : list.clip.1 ≤ list.boundsTop + list.borderTop ∧
    list.boundsTop + list.boundsHeight - list.borderBottom ≤ list.clip.2 := by
  have htop := list.borderTop_nonneg
  have hbottom := list.borderBottom_nonneg
  unfold clip overflowMask
  cases list.borderVisible <;> cases list.overflowX <;> cases list.overflowY <;> simp [htop, hbottom]

theorem shown_of_inside {scrollOffset : K} {ix : ℕ}
    (hfirst : (list.visibleRange scrollOffset).1 < ix)
    (hlast : ix + 1 < (list.visibleRange scrollOffset).2) : list.Shown scrollOffset ix := by
  obtain ⟨before, rfl⟩ : ∃ before, ix = before + 1 := ⟨ix - 1, by omega⟩
  have habove := (list.first_le_iff scrollOffset before).mp (by omega)
  have hbelow := ((list.lt_last_iff scrollOffset (before + 1 + 1)).mp hlast).1
  have hpos := list.itemHeight_pos
  have := list.borderTop_nonneg
  have := list.borderBottom_nonneg
  have := list.paddingTop_nonneg
  have := list.paddingBottom_nonneg
  have hpadded : list.paddedTop + list.listHeight =
      list.boundsTop + list.boundsHeight - list.borderBottom - list.paddingBottom := by
    unfold paddedTop listHeight
    ring
  unfold EndsAbove rowTop at habove
  unfold BeginsBelow rowTop at hbelow
  rw [hpadded] at hbelow
  have hsucc := list.rows_succ before
  have hsucc' := list.rows_succ (before + 1)
  obtain ⟨htop, hbottom⟩ := list.clip_within
  unfold Shown rowTop
  apply max_lt <;> apply lt_min <;> linarith

/-- The range handed to the rows' renderer is in order and inside the list, it has every row the clip
shows, and at most one row at each end that it does not. A list without items renders nothing. -/
structure RendersShown (scrollOffset : K) : Prop where
  covers : ∀ ix < list.itemCount, list.Shown scrollOffset ix →
    (list.visibleRange scrollOffset).1 ≤ ix ∧ ix < (list.visibleRange scrollOffset).2
  inside : (list.visibleRange scrollOffset).2 ≤ list.itemCount
  ordered : 0 < list.itemCount →
    (list.visibleRange scrollOffset).1 ≤ (list.visibleRange scrollOffset).2
  tight : ∀ ix, (list.visibleRange scrollOffset).1 < ix →
    ix + 1 < (list.visibleRange scrollOffset).2 → list.Shown scrollOffset ix

theorem ordered_iff :
    (list.visibleRange scrollOffset).1 ≤ (list.visibleRange scrollOffset).2 ↔
      ∀ ix, list.EndsAbove scrollOffset ix →
        ¬ list.BeginsBelow scrollOffset ix ∧ ix < list.itemCount := by
  have hlt : ∀ a b : ℕ, a ≤ b ↔ ∀ ix, ix < a → ix < b := by
    intro a b
    constructor
    · intro h ix hix
      omega
    · intro h
      by_contra hab
      exact absurd (h b (by omega)) (lt_irrefl b)
  rw [hlt]
  simp only [← not_le, list.first_le_iff, not_not]
  simp only [not_le, list.lt_last_iff]

theorem rendersShown_of {scrollOffset : K}
    (hshown : ∀ ix < list.itemCount, list.Shown scrollOffset ix →
      ¬ list.BeginsBelow scrollOffset ix ∧ ¬ list.EndsAbove scrollOffset ix)
    (hordered : 0 < list.itemCount → ∀ ix, list.EndsAbove scrollOffset ix →
      ¬ list.BeginsBelow scrollOffset ix ∧ ix < list.itemCount) :
    list.RendersShown scrollOffset := by
  constructor
  · intro ix hix hs
    rw [first_le_iff, lt_last_iff]
    exact ⟨(hshown ix hix hs).2, (hshown ix hix hs).1, hix⟩
  · exact min_le_right _ _
  · exact fun hcount => (list.ordered_iff scrollOffset).mpr (hordered hcount)
  · exact fun ix => list.shown_of_inside

/-- The rendered rows are those shown just when no row that shows begins past the padded bounds or
ends in the top border, and the slots scrolled off the top are rows that begin in the bounds. -/
theorem rendersShown_iff (scrollOffset : K) :
    list.RendersShown scrollOffset ↔
      (∀ ix < list.itemCount, list.Shown scrollOffset ix →
        ¬ list.BeginsBelow scrollOffset ix ∧ ¬ list.EndsAbove scrollOffset ix) ∧
      (0 < list.itemCount → ∀ ix, list.EndsAbove scrollOffset ix →
        ¬ list.BeginsBelow scrollOffset ix ∧ ix < list.itemCount) := by
  constructor
  · intro h
    refine ⟨?_, fun hcount => (list.ordered_iff scrollOffset).mp (h.ordered hcount)⟩
    intro ix hix hshown
    have hcovers := h.covers ix hix hshown
    rw [first_le_iff, lt_last_iff] at hcovers
    exact ⟨hcovers.2.1, hcovers.1⟩
  · rintro ⟨hshown, hordered⟩
    exact list.rendersShown_of hshown hordered

end Order

def bottomPadded : UniformList ℚ where
  boundsTop := 0
  boundsHeight := 100
  borderTop := 0
  borderBottom := 0
  paddingTop := 0
  paddingBottom := 50
  itemHeight := 30
  itemCount := 10
  yFlipped := false
  borderVisible := false
  overflowX := .visible
  overflowY := .scroll
  borderTop_nonneg := le_rfl
  borderBottom_nonneg := le_rfl
  paddingTop_nonneg := le_rfl
  paddingBottom_nonneg := by norm_num
  itemHeight_pos := by norm_num

/-- Scrolled to its end, it has no row in the padding. -/
theorem rendersShown_bottomPadded : bottomPadded.RendersShown (-250) := by
  have hlast : ∀ ix < bottomPadded.itemCount, ¬ bottomPadded.BeginsBelow (-250) ix := by
    intro ix hix
    have hle : (ix : ℚ) ≤ 9 := by exact_mod_cast Nat.le_of_lt_succ hix
    norm_num [BeginsBelow, paddedTop, listHeight, rowTop, rows, bottomPadded]
    linarith
  have habove : ∀ ix, bottomPadded.EndsAbove (-250) ix → ix < bottomPadded.itemCount := by
    intro ix habove
    norm_num [EndsAbove, paddedTop, rowTop, rows, bottomPadded] at habove
    have hlt : (ix : ℚ) < 10 := by linarith
    exact_mod_cast hlt
  apply (rendersShown_iff bottomPadded (-250)).mpr
  constructor
  · intro ix hix hshown
    refine ⟨hlast ix hix, ?_⟩
    norm_num [Shown, rowTop, paddedTop, rows, clip, overflowMask, bottomPadded] at hshown
    norm_num [EndsAbove, paddedTop, rowTop, rows, bottomPadded]
    linarith [hshown.1]
  · exact fun _ ix h => ⟨hlast ix (habove ix h), habove ix h⟩

/-- Its third row begins in the padding, where it shows and is not rendered. -/
theorem not_rendersShown_bottomPadded :
    ¬ ∀ (list : UniformList ℚ) (scrollOffset : ℚ), list.Admits scrollOffset →
      list.RendersShown scrollOffset := by
  intro hall
  have hadmits : bottomPadded.Admits 0 := by
    norm_num [Admits, contentHeight, rows, listHeight, bottomPadded]
  have hshown : bottomPadded.Shown 0 2 := by
    norm_num [Shown, rowTop, paddedTop, rows, clip, overflowMask, bottomPadded]
  have hrendered := ((hall bottomPadded 0 hadmits).covers 2 (by decide) hshown).2
  apply ((lt_last_iff bottomPadded 0 2).mp hrendered).1
  norm_num [BeginsBelow, paddedTop, listHeight, rowTop, rows, bottomPadded]

end UniformList

end GpuiFast
