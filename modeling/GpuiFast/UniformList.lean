import GpuiFast.Geometry

/-! Rows of one height below each other, moved by a scroll offset that is negative when the list is
scrolled down: how the offset is clamped, where a deferred scroll to an item takes it, and which rows
are rendered for it. Sizes are exact; only heights matter here. -/

namespace GpuiFast

inductive ScrollStrategy where
  | top
  | center
  | bottom
  | nearest
  deriving DecidableEq

structure DeferredScrollToItem where
  itemIndex : UInt64
  strategy : ScrollStrategy
  /-- In number of items. -/
  offset : ℕ
  scrollStrict : Bool

structure UniformList (K : Type*) [Field K] [LinearOrder K] where
  boundsTop : K
  boundsHeight : K
  borderTop : K
  borderBottom : K
  paddingTop : K
  paddingBottom : K
  itemHeight : K
  itemCount : ℕ
  yFlipped : Bool
  borderVisible : Bool
  overflowX : Overflow
  overflowY : Overflow
  borderTop_nonneg : 0 ≤ borderTop
  borderBottom_nonneg : 0 ≤ borderBottom
  paddingTop_nonneg : 0 ≤ paddingTop
  paddingBottom_nonneg : 0 ≤ paddingBottom
  itemHeight_pos : 0 < itemHeight

namespace UniformList

section Model

variable {K : Type*} [Field K] [LinearOrder K]

def listHeight (list : UniformList K) : K :=
  list.boundsHeight - (list.borderBottom + list.paddingBottom) -
    (list.borderTop + list.paddingTop)

def paddedTop (list : UniformList K) : K :=
  list.boundsTop + (list.borderTop + list.paddingTop)

def rows (list : UniformList K) (count : ℕ) : K := list.itemHeight * count

def contentHeight (list : UniformList K) : K := list.rows list.itemCount

section Clamp

variable [FloorRing K]

def roundHalfAway (x : K) : K := if 0 ≤ x then ⌊x + 1 / 2⌋ else ⌈x - 1 / 2⌉

def roundToTwoDecimals (pixels : K) : K := roundHalfAway (pixels * 100) / 100

def scrollMax (list : UniformList K) : K :=
  max (roundToTwoDecimals
    (list.contentHeight + (list.paddingTop + list.paddingBottom) - list.boundsHeight)) 0

def clampScrollPosition (list : UniformList K) (scrollOffset : K) : K :=
  max (-list.scrollMax) (min scrollOffset 0)

def clampedOffset (list : UniformList K) (scrollOffset : K) : K :=
  let scrollOffset := list.clampScrollPosition scrollOffset
  let maxScrollOffset := list.listHeight - list.contentHeight
  if scrollOffset ≠ 0 ∧ scrollOffset < maxScrollOffset then maxScrollOffset else scrollOffset

end Clamp

/-- The place of an item in the list; a flipped one counts from the end, and adds one first, which
can overflow. -/
def rowIndex (list : UniformList K) (itemIndex : UInt64) : Option ℕ :=
  if list.yFlipped then
    if itemIndex.toNat + 1 < 2 ^ 64 then some (list.itemCount - (itemIndex.toNat + 1)) else none
  else some itemIndex.toNat

def clampScrollTop (list : UniformList K) (scrollTop : K) : K :=
  min (max scrollTop 0) (max (list.contentHeight - list.listHeight) 0)

def isAbove (list : UniformList K) (offset row : ℕ) (scrollOffset : K) : Prop :=
  list.rows row < -scrollOffset + list.rows offset

def isBelow (list : UniformList K) (row : ℕ) (scrollOffset : K) : Prop :=
  list.rows row + list.itemHeight > -scrollOffset + list.listHeight

instance (list : UniformList K) (offset row : ℕ) (scrollOffset : K) :
    Decidable (list.isAbove offset row scrollOffset) :=
  inferInstanceAs (Decidable (_ < _))

instance (list : UniformList K) (row : ℕ) (scrollOffset : K) :
    Decidable (list.isBelow row scrollOffset) :=
  inferInstanceAs (Decidable (_ < _))

def centerTarget (list : UniformList K) (offset row : ℕ) : K :=
  let itemCenter := list.rows row + list.itemHeight / 2
  let offsetPixels := list.rows offset
  let viewportHeight := list.listHeight - offsetPixels
  let viewportCenter := offsetPixels + viewportHeight / 2
  itemCenter - viewportCenter

def scrollTo (list : UniformList K) (strategy : ScrollStrategy) (offset row : ℕ)
    (scrollOffset : K) : K :=
  let itemTop := list.rows row
  let itemBottom := itemTop + list.itemHeight
  let offsetPixels := list.rows offset
  match strategy with
  | .top => -list.clampScrollTop (itemTop - offsetPixels)
  | .center => -list.clampScrollTop (list.centerTarget offset row)
  | .bottom => -list.clampScrollTop (itemBottom - list.listHeight)
  | .nearest => scrollOffset

def scrollToRow (list : UniformList K) (strategy : ScrollStrategy) (offset : ℕ)
    (scrollStrict : Bool) (row : ℕ) (scrollOffset : K) : K :=
  if scrollStrict ∨ list.isAbove offset row scrollOffset ∨ list.isBelow row scrollOffset then
    let strategy :=
      if strategy = .nearest then
        if list.isAbove offset row scrollOffset then .top
        else if list.isBelow row scrollOffset then .bottom
        else strategy
      else strategy
    list.scrollTo strategy offset row scrollOffset
  else scrollOffset

/-- The new offset, or `none` if the index overflows. -/
def deferredScroll (list : UniformList K) (scroll : DeferredScrollToItem) (scrollOffset : K) :
    Option K :=
  (list.rowIndex scroll.itemIndex).map (fun row =>
    list.scrollToRow scroll.strategy scroll.offset scroll.scrollStrict row scrollOffset)

section Range

variable [FloorRing K]

def visibleRange (list : UniformList K) (scrollOffset : K) : ℕ × ℕ :=
  let scrollTop := -scrollOffset
  let firstVisibleElementIx := ⌊(scrollTop - list.paddingTop) / list.itemHeight⌋.toNat
  let lastVisibleElementIx := ⌈(scrollTop + list.listHeight) / list.itemHeight⌉.toNat
  (firstVisibleElementIx, min lastVisibleElementIx list.itemCount)

def rowTop (list : UniformList K) (scrollOffset : K) (ix : ℕ) : K :=
  list.paddedTop + (list.rows ix - -scrollOffset)

/-- The top and the bottom of the mask, if there is one. The two axes are exchanged: a list that hides
its overflow along one keeps a drawn border free along the other. -/
def overflowMask (list : UniformList K) : Option (K × K) :=
  let outer := (list.boundsTop, list.boundsTop + list.boundsHeight)
  let inner := if list.borderVisible then (outer.1 + list.borderTop, outer.2 - list.borderBottom)
    else outer
  match list.overflowX, list.overflowY with
  | .visible, .visible => none
  | .visible, _ => some outer
  | _, .visible => some inner
  | _, _ => some inner

/-- The mask inside the list's bounds, which clip the rows too. -/
def clip (list : UniformList K) : K × K :=
  let mask := list.overflowMask.getD (list.boundsTop, list.boundsTop + list.boundsHeight)
  (max list.boundsTop mask.1, min (list.boundsTop + list.boundsHeight) mask.2)

end Range

end Model

section Rows

variable {K : Type*} [Field K] [LinearOrder K] (list : UniformList K)

@[simp]
theorem rows_zero : list.rows 0 = 0 := by simp [rows]

variable (count : ℕ)

theorem rows_succ : list.rows (count + 1) = list.rows count + list.itemHeight := by
  simp only [rows, Nat.cast_succ]
  ring

theorem rows_add (other : ℕ) : list.rows (count + other) = list.rows count + list.rows other := by
  simp only [rows, Nat.cast_add]
  ring

variable [IsStrictOrderedRing K]

variable {other : ℕ}

theorem rows_le_iff {count : ℕ} : list.rows count ≤ list.rows other ↔ count ≤ other := by
  unfold rows
  rw [mul_le_mul_iff_right₀ list.itemHeight_pos, Nat.cast_le]

theorem rows_lt_iff {count : ℕ} : list.rows count < list.rows other ↔ count < other := by
  unfold rows
  rw [mul_lt_mul_iff_right₀ list.itemHeight_pos, Nat.cast_lt]

theorem rows_nonneg : 0 ≤ list.rows count := by
  rw [← list.rows_zero, rows_le_iff]
  omega

end Rows

end UniformList

end GpuiFast
