import GpuiFast.UniformListRange

namespace GpuiFast

namespace UniformList

variable {K : Type*} [Field K] [LinearOrder K] (list : UniformList K)

def targetRow (itemIndex : UInt64) : ℕ :=
  let item := min itemIndex.toNat (list.itemCount - 1)
  if list.yFlipped then list.itemCount - 1 - item else item

def documentedTop (strategy : ScrollStrategy) (offset row : ℕ) : K :=
  match strategy with
  | .bottom => list.rows row + list.itemHeight + list.rows offset - list.listHeight
  | .center => list.centerTarget offset row
  | _ => list.rows row - list.rows offset

def InShrunkViewport (strategy : ScrollStrategy) (offset row : ℕ) (scrollOffset : K) : Prop :=
  match strategy with
  | .bottom => -scrollOffset ≤ list.rows row ∧
      list.rows row + list.itemHeight + list.rows offset ≤ -scrollOffset + list.listHeight
  | _ => -scrollOffset + list.rows offset ≤ list.rows row ∧
      list.rows row + list.itemHeight ≤ -scrollOffset + list.listHeight

/-- A scroll of a list ends at an offset the list admits, with the item visible if it fits below the
offset. It leaves the item where the strategy has it, unless the list ends before that, or the item
was visible and the scroll is not strict. -/
def LandsDocumented (scroll : DeferredScrollToItem) (scrollOffset : K) : Prop :=
  ∃ landed, list.deferredScroll scroll scrollOffset = some landed ∧
    list.Admits landed ∧
    (list.rows (scroll.offset + 1) ≤ list.listHeight →
      -landed ≤ list.rows (list.targetRow scroll.itemIndex) ∧
      list.rows (list.targetRow scroll.itemIndex) + list.itemHeight ≤
        -landed + list.listHeight) ∧
    (scroll.strategy ≠ .nearest →
      scroll.scrollStrict ∨ ¬ list.InShrunkViewport scroll.strategy scroll.offset
        (list.targetRow scroll.itemIndex) scrollOffset →
      landed = -list.clampScrollTop
        (list.documentedTop scroll.strategy scroll.offset (list.targetRow scroll.itemIndex)))

variable {scrollTop : K}

theorem clampScrollTop_of_end (h : list.contentHeight - list.listHeight ≤ scrollTop) :
    list.clampScrollTop scrollTop = max (list.contentHeight - list.listHeight) 0 := by
  unfold clampScrollTop
  exact min_eq_right (max_le_max h le_rfl)

theorem clampScrollTop_of_short (h : list.contentHeight - list.listHeight ≤ 0) :
    list.clampScrollTop scrollTop = 0 := by
  unfold clampScrollTop
  rw [max_eq_right h]
  exact min_eq_right (le_max_right _ _)

theorem rowIndex_eq_none_iff (itemIndex : UInt64) :
    list.rowIndex itemIndex = none ↔ list.yFlipped = true ∧ itemIndex.toNat + 1 = 2 ^ 64 := by
  have hlt := itemIndex.toNat_lt
  unfold rowIndex
  split_ifs with hflipped hnext
  · simp only [false_iff, not_and]
    omega
  · simp only [true_iff]
    exact ⟨hflipped, by omega⟩
  · simp [hflipped]

theorem rowIndex_spec {itemIndex : UInt64} {row : ℕ} (hcount : 0 < list.itemCount)
    (h : list.rowIndex itemIndex = some row) :
    list.targetRow itemIndex < list.itemCount ∧
      ((list.yFlipped = true ∨ itemIndex.toNat < list.itemCount) ∧ row = list.targetRow itemIndex ∨
        (¬ (list.yFlipped = true ∨ itemIndex.toNat < list.itemCount)) ∧
          row = itemIndex.toNat ∧ list.itemCount ≤ row ∧
          list.targetRow itemIndex + 1 = list.itemCount) := by
  unfold rowIndex at h
  unfold targetRow
  split_ifs at h with hflipped hnext
  · obtain rfl := Option.some.inj h
    simp only [hflipped, if_true]
    constructor
    · omega
    · left
      exact ⟨.inl trivial, by omega⟩
  · obtain rfl := Option.some.inj h
    simp only [hflipped, Bool.false_eq_true, if_false, false_or]
    constructor
    · omega
    · by_cases hitem : itemIndex.toNat < list.itemCount
      · left
        exact ⟨hitem, by omega⟩
      · right
        exact ⟨hitem, trivial, by omega, by omega⟩

section Order

variable [IsStrictOrderedRing K]

theorem clampScrollTop_eq_iff {a b : K} (h : a ≤ b) :
    list.clampScrollTop a = list.clampScrollTop b ↔
      a = b ∨ b ≤ 0 ∨ list.contentHeight - list.listHeight ≤ 0 ∨
        list.contentHeight - list.listHeight ≤ a := by
  unfold clampScrollTop
  constructor
  · intro heq
    by_contra hnone
    simp only [not_or, not_le] at hnone
    obtain ⟨hne, hb, hlong, ha⟩ := hnone
    have hlt : a < b := lt_of_le_of_ne h hne
    rw [max_eq_left hlong.le, max_eq_left hb.le] at heq
    have hmin : min (max a 0) (list.contentHeight - list.listHeight) = max a 0 :=
      min_eq_left (max_le ha.le hlong.le)
    rw [hmin] at heq
    have : max a 0 < min b (list.contentHeight - list.listHeight) :=
      lt_min (max_lt hlt hb) (max_lt ha hlong)
    linarith
  · rintro (rfl | hb | hshort | ha)
    · rfl
    · rw [max_eq_right hb, max_eq_right (h.trans hb)]
    · rw [max_eq_right hshort, min_eq_right (le_max_right a 0), min_eq_right (le_max_right b 0)]
    · have hmax := max_le_max ha (le_refl (0 : K))
      have hmax' := max_le_max (ha.trans h) (le_refl (0 : K))
      rw [min_eq_right hmax, min_eq_right hmax']

theorem clampScrollTop_admits (scrollTop : K) : list.Admits (-list.clampScrollTop scrollTop) := by
  unfold Admits clampScrollTop
  constructor
  · exact neg_le_neg (min_le_right _ _)
  · have : 0 ≤ min (max scrollTop 0) (max (list.contentHeight - list.listHeight) 0) :=
      le_min (le_max_right _ _) (le_max_right _ _)
    linarith

def Visible (scrollOffset : K) (row : ℕ) : Prop :=
  -scrollOffset ≤ list.rows row ∧
    list.rows row + list.itemHeight ≤ -scrollOffset + list.listHeight

variable {scrollOffset : K} {row : ℕ} (strategy : ScrollStrategy) (offset : ℕ) {target : ℕ}

theorem past_not_below (hadmits : list.Admits scrollOffset) (hpast : list.itemCount ≤ row)
    (hbelow : ¬ list.isBelow row scrollOffset) :
    scrollOffset = 0 ∧ list.contentHeight - list.listHeight ≤ 0 := by
  have hrow : list.contentHeight ≤ list.rows row := list.rows_le_iff.mpr hpast
  have hpos := list.itemHeight_pos
  unfold isBelow at hbelow
  unfold Admits at hadmits
  rcases max_cases (list.contentHeight - list.listHeight) 0 with hmax | hmax
  · linarith [hmax.1]
  · exact ⟨by linarith [hmax.1], by linarith [hmax.2]⟩

variable {scrollTop : K} (scrollStrict : Bool)

theorem visible_clampScrollTop (hrow : row < list.itemCount) (htop : scrollTop ≤ list.rows row)
    (hbottom : list.rows row + list.itemHeight ≤ scrollTop + list.listHeight) :
    list.Visible (-list.clampScrollTop scrollTop) row := by
  have hnonneg := list.rows_nonneg row
  have hcontent : list.rows row + list.itemHeight ≤ list.contentHeight := by
    rw [← rows_succ]
    exact list.rows_le_iff.mpr hrow
  unfold Visible
  rw [neg_neg]
  constructor
  · exact (min_le_left _ _).trans (max_le htop hnonneg)
  · have hclamp : list.rows row + list.itemHeight - list.listHeight ≤
        list.clampScrollTop scrollTop := by
      apply le_min
      · exact le_max_of_le_left (by linarith)
      · exact le_max_of_le_left (by linarith)
    linarith

theorem visible_of_end (hrow : row + 1 = list.itemCount) (hfits : list.itemHeight ≤ list.listHeight)
    (h : list.contentHeight - list.listHeight ≤ scrollTop) :
    list.Visible (-list.clampScrollTop scrollTop) row := by
  have hnonneg := list.rows_nonneg row
  have hcontent : list.contentHeight = list.rows row + list.itemHeight := by
    rw [← rows_succ, hrow]
    rfl
  unfold Visible
  rw [neg_neg, list.clampScrollTop_of_end h]
  rcases max_cases (list.contentHeight - list.listHeight) 0 with hmax | hmax <;>
    constructor <;> linarith [hmax.1]

theorem scrollTo_admits (row : ℕ) (h : list.Admits scrollOffset) :
    list.Admits (list.scrollTo strategy offset row scrollOffset) := by
  cases strategy with
  | nearest => exact h
  | top => exact list.clampScrollTop_admits _
  | center => exact list.clampScrollTop_admits _
  | bottom => exact list.clampScrollTop_admits _

theorem scrollToRow_admits (row : ℕ) (h : list.Admits scrollOffset) :
    list.Admits (list.scrollToRow strategy offset scrollStrict row scrollOffset) := by
  unfold scrollToRow
  split
  · exact list.scrollTo_admits _ offset row h
  · exact h

theorem scrollTo_visible {strategy : ScrollStrategy} (hstrategy : strategy ≠ .nearest) {offset : ℕ}
    (scrollOffset : K) (htarget : target < list.itemCount)
    (hrow : row = target ∨ list.itemCount ≤ row ∧ target + 1 = list.itemCount)
    (hfits : list.rows (offset + 1) ≤ list.listHeight) :
    list.Visible (list.scrollTo strategy offset row scrollOffset) target := by
  have hoffset := list.rows_nonneg offset
  have hpos := list.itemHeight_pos
  rw [rows_succ] at hfits
  rcases hrow with rfl | ⟨hpast, hlast⟩
  · cases strategy with
    | nearest => exact absurd rfl hstrategy
    | top => apply list.visible_clampScrollTop htarget <;> linarith
    | center =>
      apply list.visible_clampScrollTop htarget <;> unfold centerTarget <;> dsimp only <;>
        linarith
    | bottom => apply list.visible_clampScrollTop htarget <;> linarith
  · have hcontent : list.contentHeight ≤ list.rows row := list.rows_le_iff.mpr hpast
    have hheight : list.itemHeight ≤ list.listHeight := by linarith
    cases strategy with
    | nearest => exact absurd rfl hstrategy
    | top => exact list.visible_of_end hlast hheight (by linarith)
    | center =>
      apply list.visible_of_end hlast hheight
      unfold centerTarget
      dsimp only
      linarith
    | bottom => exact list.visible_of_end hlast hheight (by linarith)

theorem scrollToRow_visible {offset : ℕ} (hadmits : list.Admits scrollOffset)
    (htarget : target < list.itemCount)
    (hrow : row = target ∨ list.itemCount ≤ row ∧ target + 1 = list.itemCount)
    (hfits : list.rows (offset + 1) ≤ list.listHeight) :
    list.Visible (list.scrollToRow strategy offset scrollStrict row scrollOffset) target := by
  have hoffset := list.rows_nonneg offset
  -- a list that is not scrolled shows the row already
  have hstays : ¬ list.isAbove offset row scrollOffset → ¬ list.isBelow row scrollOffset →
      list.Visible scrollOffset target := by
    intro habove hbelow
    rcases hrow with rfl | ⟨hpast, hlast⟩
    · unfold isAbove at habove
      unfold isBelow at hbelow
      constructor <;> linarith
    · obtain ⟨rfl, hshort⟩ := list.past_not_below hadmits hpast hbelow
      have hcontent : list.contentHeight = list.rows target + list.itemHeight := by
        rw [← rows_succ, hlast]
        rfl
      have hnonneg := list.rows_nonneg target
      constructor <;> linarith
  unfold scrollToRow
  split_ifs with hscrolls hnearest habove hbelow
  · exact list.scrollTo_visible (by simp) scrollOffset htarget hrow hfits
  · exact list.scrollTo_visible (by simp) scrollOffset htarget hrow hfits
  · subst hnearest
    exact hstays habove hbelow
  · exact list.scrollTo_visible hnearest scrollOffset htarget hrow hfits
  · simp only [not_or] at hscrolls
    exact hstays hscrolls.2.1 hscrolls.2.2

/-- Placing a row below the offset, by an aim that puts rows in order: the row is placed as the target
if it is the target, or the aims of both are past the same end. -/
theorem placed_below_iff {aim : ℕ → K} (hmono : StrictMono aim) {offset : ℕ}
    (hfits : list.contentHeight - list.listHeight ≤ aim (list.itemCount - 1) ↔
      list.rows (offset + 1) ≤ list.listHeight) {scrollStrict : Bool}
    (hadmits : list.Admits scrollOffset)
    (hrow : row = target ∨ row ≠ target ∧ list.itemCount ≤ row ∧ target + 1 = list.itemCount) :
    ((scrollStrict = true ∨ ¬ (-scrollOffset + list.rows offset ≤ list.rows target ∧
          list.rows target + list.itemHeight ≤ -scrollOffset + list.listHeight) →
        (if scrollStrict = true ∨ list.isAbove offset row scrollOffset ∨
            list.isBelow row scrollOffset
          then -list.clampScrollTop (aim row) else scrollOffset) =
          -list.clampScrollTop (aim target)) ↔
      row = target ∨ list.rows (offset + 1) ≤ list.listHeight ∨ aim row ≤ 0 ∨
        list.contentHeight ≤ list.listHeight) := by
  rcases hrow with rfl | ⟨hne, hpast, hlast⟩
  · simp only [true_or, iff_true]
    intro hscrolls
    apply if_pos
    unfold isAbove isBelow
    rwa [not_and_or, not_le, not_le] at hscrolls
  · have haim : aim target ≤ aim row := hmono.monotone (by omega)
    have heq := list.clampScrollTop_eq_iff haim
    have htarget : aim target = aim (list.itemCount - 1) := by
      congr 1
      omega
    rw [htarget, hfits, ← htarget] at heq
    have hlt : aim target ≠ aim row := hmono.injective.ne hne.symm
    simp only [hne, false_or]
    constructor
    · intro hplaced
      by_contra hnone
      simp only [not_or, not_le] at hnone
      obtain ⟨hnofit, hpositive, hlong⟩ := hnone
      have hbelow : list.isBelow row scrollOffset := by
        by_contra hbelow
        have := (list.past_not_below hadmits hpast hbelow).2
        linarith
      have hhidden : ¬ (-scrollOffset + list.rows offset ≤ list.rows target ∧
          list.rows target + list.itemHeight ≤ -scrollOffset + list.listHeight) := by
        rintro ⟨habove, hbottom⟩
        rw [rows_succ] at hnofit
        linarith
      have hsame := hplaced (.inr hhidden)
      rw [if_pos (.inr (.inr hbelow)), neg_inj] at hsame
      rcases heq.mp hsame.symm with h | h | h | h
      · exact hlt h
      · linarith
      · linarith
      · linarith
    · intro hends _
      split_ifs with hscrolls
      · rw [neg_inj, eq_comm, heq]
        rcases hends with h | h | h
        · exact .inr (.inr (.inr h))
        · exact .inr (.inl h)
        · exact .inr (.inr (.inl (by linarith)))
      · simp only [not_or] at hscrolls
        obtain ⟨rfl, hshort⟩ := list.past_not_below hadmits hpast hscrolls.2.2
        rw [list.clampScrollTop_of_short hshort, neg_zero]

section Bottom

variable {offset : ℕ} {scrollStrict : Bool}

omit [IsStrictOrderedRing K] in
theorem documentedTop_bottom : list.documentedTop .bottom offset target =
    list.rows target + list.itemHeight + list.rows offset - list.listHeight := rfl

omit [IsStrictOrderedRing K] in
theorem rows_below : list.rows (target + 1 + offset) =
    list.rows target + list.itemHeight + list.rows offset := by
  rw [rows_add, rows_succ]

omit [IsStrictOrderedRing K] in
theorem rows_last (hlast : target + 1 = list.itemCount) :
    list.rows target + list.itemHeight = list.contentHeight := by
  rw [← rows_succ, hlast]
  rfl

/-- The offset makes no difference to where a row is placed at the bottom. -/
theorem clampScrollTop_bottom_iff (hrow : row < list.itemCount) :
    list.clampScrollTop (list.rows row + list.itemHeight - list.listHeight) =
        list.clampScrollTop (list.documentedTop .bottom offset row) ↔
      offset = 0 ∨ row + 1 = list.itemCount ∨ list.rows (row + 1 + offset) ≤ list.listHeight ∨
        list.contentHeight ≤ list.listHeight := by
  have hoffset := list.rows_nonneg offset
  have hle : list.rows row + list.itemHeight - list.listHeight ≤
      list.documentedTop .bottom offset row := by
    rw [documentedTop_bottom]
    linarith
  rw [list.clampScrollTop_eq_iff hle, documentedTop_bottom, rows_below]
  constructor
  · intro hends
    by_contra hnone
    simp only [not_or, not_le] at hnone
    obtain ⟨hne, hnotlast, hfar, hlong⟩ := hnone
    have hless : list.rows row + list.itemHeight < list.contentHeight := by
      rw [← rows_succ]
      exact list.rows_lt_iff.mpr (by omega)
    have hpositive : 0 < list.rows offset := by
      rw [← list.rows_zero, rows_lt_iff]
      omega
    rcases hends with h | h | h | h <;> linarith
  · rintro (rfl | hlast | hfits | hshort)
    · left
      rw [rows_zero]
      ring
    · exact .inr (.inr (.inr (by linarith [list.rows_last hlast])))
    · exact .inr (.inl (by linarith))
    · exact .inr (.inr (.inl (by linarith)))

/-- A row that shows below the first rows but not in the shrunk viewport is to go up. -/
theorem lt_documentedTop_bottom (habove : ¬ list.isAbove offset target scrollOffset)
    (hhidden : ¬ list.InShrunkViewport .bottom offset target scrollOffset) :
    -scrollOffset < list.documentedTop .bottom offset target := by
  have hoffset := list.rows_nonneg offset
  unfold isAbove at habove
  unfold InShrunkViewport at hhidden
  by_contra hlow
  apply hhidden
  rw [documentedTop_bottom] at hlow
  constructor <;> linarith

/-- A row that stays where it is, and is to go up, has the list at its end. -/
theorem stays_bottom_iff (hadmits : list.Admits scrollOffset)
    (hup : -scrollOffset < list.documentedTop .bottom offset target) :
    scrollOffset = -list.clampScrollTop (list.documentedTop .bottom offset target) ↔
      max (list.contentHeight - list.listHeight) 0 ≤ -scrollOffset := by
  constructor
  · intro hsame
    by_contra hnotend
    have hlt : -scrollOffset < list.clampScrollTop (list.documentedTop .bottom offset target) :=
      lt_min (lt_max_of_lt_left hup) (not_le.mp hnotend)
    linarith
  · intro hend
    rw [list.clampScrollTop_of_end ((le_max_left _ _).trans (hend.trans hup.le))]
    linarith [hadmits.1]

theorem placed_bottom_past (hadmits : list.Admits scrollOffset) (hpast : list.itemCount ≤ row)
    (hlast : target + 1 = list.itemCount) :
    (if scrollStrict = true ∨ list.isAbove offset row scrollOffset ∨ list.isBelow row scrollOffset
      then -list.clampScrollTop (list.rows row + list.itemHeight - list.listHeight)
      else scrollOffset) = -list.clampScrollTop (list.documentedTop .bottom offset target) := by
  have hoffset := list.rows_nonneg offset
  have hpos := list.itemHeight_pos
  have htop : list.contentHeight ≤ list.rows row := list.rows_le_iff.mpr hpast
  have hdoc : list.contentHeight - list.listHeight ≤ list.documentedTop .bottom offset target := by
    rw [documentedTop_bottom, list.rows_last hlast]
    linarith
  rw [list.clampScrollTop_of_end hdoc]
  split_ifs with hscrolls
  · rw [list.clampScrollTop_of_end (by linarith)]
  · simp only [not_or] at hscrolls
    obtain ⟨rfl, hshort⟩ := list.past_not_below hadmits hpast hscrolls.2.2
    rw [max_eq_right hshort, neg_zero]

theorem placed_bottom_iff (hadmits : list.Admits scrollOffset) (htarget : target < list.itemCount)
    (hrow : row = target ∨ list.itemCount ≤ row ∧ target + 1 = list.itemCount) :
    ((scrollStrict = true ∨ ¬ list.InShrunkViewport .bottom offset target scrollOffset →
        (if scrollStrict = true ∨ list.isAbove offset row scrollOffset ∨
            list.isBelow row scrollOffset
          then -list.clampScrollTop (list.rows row + list.itemHeight - list.listHeight)
          else scrollOffset) =
          -list.clampScrollTop (list.documentedTop .bottom offset target)) ↔
      offset = 0 ∨ target + 1 = list.itemCount ∨
        list.rows (target + 1 + offset) ≤ list.listHeight ∨
        list.contentHeight ≤ list.listHeight ∨
        scrollStrict = false ∧ (list.InShrunkViewport .bottom offset target scrollOffset ∨
          ¬ list.isAbove offset target scrollOffset ∧ ¬ list.isBelow target scrollOffset ∧
            max (list.contentHeight - list.listHeight) 0 ≤ -scrollOffset)) := by
  rcases hrow with rfl | ⟨hpast, hlast⟩
  · by_cases hunseen : scrollStrict = true ∨ ¬ list.InShrunkViewport .bottom offset row scrollOffset
    · simp only [hunseen, true_imp_iff]
      by_cases hscrolls : scrollStrict = true ∨ list.isAbove offset row scrollOffset ∨
          list.isBelow row scrollOffset
      · rw [if_pos hscrolls, neg_inj, list.clampScrollTop_bottom_iff htarget]
        constructor
        · rintro (h | h | h | h) <;> simp [h]
        · rintro (h | h | h | h | ⟨hstrict, hin | ⟨habove, hbelow, -⟩⟩)
          · exact .inl h
          · exact .inr (.inl h)
          · exact .inr (.inr (.inl h))
          · exact .inr (.inr (.inr h))
          · exact absurd hin (hunseen.resolve_left (by simp [hstrict]))
          · simp [hstrict, habove, hbelow] at hscrolls
      · rw [if_neg hscrolls]
        simp only [not_or, Bool.not_eq_true] at hscrolls
        obtain ⟨hstrict, habove, hbelow⟩ := hscrolls
        have hhidden := hunseen.resolve_left (by simp [hstrict])
        have hup := list.lt_documentedTop_bottom habove hhidden
        rw [list.stays_bottom_iff hadmits hup]
        refine ⟨fun hend => .inr (.inr (.inr (.inr ⟨hstrict, .inr ⟨habove, hbelow, hend⟩⟩))), ?_⟩
        rw [documentedTop_bottom] at hup
        unfold isBelow at hbelow
        rw [rows_below]
        rintro (rfl | hlast | hfits | hshort | ⟨-, hin | ⟨-, -, hend⟩⟩)
        · rw [rows_zero] at hup
          linarith
        · exact max_le (by linarith [list.rows_last hlast]) (by linarith [hadmits.2])
        · linarith [hadmits.2]
        · exact max_le (by linarith [hadmits.2]) (by linarith [hadmits.2])
        · exact absurd hin hhidden
        · exact hend
    · refine iff_of_true (fun h => absurd h hunseen) ?_
      simp only [not_or, not_not, Bool.not_eq_true] at hunseen
      exact .inr (.inr (.inr (.inr ⟨hunseen.1, .inl hunseen.2⟩)))
  · simp only [hlast, true_or, or_true, iff_true]
    exact fun _ => list.placed_bottom_past hadmits hpast hlast

end Bottom

/-- A scroll does not take the largest index in a flipped list. One to the top or the center is to an
item of the list or has its rows fit, or ends at the start anyway, or the list fits. One to the bottom
has no offset, or it is to the last item, or to one with the rows below it in the first viewport, or
the list fits; or it is not strict and finds the row in the viewport the offset leaves, or at the end
of the list below the first rows. -/
def Landable (scroll : DeferredScrollToItem) (scrollOffset : K) : Prop :=
  ¬ (list.yFlipped = true ∧ scroll.itemIndex.toNat + 1 = 2 ^ 64) ∧
  match scroll.strategy with
  | .nearest => True
  | .bottom => scroll.offset = 0 ∨ list.targetRow scroll.itemIndex + 1 = list.itemCount ∨
      list.rows (list.targetRow scroll.itemIndex + 1 + scroll.offset) ≤ list.listHeight ∨
      list.contentHeight ≤ list.listHeight ∨
      scroll.scrollStrict = false ∧
        (list.InShrunkViewport .bottom scroll.offset (list.targetRow scroll.itemIndex)
            scrollOffset ∨
          ¬ list.isAbove scroll.offset (list.targetRow scroll.itemIndex) scrollOffset ∧
          ¬ list.isBelow (list.targetRow scroll.itemIndex) scrollOffset ∧
            max (list.contentHeight - list.listHeight) 0 ≤ -scrollOffset)
  | strategy => (list.yFlipped = true ∨ scroll.itemIndex.toNat < list.itemCount) ∨
      list.rows (scroll.offset + 1) ≤ list.listHeight ∨
      list.documentedTop strategy scroll.offset scroll.itemIndex.toNat ≤ 0 ∨
      list.contentHeight ≤ list.listHeight

theorem strictMono_top : StrictMono (list.documentedTop .top offset) := by
  intro row row' hrow
  have := list.rows_lt_iff.mpr hrow
  change list.rows row - list.rows offset < list.rows row' - list.rows offset
  linarith

theorem strictMono_center : StrictMono (list.documentedTop .center offset) := by
  intro row row' hrow
  have := list.rows_lt_iff.mpr hrow
  change list.centerTarget offset row < list.centerTarget offset row'
  unfold centerTarget
  dsimp only
  linarith

omit [IsStrictOrderedRing K] in
theorem scrollToRow_eq {strategy : ScrollStrategy} (hstrategy : strategy ≠ .nearest)
    (offset : ℕ) (scrollStrict : Bool) (row : ℕ) (scrollOffset : K) :
    list.scrollToRow strategy offset scrollStrict row scrollOffset =
      if scrollStrict = true ∨ list.isAbove offset row scrollOffset ∨
        list.isBelow row scrollOffset
      then list.scrollTo strategy offset row scrollOffset else scrollOffset := by
  unfold scrollToRow
  simp only [hstrategy, if_false]

theorem landsDocumented_of_admits {scroll : DeferredScrollToItem} (hcount : 0 < list.itemCount)
    (hadmits : list.Admits scrollOffset) :
    list.LandsDocumented scroll scrollOffset ↔ list.Landable scroll scrollOffset := by
  obtain ⟨itemIndex, strategy, offset, scrollStrict⟩ := scroll
  have hcontent : list.contentHeight = list.rows (list.itemCount - 1) + list.itemHeight := by
    rw [← rows_succ, Nat.sub_add_cancel hcount]
    rfl
  unfold LandsDocumented Landable deferredScroll
  cases hindex : list.rowIndex itemIndex with
  | none =>
    have := (list.rowIndex_eq_none_iff itemIndex).mp hindex
    simp [this]
  | some row =>
    have hfits : ¬ (list.yFlipped = true ∧ itemIndex.toNat + 1 = 2 ^ 64) := by
      rw [← rowIndex_eq_none_iff, hindex]
      simp
    obtain ⟨htarget, hrow⟩ := list.rowIndex_spec hcount hindex
    have hpast : row = list.targetRow itemIndex ∨
        list.itemCount ≤ row ∧ list.targetRow itemIndex + 1 = list.itemCount := by
      rcases hrow with ⟨-, h⟩ | ⟨-, -, h⟩
      · exact .inl h
      · exact .inr h
    have hlands := list.scrollToRow_admits strategy offset scrollStrict row hadmits
    have hvisible : list.rows (offset + 1) ≤ list.listHeight →
        -list.scrollToRow strategy offset scrollStrict row scrollOffset ≤
            list.rows (list.targetRow itemIndex) ∧
          list.rows (list.targetRow itemIndex) + list.itemHeight ≤
            -list.scrollToRow strategy offset scrollStrict row scrollOffset + list.listHeight :=
      list.scrollToRow_visible strategy scrollStrict hadmits htarget hpast
    simp only [Option.map_some, Option.some.injEq, exists_eq_left', hlands, hfits,
      not_false_eq_true, true_and]
    rw [and_iff_right hvisible]
    -- an aim that puts rows below the offset
    have hbelow : ∀ aim : ℕ → K, StrictMono aim →
        (list.contentHeight - list.listHeight ≤ aim (list.itemCount - 1) ↔
          list.rows (offset + 1) ≤ list.listHeight) →
        ((scrollStrict = true ∨
            ¬ (-scrollOffset + list.rows offset ≤ list.rows (list.targetRow itemIndex) ∧
              list.rows (list.targetRow itemIndex) + list.itemHeight ≤
                -scrollOffset + list.listHeight) →
          (if scrollStrict = true ∨ list.isAbove offset row scrollOffset ∨
              list.isBelow row scrollOffset
            then -list.clampScrollTop (aim row) else scrollOffset) =
            -list.clampScrollTop (aim (list.targetRow itemIndex))) ↔
          (list.yFlipped = true ∨ itemIndex.toNat < list.itemCount) ∨
            list.rows (offset + 1) ≤ list.listHeight ∨ aim itemIndex.toNat ≤ 0 ∨
            list.contentHeight ≤ list.listHeight) := by
      intro aim hmono haim
      rcases hrow with ⟨hitem, rfl⟩ | ⟨hitem, rfl, hend⟩
      · rw [list.placed_below_iff hmono haim hadmits (.inl rfl)]
        simp [hitem]
      · have hne : itemIndex.toNat ≠ list.targetRow itemIndex := by omega
        rw [list.placed_below_iff hmono haim hadmits (.inr ⟨hne, hend⟩)]
        simp [hitem, hne]
    cases strategy with
    | nearest => simp
    | top =>
      rw [list.scrollToRow_eq (by simp)]
      simp only [ne_eq, reduceCtorEq, not_false_eq_true, true_implies]
      apply hbelow _ (list.strictMono_top offset)
      unfold documentedTop
      rw [rows_succ]
      constructor <;> intro h <;> linarith
    | center =>
      rw [list.scrollToRow_eq (by simp)]
      simp only [ne_eq, reduceCtorEq, not_false_eq_true, true_implies]
      apply hbelow _ (list.strictMono_center offset)
      unfold documentedTop centerTarget
      rw [rows_succ]
      dsimp only
      constructor <;> intro h <;> linarith
    | bottom =>
      rw [list.scrollToRow_eq (by simp)]
      simp only [ne_eq, reduceCtorEq, not_false_eq_true, true_implies]
      exact list.placed_bottom_iff hadmits htarget hpast

/-- A scroll from any offset lands where it is documented to just when it is landable from what that
offset is clamped to. -/
theorem landsDocumented_iff [FloorRing K] (hcount : 0 < list.itemCount)
    (scroll : DeferredScrollToItem) (scrollOffset : K) :
    list.LandsDocumented scroll (list.clampedOffset scrollOffset) ↔
      list.Landable scroll (list.clampedOffset scrollOffset) :=
  list.landsDocumented_of_admits hcount (list.clampedOffset_admits scrollOffset)

end Order

def tenRows : UniformList ℚ where
  boundsTop := 0
  boundsHeight := 100
  borderTop := 0
  borderBottom := 0
  paddingTop := 0
  paddingBottom := 0
  itemHeight := 30
  itemCount := 10
  yFlipped := false
  borderVisible := false
  overflowX := .visible
  overflowY := .scroll
  borderTop_nonneg := bottomPadded.borderTop_nonneg
  borderBottom_nonneg := bottomPadded.borderBottom_nonneg
  paddingTop_nonneg := bottomPadded.paddingTop_nonneg
  paddingBottom_nonneg := bottomPadded.paddingTop_nonneg
  itemHeight_pos := bottomPadded.itemHeight_pos

/-- A row is left above the sixth. -/
theorem landsDocumented_tenRows :
    tenRows.LandsDocumented ⟨5, .top, 1, false⟩ (tenRows.clampedOffset 0) :=
  (landsDocumented_iff tenRows (by decide) ⟨5, .top, 1, false⟩ 0).mpr
    ⟨by simp [tenRows], .inl (.inr (by decide))⟩

/-- No row is left below the sixth, where one is to be. -/
theorem not_landsDocumented_tenRows :
    ¬ ∀ (list : UniformList ℚ) (scroll : DeferredScrollToItem) (scrollOffset : ℚ),
      0 < list.itemCount → list.LandsDocumented scroll (list.clampedOffset scrollOffset) := by
  intro hall
  obtain ⟨landed, hlanded, -, -, hplaced⟩ :=
    hall tenRows ⟨5, .bottom, 1, true⟩ 0 (by decide)
  have hdocumented : landed = -tenRows.clampScrollTop (tenRows.documentedTop .bottom 1 5) :=
    hplaced (by simp) (.inl rfl)
  have hcode : landed = tenRows.scrollTo .bottom 1 5 (tenRows.clampedOffset 0) := by
    have hrow : tenRows.rowIndex 5 = some 5 := by decide
    simp only [deferredScroll, hrow, Option.map_some, Option.some.injEq] at hlanded
    rw [← hlanded, scrollToRow_eq _ (by simp), if_pos (.inl rfl)]
  rw [hcode] at hdocumented
  norm_num [scrollTo, clampScrollTop, documentedTop, contentHeight, listHeight, rows, tenRows]
    at hdocumented

end UniformList

end GpuiFast
