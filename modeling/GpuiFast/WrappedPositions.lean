import GpuiFast.LinePositions
import GpuiFast.WrapRows

/-! Which index is at a position of a wrapped line, and the position of an index. An index is found
again at its position exactly when the glyphs end before the width, those at the row starts apart,
and the first row starts at zero. -/

namespace GpuiFast

open List Option LineLayout

variable {K : Type*} [Field K]

def LineLayout.glyphAt (layout : LineLayout K) (boundary : WrapBoundary) : ShapedGlyph K :=
  (layout.runs.getD boundary.runIx ⟨0, []⟩).glyphs.getD boundary.glyphIx ⟨0, ⟨0, 0⟩, 0, false⟩

namespace WrappedLineLayout

def boundaryGlyphs (line : WrappedLineLayout K) : List (ShapedGlyph K) :=
  line.wrapBoundaries.map line.unwrappedLayout.glyphAt

def positionFrom (layout : LineLayout K) (index : ℕ) (lineHeight : K) :
    ℕ → ℕ → List ℕ → Option (Point K)
  | _, _, [] => none
  | row, startIndex, endIndex :: ends =>
    if index < startIndex then none
    else if endIndex < index then positionFrom layout index lineHeight (row + 1) endIndex ends
    else some ⟨layout.xForIndex index - layout.xForIndex startIndex, row * lineHeight⟩

def positionForIndex (line : WrappedLineLayout K) (index : ℕ) (lineHeight : K) : Option (Point K) :=
  positionFrom line.unwrappedLayout index lineHeight 0 0
    (line.boundaryGlyphs.map (·.index) ++ [line.unwrappedLayout.len])

end WrappedLineLayout

theorem LineLayout.map_glyphAt_placedGlyphs (layout : LineLayout K) :
    (layout.placedGlyphs.map (·.boundary)).map layout.glyphAt = layout.glyphs := by
  have hrun : ∀ run ∈ layout.runs.zipIdx,
      run.1.glyphs.zipIdx.map (fun glyph => layout.glyphAt ⟨run.2, glyph.2⟩) = run.1.glyphs := by
    intro run hrun
    have hglyph : ∀ glyph ∈ run.1.glyphs.zipIdx, layout.glyphAt ⟨run.2, glyph.2⟩ = glyph.1 := by
      intro glyph hglyph
      have hlook := mem_zipIdx_iff_getElem?.mp hrun
      have hlook' := mem_zipIdx_iff_getElem?.mp hglyph
      simp [glyphAt, List.getD, hlook, hlook']
    rw [map_congr_left hglyph]
    simp
  have hruns : layout.runs = layout.runs.zipIdx.map Prod.fst := by simp
  rw [placedGlyphs, map_flatMap, map_flatMap, glyphs]
  conv_rhs => rw [hruns, flatMap_map]
  simp only [List.map_map, Function.comp_def]
  exact flatMap_congr hrun

namespace WrappedLineLayout

variable {line : WrappedLineLayout K}

theorem boundaryGlyphs_sublist
    (hwrap : line.wrapBoundaries.Sublist (line.unwrappedLayout.placedGlyphs.map (·.boundary))) :
    line.boundaryGlyphs.Sublist line.unwrappedLayout.glyphs := by
  rw [← line.unwrappedLayout.map_glyphAt_placedGlyphs]
  exact hwrap.map _

variable {layout : LineLayout K} {index : ℕ} {stop : Option (ShapedGlyph K)} {place : K}

variable {lineHeight : K} {g : ShapedGlyph K}

theorem positionFrom_append {before : List ℕ} {stop : ℕ} {after : List ℕ}
    (hbefore : ∀ b ∈ before, b < index) (hstop : index ≤ stop) (row startIndex : ℕ)
    (hstart : startIndex ≤ index) :
    positionFrom layout index lineHeight row startIndex (before ++ stop :: after) =
      some ⟨layout.xForIndex index - layout.xForIndex (before.getLast?.getD startIndex),
        (row + before.length : ℕ) * lineHeight⟩ := by
  induction before generalizing row startIndex with
  | nil =>
    rw [nil_append, positionFrom, if_neg (not_lt.mpr hstart), if_neg (not_lt.mpr hstop)]
    simp
  | cons b before ih =>
    have hb := hbefore b (by simp)
    rw [cons_append, positionFrom, if_neg (not_lt.mpr hstart), if_pos hb,
      ih (fun c hc => hbefore c (by simp [hc])) (row + 1) b hb.le]
    have hlast : before.getLast?.getD b = (b :: before).getLast?.getD startIndex := by
      rw [getLast?_cons]
      rfl
    have hrow : row + 1 + before.length = row + (b :: before).length := by
      rw [length_cons]
      omega
    rw [hlast, hrow]

variable [LinearOrder K]

/-- Looks for a place in a row, given the glyphs the row starts with and ends before. -/
def indexInRow (layout : LineLayout K) (start stop : Option (ShapedGlyph K)) (x : K)
    (closest : Bool) : Except ℕ ℕ :=
  let startIndex := (start.map (·.index)).getD 0
  let startX := (start.map (·.position.x)).getD 0
  let endIndex := (stop.map (·.index)).getD layout.len
  let endX := (stop.map (·.position.x)).getD layout.width
  let x := x + startX
  if x < startX then .error startIndex
  else if endX ≤ x then .error endIndex
  else if closest then .ok (layout.closestIndexForX x)
  else
    match layout.indexForX x with
    | some index => .ok index
    -- a boundary glyph can stand past the width
    | none => .error endIndex

def indexForPositionBy [FloorSemiring K] (line : WrappedLineLayout K) (position : Point K)
    (lineHeight : K) (closest : Bool) : Except ℕ ℕ :=
  let row := ⌊position.y / lineHeight⌋₊
  let stop := line.boundaryGlyphs[row]?
  if 0 < row then
    match line.boundaryGlyphs[row - 1]? with
    | some start => indexInRow line.unwrappedLayout (some start) stop position.x closest
    | none => .error 0
  else indexInRow line.unwrappedLayout none stop position.x closest

def indexForPosition [FloorSemiring K] (line : WrappedLineLayout K) (position : Point K)
    (lineHeight : K) : Except ℕ ℕ :=
  line.indexForPositionBy position lineHeight false

def closestIndexForPosition [FloorSemiring K] (line : WrappedLineLayout K) (position : Point K)
    (lineHeight : K) : Except ℕ ℕ :=
  line.indexForPositionBy position lineHeight true

def Returns [FloorSemiring K] (line : WrappedLineLayout K) (lineHeight : K) (index : ℕ) : Prop :=
  ∃ position, line.positionForIndex index lineHeight = some position ∧
    (line.indexForPosition position lineHeight = .ok index ∨
      line.indexForPosition position lineHeight = .error index)

def Finds (layout : LineLayout K) (start stop : Option (ShapedGlyph K)) (x : K) (index : ℕ) :
    Prop :=
  indexInRow layout start stop x false = .ok index ∨
    indexInRow layout start stop x false = .error index

theorem returns_iff [IsStrictOrderedRing K] [FloorSemiring K] (h : line.unwrappedLayout.Increasing)
    (hwrap : line.boundaryGlyphs.Sublist line.unwrappedLayout.glyphs) (hheight : 0 < lineHeight)
    {before after : List (ShapedGlyph K)} (hsplit : line.boundaryGlyphs = before ++ after)
    (hbefore : ∀ b ∈ before, b.index < index) (hafter : ∀ b ∈ after, index ≤ b.index)
    (hindex : index ≤ line.unwrappedLayout.len) :
    line.Returns lineHeight index ↔ Finds line.unwrappedLayout before.getLast? after.head?
      (line.unwrappedLayout.xForIndex index -
        (before.getLast?.map (·.position.x)).getD (line.unwrappedLayout.xForIndex 0)) index := by
  have hstart : line.unwrappedLayout.xForIndex (((before.map (·.index)).getLast?).getD 0) =
      (before.getLast?.map (·.position.x)).getD (line.unwrappedLayout.xForIndex 0) := by
    rw [getLast?_map]
    cases hlast : before.getLast? with
    | none => rfl
    | some start =>
      have hmem : start ∈ line.boundaryGlyphs := by
        rw [hsplit]
        exact mem_append_left _ (mem_of_getLast? hlast)
      exact h.xForIndex_glyph (hwrap.subset hmem)
  have hposition : line.positionForIndex index lineHeight =
      some ⟨line.unwrappedLayout.xForIndex index -
        (before.getLast?.map (·.position.x)).getD (line.unwrappedLayout.xForIndex 0),
        (before.length : K) * lineHeight⟩ := by
    have hbefore' : ∀ b ∈ before.map (·.index), b < index := by simpa using hbefore
    rw [positionForIndex, hsplit, map_append, append_assoc, ← hstart]
    cases after with
    | nil => simpa using positionFrom_append hbefore' hindex 0 0 (Nat.zero_le _)
    | cons b after =>
      simpa using positionFrom_append hbefore' (hafter b (by simp)) 0 0 (Nat.zero_le _)
  have hrow : ⌊(before.length : K) * lineHeight / lineHeight⌋₊ = before.length := by
    rw [mul_div_cancel_right₀ _ hheight.ne']
    exact Nat.floor_natCast _
  have hstop : line.boundaryGlyphs[before.length]? = after.head? := by
    rw [hsplit, getElem?_append_right le_rfl, Nat.sub_self, head?_eq_getElem?]
  have hfound : ∀ x, line.indexForPosition ⟨x, (before.length : K) * lineHeight⟩ lineHeight =
      indexInRow line.unwrappedLayout before.getLast? after.head? x false := by
    intro x
    rw [indexForPosition, indexForPositionBy]
    dsimp only
    rw [hrow, hstop]
    rcases eq_nil_or_concat before with rfl | ⟨init, start, rfl⟩
    · rfl
    · have hlook : line.boundaryGlyphs[(init.concat start).length - 1]? = some start := by
        rw [hsplit]
        simp
      rw [if_pos (by simp), hlook]
      simp
  simp only [Returns, hposition, some.injEq, exists_eq_left', hfound, Finds]

theorem finds_iff [IsStrictOrderedRing K] {start : Option (ShapedGlyph K)} {x : K} (hx : 0 ≤ x)
    (hplace : x + (start.map (·.position.x)).getD 0 = place) :
    Finds layout start stop x index ↔
      if (stop.map (·.position.x)).getD layout.width ≤ place ∨ layout.width ≤ place then
        (stop.map (·.index)).getD layout.len = index
      else layout.indexForX place = some index := by
  subst hplace
  dsimp only [Finds, indexInRow]
  rw [if_neg (by linarith)]
  by_cases hend : (stop.map (·.position.x)).getD layout.width ≤
      x + (start.map (·.position.x)).getD 0
  · rw [if_pos hend, if_pos (.inl hend)]
    simp
  · rw [if_neg hend, if_neg (by simp)]
    by_cases hwidth : layout.width ≤ x + (start.map (·.position.x)).getD 0
    · rw [if_pos (.inr hwidth), indexForX, if_pos hwidth]
      simp
    · rw [if_neg (not_or.mpr ⟨hend, hwidth⟩), indexForX, if_neg hwidth]
      simp

theorem finds_later_iff [IsStrictOrderedRing K] {start : ShapedGlyph K}
    (hplace : start.position.x ≤ place) :
    Finds layout (some start) stop (place - start.position.x) index ↔
      if (stop.map (·.position.x)).getD layout.width ≤ place ∨ layout.width ≤ place then
        (stop.map (·.index)).getD layout.len = index
      else layout.indexForX place = some index := by
  apply finds_iff (sub_nonneg.mpr hplace)
  exact sub_add_cancel _ _

theorem finds_first_iff [IsStrictOrderedRing K] (hplace : 0 ≤ place) :
    Finds layout none stop place index ↔
      if (stop.map (·.position.x)).getD layout.width ≤ place ∨ layout.width ≤ place then
        (stop.map (·.index)).getD layout.len = index
      else layout.indexForX place = some index := by
  apply finds_iff hplace
  exact add_zero _

/-- No glyph stands past the width, and one at the width starts a row. The first glyph starts at
zero, or before it by less than any glyph of the first row is wide, unless it starts a row itself.
A line without glyphs has no width or no text. -/
structure CaretsReturn (line : WrappedLineLayout K) : Prop where
  empty : line.unwrappedLayout.glyphs = [] →
    line.unwrappedLayout.width ≤ 0 ∨ line.unwrappedLayout.len = 0
  within : ∀ g ∈ line.unwrappedLayout.glyphs, g.position.x < line.unwrappedLayout.width ∨
    (g.position.x = line.unwrappedLayout.width ∧ g ∈ line.boundaryGlyphs)
  wrappedFirst : ∀ first ∈ line.unwrappedLayout.glyphs.head?, first ∈ line.boundaryGlyphs →
    first.position.x ≤ 0 ∨ first.index = 0
  firstRow : ∀ first ∈ line.unwrappedLayout.glyphs.head?, first ∉ line.boundaryGlyphs →
    first.position.x ≤ 0 ∧
      ∀ g ∈ line.unwrappedLayout.glyphs, (∀ b ∈ line.boundaryGlyphs, g.index < b.index) →
        g.position.x - first.position.x < line.unwrappedLayout.width ∧
          ∀ a ∈ line.unwrappedLayout.glyphs, g.index < a.index →
            g.position.x - first.position.x < a.position.x

theorem CaretsReturn.le_width (hline : line.CaretsReturn) (hg : g ∈ line.unwrappedLayout.glyphs) :
    g.position.x ≤ line.unwrappedLayout.width := by
  rcases hline.within g hg with hlt | heq
  · exact hlt.le
  · exact heq.1.le

theorem row_cases (h : line.unwrappedLayout.Increasing)
    (hwrap : line.boundaryGlyphs.Sublist line.unwrappedLayout.glyphs)
    (hg : g ∈ line.unwrappedLayout.glyphs) :
    (g ∉ line.boundaryGlyphs ∧ ∃ before b after, line.boundaryGlyphs = before ++ b :: after ∧
        (∀ c ∈ before ++ [b], c.index < g.index) ∧ ∀ c ∈ after, g.index < c.index) ∨
      (∃ before b after, line.boundaryGlyphs = before ++ b :: g :: after ∧
        (∀ c ∈ before ++ [b], c.index < g.index) ∧ ∀ c ∈ after, g.index < c.index) ∨
      (g ∉ line.boundaryGlyphs ∧ ∀ c ∈ line.boundaryGlyphs, g.index < c.index) ∨
      (∃ after, line.boundaryGlyphs = g :: after) := by
  have hsorted := h.index.sublist hwrap
  obtain ⟨before, after, hsplit, hbefore, hafter⟩ :=
    exists_split_of_sorted (fun b : ShapedGlyph K => b.index) hsorted g.index
  by_cases hmem : g ∈ line.boundaryGlyphs
  · -- a boundary glyph is the first of those from it on
    obtain ⟨after, rfl⟩ : ∃ rest, after = g :: rest := by
      rw [hsplit, mem_append] at hmem
      have hmem' := hmem.resolve_left (fun hin => lt_irrefl _ (hbefore g hin))
      rw [hsplit, pairwise_append] at hsorted
      cases after with
      | nil => simp at hmem'
      | cons a after =>
        rcases mem_cons.mp hmem' with rfl | hin
        · exact ⟨after, rfl⟩
        · have hlt := (pairwise_cons.mp hsorted.2.1).1 g hin
          have hle := hafter a (by simp)
          omega
    rcases eq_nil_or_concat before with rfl | ⟨before, b, rfl⟩
    · exact .inr (.inr (.inr ⟨after, hsplit⟩))
    · rw [concat_eq_append] at hsplit hbefore
      refine .inr (.inl ⟨before, b, after, by simpa using hsplit, hbefore, ?_⟩)
      rw [hsplit, pairwise_append, pairwise_cons] at hsorted
      exact hsorted.2.1.1
  · have hafter' : ∀ c ∈ after, g.index < c.index := by
      intro c hc
      have hin : c ∈ line.boundaryGlyphs := by simp [hsplit, hc]
      refine lt_of_le_of_ne (hafter c hc) ?_
      intro heq
      rw [h.eq_of_index_eq hg (hwrap.subset hin) heq] at hmem
      exact hmem hin
    rcases eq_nil_or_concat before with rfl | ⟨before, b, rfl⟩
    · rw [nil_append] at hsplit
      rw [hsplit] at hmem ⊢
      exact .inr (.inr (.inl ⟨hmem, hafter'⟩))
    · rw [concat_eq_append] at hsplit hbefore
      exact .inl ⟨hmem, before, b, after, by simpa using hsplit, hbefore, hafter'⟩

section Rows

variable [IsStrictOrderedRing K] [FloorSemiring K] {lineHeight : K}
  {before after : List (ShapedGlyph K)} {g b first : ShapedGlyph K}

section

variable (h : line.unwrappedLayout.Increasing)
  (hwrap : line.boundaryGlyphs.Sublist line.unwrappedLayout.glyphs) (hheight : 0 < lineHeight)
include h hwrap hheight

theorem returns_later_iff (hsplit : line.boundaryGlyphs = before ++ b :: after)
    (hg : g ∈ line.unwrappedLayout.glyphs) (hbefore : ∀ c ∈ before ++ [b], c.index < g.index)
    (hafter : ∀ c ∈ after, g.index < c.index) :
    line.Returns lineHeight g.index ↔ g.position.x < line.unwrappedLayout.width := by
  have hsplit' : line.boundaryGlyphs = (before ++ [b]) ++ after := by simp [hsplit]
  have hb : b ∈ line.unwrappedLayout.glyphs := hwrap.subset (by simp [hsplit])
  have hbg := (h.x_lt_iff hb hg).mpr (hbefore b (by simp))
  rw [returns_iff h hwrap hheight hsplit' hbefore (fun c hc => (hafter c hc).le)
    (h.index_lt g hg).le, h.xForIndex_glyph hg, getLast?_concat, map_some,
    getD_some, finds_later_iff hbg.le]
  by_cases hwidth : g.position.x < line.unwrappedLayout.width
  · have hend : g.position.x <
        (after.head?.map (·.position.x)).getD line.unwrappedLayout.width := by
      cases after with
      | nil => exact hwidth
      | cons c after =>
        have hc : c ∈ line.unwrappedLayout.glyphs := hwrap.subset (by simp [hsplit])
        exact (h.x_lt_iff hg hc).mpr (hafter c (by simp))
    rw [if_neg (not_or.mpr ⟨not_le.mpr hend, not_le.mpr hwidth⟩),
      h.indexForX_eq_glyph_iff hwidth hg]
    refine iff_of_true (.inl ⟨le_rfl, ?_⟩) hwidth
    intro a ha hlt
    exact (h.x_lt_iff hg ha).mpr hlt
  · rw [if_pos (.inr (not_lt.mp hwidth))]
    exact iff_of_false (h.stop_ne hg hafter) hwidth

theorem returns_boundary (hsplit : line.boundaryGlyphs = before ++ b :: g :: after)
    (hbefore : ∀ c ∈ before ++ [b], c.index < g.index) (hafter : ∀ c ∈ after, g.index < c.index) :
    line.Returns lineHeight g.index := by
  have hsplit' : line.boundaryGlyphs = (before ++ [b]) ++ g :: after := by simp [hsplit]
  have hb : b ∈ line.unwrappedLayout.glyphs := hwrap.subset (by simp [hsplit])
  have hg : g ∈ line.unwrappedLayout.glyphs := hwrap.subset (by simp [hsplit])
  have hbg := (h.x_lt_iff hb hg).mpr (hbefore b (by simp))
  have hafter' : ∀ c ∈ g :: after, g.index ≤ c.index := by
    intro c hc
    rcases mem_cons.mp hc with rfl | hc
    · exact le_rfl
    · exact (hafter c hc).le
  rw [returns_iff h hwrap hheight hsplit' hbefore hafter' (h.index_lt g hg).le,
    h.xForIndex_glyph hg, getLast?_concat, map_some, getD_some, finds_later_iff hbg.le, head?_cons,
    map_some, getD_some, if_pos (.inl le_rfl)]
  rfl

theorem returns_len_iff (hsplit : line.boundaryGlyphs = before ++ [b]) :
    line.Returns lineHeight line.unwrappedLayout.len ↔
      b.position.x ≤ line.unwrappedLayout.width := by
  have hsplit' : line.boundaryGlyphs = (before ++ [b]) ++ [] := by simp [hsplit]
  have hb : b ∈ line.unwrappedLayout.glyphs := hwrap.subset (by simp [hsplit])
  have hbefore : ∀ c ∈ before ++ [b], c.index < line.unwrappedLayout.len := by
    intro c hc
    exact h.index_lt c (hwrap.subset (hsplit ▸ hc))
  rw [returns_iff h hwrap hheight hsplit' hbefore (by simp) le_rfl, h.xForIndex_len,
    getLast?_concat, map_some, getD_some]
  by_cases hle : b.position.x ≤ line.unwrappedLayout.width
  · rw [finds_later_iff hle, if_pos (.inr le_rfl)]
    exact iff_of_true rfl hle
  · dsimp only [Finds, indexInRow, map_some, getD_some]
    rw [if_pos (by linarith)]
    refine iff_of_false ?_ hle
    have hlt := h.index_lt b hb
    simpa using hlt.ne

theorem returns_first_iff (hfirst : first ∈ line.unwrappedLayout.glyphs.head?) {index : ℕ}
    (hindex : index ≤ line.unwrappedLayout.len)
    (hafter : ∀ b ∈ line.boundaryGlyphs, index ≤ b.index)
    (hx : first.position.x ≤ line.unwrappedLayout.xForIndex index) :
    line.Returns lineHeight index ↔
      if (line.boundaryGlyphs.head?.map (·.position.x)).getD line.unwrappedLayout.width ≤
            line.unwrappedLayout.xForIndex index - first.position.x ∨
          line.unwrappedLayout.width ≤
            line.unwrappedLayout.xForIndex index - first.position.x then
        (line.boundaryGlyphs.head?.map (·.index)).getD line.unwrappedLayout.len = index
      else line.unwrappedLayout.indexForX
        (line.unwrappedLayout.xForIndex index - first.position.x) = some index := by
  have hzero := xForIndex_zero hfirst
  rw [returns_iff h hwrap hheight (nil_append _).symm (by simp) hafter hindex,
    ← finds_first_iff (sub_nonneg.mpr hx), ← hzero]
  rfl

theorem returns_firstRow_iff (hfirst : first ∈ line.unwrappedLayout.glyphs.head?)
    (hzero : first.position.x ≤ 0) (hg : g ∈ line.unwrappedLayout.glyphs)
    (hafter : ∀ b ∈ line.boundaryGlyphs, g.index < b.index) :
    line.Returns lineHeight g.index ↔
      g.position.x - first.position.x < line.unwrappedLayout.width ∧
        ∀ a ∈ line.unwrappedLayout.glyphs, g.index < a.index →
          g.position.x - first.position.x < a.position.x := by
  have hx := (h.head_le hfirst hg).2
  rw [returns_first_iff h hwrap hheight hfirst (h.index_lt g hg).le (fun b hb => (hafter b hb).le)
    (by rw [h.xForIndex_glyph hg]; exact hx), h.xForIndex_glyph hg]
  split
  next hpast =>
    refine iff_of_false (h.stop_ne hg hafter) ?_
    rintro ⟨hwidth, hlater⟩
    rcases hpast with hend | hend
    · cases hhead : line.boundaryGlyphs.head? with
      | none =>
        rw [hhead] at hend
        exact absurd hwidth (not_lt.mpr hend)
      | some e =>
        rw [hhead] at hend
        have he : e ∈ line.boundaryGlyphs := mem_of_mem_head? hhead
        exact absurd (hlater e (hwrap.subset he) (hafter e he)) (not_lt.mpr hend)
    · exact absurd hwidth (not_lt.mpr hend)
  next hinside =>
    rw [not_or, not_le, not_le] at hinside
    rw [h.indexForX_eq_glyph_iff hinside.2 hg, and_iff_right hinside.2]
    constructor
    · rintro (⟨-, hlater⟩ | ⟨-, hall⟩)
      · exact hlater
      · intro a ha _
        exact hall a ha
    · intro hlater
      exact .inl ⟨by linarith, hlater⟩

theorem returns_firstEnd (hfirst : first ∈ line.unwrappedLayout.glyphs.head?)
    (hsplit : line.boundaryGlyphs = g :: after) :
    line.Returns lineHeight g.index ↔
      (first.position.x ≤ 0 ∨ line.unwrappedLayout.width ≤ g.position.x - first.position.x) ∨
      line.unwrappedLayout.indexForX (g.position.x - first.position.x) = some g.index := by
  have hg : g ∈ line.unwrappedLayout.glyphs := hwrap.subset (by simp [hsplit])
  have hx := (h.head_le hfirst hg).2
  have hafter : ∀ b ∈ line.boundaryGlyphs, g.index ≤ b.index := by
    have hsorted := h.index.sublist hwrap
    rw [hsplit, pairwise_cons] at hsorted
    rw [hsplit]
    intro b hb
    rcases mem_cons.mp hb with rfl | hb
    · exact le_rfl
    · exact (hsorted.1 b hb).le
  rw [returns_first_iff h hwrap hheight hfirst (h.index_lt g hg).le hafter
    (by rw [h.xForIndex_glyph hg]; exact hx), h.xForIndex_glyph hg, hsplit, head?_cons,
    map_some, getD_some]
  split
  next hpast =>
    rw [le_sub_self_iff] at hpast
    exact iff_of_true rfl (.inl hpast)
  next hinside =>
    rw [le_sub_self_iff] at hinside
    rw [or_iff_right hinside]

end

theorem returns_len_unwrapped (h : line.unwrappedLayout.Increasing)
    (hheight : 0 < lineHeight) (hsplit : line.boundaryGlyphs = [])
    (hfirst : first ∈ line.unwrappedLayout.glyphs.head?) :
    line.Returns lineHeight line.unwrappedLayout.len ↔
      first.position.x ≤ 0 ∧ first.position.x ≤ line.unwrappedLayout.width := by
  have hmem : first ∈ line.unwrappedLayout.glyphs := mem_of_mem_head? hfirst
  have hwrap : line.boundaryGlyphs.Sublist line.unwrappedLayout.glyphs := by simp [hsplit]
  by_cases hx : first.position.x ≤ line.unwrappedLayout.width
  · rw [and_iff_left hx, returns_first_iff h hwrap hheight hfirst le_rfl (by simp [hsplit])
      (by rw [h.xForIndex_len]; exact hx), h.xForIndex_len, hsplit]
    split
    next hpast =>
      refine iff_of_true rfl ?_
      simpa using hpast
    next hinside =>
      refine iff_of_false (h.indexForX_ne_len (ne_nil_of_mem hmem) _) ?_
      simpa using hinside
  · -- the line ends before its first glyph, and the place is before the row
    have hzero := xForIndex_zero hfirst
    have hsplit' : line.boundaryGlyphs = [] ++ [] := by rw [hsplit, append_nil]
    rw [returns_iff h hwrap hheight hsplit' (by simp) (by simp) le_rfl, h.xForIndex_len]
    dsimp only [Finds, indexInRow, getLast?_nil, map_none, getD_none]
    rw [if_pos (by rw [hzero]; linarith)]
    refine iff_of_false ?_ (fun hle => hx hle.2)
    have hlt := h.index_lt first hmem
    simp
    omega

theorem returns_len_empty (h : line.unwrappedLayout.Increasing)
    (hwrap : line.boundaryGlyphs.Sublist line.unwrappedLayout.glyphs) (hheight : 0 < lineHeight)
    (hempty : line.unwrappedLayout.glyphs = []) :
    line.Returns lineHeight line.unwrappedLayout.len ↔
      line.unwrappedLayout.width ≤ 0 ∨ line.unwrappedLayout.len = 0 := by
  have hsplit : line.boundaryGlyphs = [] ++ [] := by simpa [hempty] using hwrap
  have hzero : line.unwrappedLayout.xForIndex 0 = line.unwrappedLayout.width := by
    simp [xForIndex, hempty]
  rw [returns_iff h hwrap hheight hsplit (by simp) (by simp) le_rfl, h.xForIndex_len,
    getLast?_nil, map_none, getD_none, hzero, sub_self, finds_first_iff le_rfl]
  split
  next hpast =>
    refine iff_of_true rfl (.inl ?_)
    simpa using hpast
  next hinside =>
    have hwidth : ¬ line.unwrappedLayout.width ≤ 0 := (not_or.mp hinside).2
    rw [indexForX, if_neg hwidth, hempty, or_iff_right hwidth]
    simp [eq_comm]

theorem CaretsReturn.returns (hline : line.CaretsReturn) (h : line.unwrappedLayout.Increasing)
    (hwrap : line.boundaryGlyphs.Sublist line.unwrappedLayout.glyphs) (hheight : 0 < lineHeight)
    {index : ℕ} (hindex : line.unwrappedLayout.Stop index) : line.Returns lineHeight index := by
  cases hhead : line.unwrappedLayout.glyphs.head? with
  | none =>
    have hempty := head?_eq_none_iff.mp hhead
    rcases hindex with ⟨g, hg, -⟩ | rfl
    · simp [hempty] at hg
    · exact (returns_len_empty h hwrap hheight hempty).mpr (hline.empty hempty)
  | some first =>
    have hfirst : first ∈ line.unwrappedLayout.glyphs := mem_of_mem_head? hhead
    rcases hindex with ⟨g, hg, rfl⟩ | rfl
    · rcases row_cases h hwrap hg with ⟨hmem, before, b, after, hsplit, hbefore, hafter⟩ |
        ⟨before, b, after, hsplit, hbefore, hafter⟩ | ⟨hmem, hafter⟩ | ⟨after, hsplit⟩
      · have hlt := (hline.within g hg).resolve_right (fun hat => hmem hat.2)
        exact (returns_later_iff h hwrap hheight hsplit hg hbefore hafter).mpr hlt
      · exact returns_boundary h hwrap hheight hsplit hbefore hafter
      · have hnot : first ∉ line.boundaryGlyphs := by
          intro hin
          have hlt := hafter first hin
          have hle := (h.head_le hhead hg).1
          omega
        obtain ⟨hzero, hrow⟩ := hline.firstRow first hhead hnot
        exact (returns_firstRow_iff h hwrap hheight hhead hzero hg hafter).mpr (hrow g hg hafter)
      · rw [returns_firstEnd h hwrap hheight hhead hsplit]
        by_cases hpast : first.position.x ≤ 0 ∨
            line.unwrappedLayout.width ≤ g.position.x - first.position.x
        · exact .inl hpast
        · -- only a first glyph that starts a row itself can be past zero
          rw [not_or, not_le, not_le] at hpast
          have hmem : first ∈ line.boundaryGlyphs := by
            by_contra hnot
            exact absurd (hline.firstRow first hhead hnot).1 (not_le.mpr hpast.1)
          have hindex := (hline.wrappedFirst first hhead hmem).resolve_left (not_le.mpr hpast.1)
          have hsame : g.index = 0 := by
            have hsorted := h.index.sublist hwrap
            rw [hsplit, pairwise_cons] at hsorted
            rw [hsplit, mem_cons] at hmem
            rcases hmem with rfl | hin
            · exact hindex
            · have hlt := hsorted.1 first hin
              omega
          obtain rfl : first = g := h.eq_of_index_eq hfirst hg (hindex.trans hsame.symm)
          right
          rw [h.indexForX_eq_glyph_iff hpast.2 hg, sub_self]
          refine .inr ⟨hsame, ?_⟩
          intro a ha
          exact hpast.1.trans_le (h.head_le hhead ha).2
    · rcases eq_nil_or_concat line.boundaryGlyphs with hsplit | ⟨before, b, hsplit⟩
      · rw [returns_len_unwrapped h hheight hsplit hhead]
        refine ⟨(hline.firstRow first hhead (by simp [hsplit])).1, ?_⟩
        exact hline.le_width hfirst
      · rw [concat_eq_append] at hsplit
        rw [returns_len_iff h hwrap hheight hsplit]
        exact hline.le_width (hwrap.subset (by simp [hsplit]))

section

variable (h : line.unwrappedLayout.Increasing)
  (hwrap : line.boundaryGlyphs.Sublist line.unwrappedLayout.glyphs) (hheight : 0 < lineHeight)
include h hwrap hheight

theorem boundary_le_width (hlen : line.Returns lineHeight line.unwrappedLayout.len)
    (hb : b ∈ line.boundaryGlyphs) : b.position.x ≤ line.unwrappedLayout.width := by
  rcases eq_nil_or_concat line.boundaryGlyphs with hsplit | ⟨before, last, hsplit⟩
  · simp [hsplit] at hb
  · rw [concat_eq_append] at hsplit
    have hlast := (returns_len_iff h hwrap hheight hsplit).mp hlen
    have hsorted := h.x.sublist hwrap
    rw [hsplit, pairwise_append] at hsorted
    rw [hsplit, mem_append, mem_singleton] at hb
    rcases hb with hb | rfl
    · exact (hsorted.2.2 b hb last (by simp)).le.trans hlast
    · exact hlast

theorem first_le_zero (hfirst : first ∈ line.unwrappedLayout.glyphs.head?)
    (hnot : first ∉ line.boundaryGlyphs)
    (hreturns : ∀ index, line.unwrappedLayout.Stop index → line.Returns lineHeight index) :
    first.position.x ≤ 0 := by
  by_contra hzero
  rw [not_le] at hzero
  obtain ⟨rest, hglyphs⟩ := head?_eq_some_iff.mp hfirst
  cases rest with
  | nil =>
    have hsplit : line.boundaryGlyphs = [] := by
      rw [eq_nil_iff_forall_not_mem]
      intro b hb
      have hin := hwrap.subset hb
      rw [hglyphs, mem_singleton] at hin
      exact hnot (hin ▸ hb)
    have hlen := (returns_len_unwrapped h hheight hsplit hfirst).mp (hreturns _ (.inr rfl))
    exact absurd hlen.1 (not_le.mpr hzero)
  | cons n rest =>
    have hn : n ∈ line.unwrappedLayout.glyphs := by simp [hglyphs]
    have hindexes := h.index
    rw [hglyphs, pairwise_cons, pairwise_cons] at hindexes
    have hlt : first.index < n.index := hindexes.1 n (by simp)
    have hafter : ∀ b ∈ line.boundaryGlyphs, n.index ≤ b.index := by
      intro b hb
      have hin := hwrap.subset hb
      rw [hglyphs, mem_cons, mem_cons] at hin
      rcases hin with rfl | rfl | hin
      · exact absurd hb hnot
      · exact le_rfl
      · exact (hindexes.2.1 b hin).le
    have hx := (h.head_le hfirst hn).2
    have hfound := (returns_first_iff h hwrap hheight hfirst (h.index_lt n hn).le hafter
      (by rw [h.xForIndex_glyph hn]; exact hx)).mp (hreturns _ (.inl ⟨n, hn, rfl⟩))
    rw [h.xForIndex_glyph hn] at hfound
    split at hfound
    next hpast =>
      -- the next glyph ends the row, past the width
      cases hhead : line.boundaryGlyphs.head? with
      | none =>
        rw [hhead] at hfound
        exact (h.index_lt n hn).ne' hfound
      | some e =>
        rw [hhead] at hfound hpast
        have he : e ∈ line.boundaryGlyphs := mem_of_mem_head? hhead
        obtain rfl : e = n := h.eq_of_index_eq (hwrap.subset he) hn hfound
        have hle := boundary_le_width h hwrap hheight (hreturns _ (.inr rfl)) he
        rcases hpast with hpast | hpast
        · have hpast' : e.position.x ≤ e.position.x - first.position.x := hpast
          linarith
        · linarith
    next hinside =>
      rw [not_or, not_le, not_le] at hinside
      rcases (h.indexForX_eq_glyph_iff hinside.2 hn).mp hfound with ⟨hle, -⟩ | ⟨hindex, -⟩
      · linarith
      · omega

theorem caretsReturn_of_returns
    (hreturns : ∀ index, line.unwrappedLayout.Stop index → line.Returns lineHeight index) :
    line.CaretsReturn := by
  have hlen := hreturns _ (.inr rfl)
  have hwithin : ∀ g ∈ line.unwrappedLayout.glyphs,
      g.position.x < line.unwrappedLayout.width ∨
        (g.position.x = line.unwrappedLayout.width ∧ g ∈ line.boundaryGlyphs) := by
    intro g hg
    have hboundary : g ∈ line.boundaryGlyphs → g.position.x < line.unwrappedLayout.width ∨
        (g.position.x = line.unwrappedLayout.width ∧ g ∈ line.boundaryGlyphs) := by
      intro hmem
      rcases (boundary_le_width h hwrap hheight hlen hmem).lt_or_eq with hlt | heq
      · exact .inl hlt
      · exact .inr ⟨heq, hmem⟩
    rcases row_cases h hwrap hg with ⟨-, before, b, after, hsplit, hbefore, hafter⟩ |
      ⟨before, b, after, hsplit, -⟩ | ⟨-, hafter⟩ | ⟨after, hsplit⟩
    · left
      exact (returns_later_iff h hwrap hheight hsplit hg hbefore hafter).mp
        (hreturns _ (.inl ⟨g, hg, rfl⟩))
    · exact hboundary (by simp [hsplit])
    · left
      have hhead := head?_eq_some_head (ne_nil_of_mem hg)
      have hle := h.head_le hhead hg
      have hnot : line.unwrappedLayout.glyphs.head (ne_nil_of_mem hg) ∉
          line.boundaryGlyphs := by
        intro hin
        have hlt := hafter _ hin
        omega
      have hzero := first_le_zero h hwrap hheight hhead hnot hreturns
      have hrow := (returns_firstRow_iff h hwrap hheight hhead hzero hg hafter).mp
        (hreturns _ (.inl ⟨g, hg, rfl⟩))
      linarith [hrow.1]
    · exact hboundary (by simp [hsplit])
  refine ⟨?_, hwithin, ?_, ?_⟩
  · intro hempty
    exact (returns_len_empty h hwrap hheight hempty).mp hlen
  · intro first hfirst hmem
    have hin : first ∈ line.unwrappedLayout.glyphs := mem_of_mem_head? hfirst
    obtain ⟨after, hsplit⟩ : ∃ after, line.boundaryGlyphs = first :: after := by
      rcases row_cases h hwrap hin with ⟨hnot, -⟩ | ⟨before, b, after, hsplit, hbefore, -⟩ |
        ⟨hnot, -⟩ | hsplit
      · exact absurd hmem hnot
      · have hlt := hbefore b (by simp)
        have hle := (h.head_le hfirst (hwrap.subset (by simp [hsplit] : b ∈ _))).1
        omega
      · exact absurd hmem hnot
      · exact hsplit
    have hwidth := boundary_le_width h hwrap hheight hlen hmem
    rw [or_iff_not_imp_left, not_le]
    intro hpos
    have hfound := (returns_firstEnd h hwrap hheight hfirst hsplit).mp
      (hreturns _ (.inl ⟨first, hin, rfl⟩))
    rw [sub_self] at hfound
    rcases hfound with (hle | hle) | hfound
    · exact absurd hle (not_le.mpr hpos)
    · linarith
    · have hlt : 0 < line.unwrappedLayout.width := hpos.trans_le hwidth
      rcases (h.indexForX_eq_glyph_iff hlt hin).mp hfound with ⟨hle, -⟩ | ⟨hindex, -⟩
      · exact absurd hle (not_le.mpr hpos)
      · exact hindex
  · intro first hfirst hnot
    have hzero := first_le_zero h hwrap hheight hfirst hnot hreturns
    refine ⟨hzero, ?_⟩
    intro g hg hafter
    exact (returns_firstRow_iff h hwrap hheight hfirst hzero hg hafter).mp
      (hreturns _ (.inl ⟨g, hg, rfl⟩))

end

end Rows

/-- Every stop of a wrapped line is found again at its position, and the index looked up for a
place along the unwrapped line is the nearest stop. -/
structure PositionsUndo [FloorSemiring K] (line : WrappedLineLayout K) : Prop where
  returns : ∀ lineHeight, 0 < lineHeight → ∀ index, line.unwrappedLayout.Stop index →
    line.Returns lineHeight index
  nearest : ∀ x, 0 ≤ x → x ≤ line.unwrappedLayout.width →
    line.unwrappedLayout.Nearest x (line.unwrappedLayout.closestIndexForX x)

/-- Positions and indices undo each other exactly when the carets return and, for a line of some
width, its end is closed by a glyph. -/
theorem positionsUndo_iff [IsStrictOrderedRing K] [FloorSemiring K] (line : WrappedLineLayout K)
    (h : line.unwrappedLayout.Increasing)
    (hwrap : line.wrapBoundaries.Sublist (line.unwrappedLayout.placedGlyphs.map (·.boundary))) :
    line.PositionsUndo ↔
      line.CaretsReturn ∧ (0 ≤ line.unwrappedLayout.width → line.unwrappedLayout.ClosedByGlyph) := by
  have hglyphs := boundaryGlyphs_sublist hwrap
  rw [← nearest_iff_closedByGlyph h]
  constructor
  · intro hundo
    exact ⟨caretsReturn_of_returns h hglyphs one_pos (hundo.returns 1 one_pos), hundo.nearest⟩
  · rintro ⟨hcarets, hnearest⟩
    refine ⟨?_, hnearest⟩
    intro lineHeight hheight index hindex
    exact hcarets.returns h hglyphs hheight hindex

/-- A glyph of ten pixels, and one without width that starts the second row. -/
theorem positionsUndo_trailing :
    (ofAdvances [10, 0]).Increasing ∧
      [(⟨0, 1⟩ : WrapBoundary)].Sublist ((ofAdvances [10, 0]).placedGlyphs.map (·.boundary)) ∧
      PositionsUndo ⟨ofAdvances [10, 0], [⟨0, 1⟩], some 8⟩ := by
  have h : (ofAdvances [10, 0]).Increasing :=
    ⟨by with_unfolding_all decide, by with_unfolding_all decide, by with_unfolding_all decide⟩
  have hwrap : [(⟨0, 1⟩ : WrapBoundary)].Sublist
      ((ofAdvances [10, 0]).placedGlyphs.map (·.boundary)) := by decide
  refine ⟨h, hwrap, (positionsUndo_iff _ h hwrap).mpr ⟨⟨?_, ?_, ?_, ?_⟩, fun _ => ⟨?_, ?_, ?_⟩⟩⟩ <;>
    with_unfolding_all decide

/-- Two glyphs of ten pixels: just past the second one the end of the text is looked up. -/
theorem closestIndexForX_past_second :
    (ofAdvances [10, 10]).Increasing ∧ ¬ PositionsUndo ⟨ofAdvances [10, 10], [], none⟩ := by
  have h : (ofAdvances [10, 10]).Increasing :=
    ⟨by with_unfolding_all decide, by with_unfolding_all decide, by with_unfolding_all decide⟩
  refine ⟨h, ?_⟩
  intro hundo
  have hnear := (hundo.nearest 11 (by with_unfolding_all decide) (by with_unfolding_all decide)).2 1
    (.inl (by decide))
  revert hnear
  with_unfolding_all decide

end WrappedLineLayout

end GpuiFast
