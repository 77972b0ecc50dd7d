import GpuiFast.Geometry

/-! A line of text as the platform shapes it, and the boundaries it is wrapped at. Text is its UTF-8
bytes; where a line may break is given with the text. -/

namespace GpuiFast

abbrev Text := List UInt8
abbrev FontId := ℕ
abbrev GlyphId := UInt32

structure FontRun where
  len : ℕ
  fontId : FontId
  deriving DecidableEq

structure ShapedGlyph (K : Type*) where
  id : GlyphId
  position : Point K
  index : ℕ
  isEmoji : Bool
  deriving DecidableEq

structure ShapedRun (K : Type*) where
  fontId : FontId
  glyphs : List (ShapedGlyph K)
  deriving DecidableEq

structure LineLayout (K : Type*) where
  fontSize : K
  width : K
  ascent : K
  descent : K
  runs : List (ShapedRun K)
  len : ℕ
  deriving DecidableEq

/-- A boundary at which a line is wrapped: before which glyph of which run. -/
structure WrapBoundary where
  runIx : ℕ
  glyphIx : ℕ
  deriving DecidableEq

def WrapBoundary.lt (a b : WrapBoundary) : Bool :=
  decide (a.runIx < b.runIx) || (decide (a.runIx = b.runIx) && decide (a.glyphIx < b.glyphIx))

variable {K : Type*} [Field K] [LinearOrder K]

structure WrapGlyph (K : Type*) where
  boundary : WrapBoundary
  index : ℕ
  x : K

/-- Drops the glyphs that follow one of the same index, given the index before them. -/
def dedupByIndex : Option ℕ → List (WrapGlyph K) → List (WrapGlyph K)
  | _, [] => []
  | previous, g :: glyphs =>
    if previous = some g.index then dedupByIndex previous glyphs
    else g :: dedupByIndex (some g.index) glyphs

namespace LineLayout

def glyphIndices (layout : LineLayout K) : List ℕ :=
  layout.runs.flatMap (fun run => run.glyphs.map (·.index))

def wrapGlyphs (layout : LineLayout K) : List (WrapGlyph K) :=
  dedupByIndex none (layout.runs.zipIdx.flatMap (fun run =>
    run.1.glyphs.zipIdx.map (fun glyph => ⟨⟨run.2, glyph.2⟩, glyph.1.index, glyph.1.position.x⟩)))

end LineLayout

/-- Where the search for boundaries stands. -/
structure WrapState (K : Type*) where
  boundaries : List WrapBoundary
  currentSegment : Option (ℕ × ℕ)
  lastCandidateIx : Option WrapBoundary
  lastCandidateX : K
  lastBoundary : WrapBoundary
  lastBoundaryX : K

namespace WrapState

def new : WrapState K := ⟨[], none, none, 0, ⟨0, 0⟩, 0⟩

/-- Notes a transition between segments as a place the line may be wrapped at. -/
def enter (s : WrapState K) (text : Text) (breakIndices : List ℕ) (glyph : WrapGlyph K) :
    WrapState K :=
  if text.getD glyph.index 0 ≠ 32 ∧
      ¬ s.currentSegment.any (fun segment => segment.1 ≤ glyph.index ∧ glyph.index < segment.2) then
    let segment := (breakIndices.takeWhile (· ≤ glyph.index)).length
    let s := if s.currentSegment.isSome then
      { s with lastCandidateIx := some glyph.boundary, lastCandidateX := glyph.x } else s
    let start := if segment = 0 then 0 else breakIndices.getD (segment - 1) 0
    { s with currentSegment := some (start, breakIndices.getD segment text.length) }
  else s

def wrap (s : WrapState K) (glyph : WrapGlyph K) : WrapState K :=
  match s.lastCandidateIx with
  | some candidate =>
    { s with
      lastCandidateIx := none
      lastBoundary := candidate
      lastBoundaryX := s.lastCandidateX
      boundaries := s.boundaries ++ [candidate] }
  | none =>
    { s with
      lastBoundary := glyph.boundary
      lastBoundaryX := glyph.x
      boundaries := s.boundaries ++ [glyph.boundary] }

/-- Goes through the glyphs of a line that is `width` wide. -/
def search (text : Text) (breakIndices : List ℕ) (width wrapWidth : K) (maxLines : Option ℕ) :
    WrapState K → List (WrapGlyph K) → WrapState K
  | s, [] => s
  | s, glyph :: glyphs =>
    -- a newline takes no part
    if text.getD glyph.index 0 = 10 then search text breakIndices width wrapWidth maxLines s glyphs
    else
      let s := s.enter text breakIndices glyph
      let nextX := (glyphs.head?.map (·.x)).getD width
      if wrapWidth < nextX - s.lastBoundaryX ∧ s.lastBoundary.lt glyph.boundary then
        if maxLines.any (fun maxLines => maxLines - 1 ≤ s.boundaries.length) then s
        else search text breakIndices width wrapWidth maxLines (s.wrap glyph) glyphs
      else search text breakIndices width wrapWidth maxLines s glyphs

end WrapState

/-- The boundaries a line is wrapped at, given where its text may break. Break opportunities that
would separate what shaping combined are ignored. -/
def LineLayout.computeWrapBoundaries (layout : LineLayout K) (text : Text) (breaks : List ℕ)
    (wrapWidth : K) (maxLines : Option ℕ) : List WrapBoundary :=
  let breakIndices := breaks.filter (· ∈ layout.glyphIndices)
  (WrapState.search text breakIndices layout.width wrapWidth maxLines .new layout.wrapGlyphs).boundaries

structure WrappedLineLayout (K : Type*) where
  unwrappedLayout : LineLayout K
  wrapBoundaries : List WrapBoundary
  wrapWidth : Option K
  deriving DecidableEq

namespace WrappedLineLayout

def width (line : WrappedLineLayout K) : K :=
  match line.wrapWidth with
  | some wrapWidth => min wrapWidth line.unwrappedLayout.width
  | none => line.unwrappedLayout.width

def size (line : WrappedLineLayout K) (lineHeight : K) : Size K :=
  ⟨line.width, lineHeight * (line.wrapBoundaries.length + 1 : ℕ)⟩

end WrappedLineLayout

end GpuiFast
