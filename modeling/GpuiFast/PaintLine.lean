import GpuiFast.ShapeDecorations

/-! A line is painted glyph by glyph, wrapped into rows that are aligned each on its own. Underlines,
strikethroughs and backgrounds are carried along while the decoration runs ask for them, and painted
when a row, a run that asks for them or the line ends. An index outside of the line is a panic of
the source, here `none`; painting a glyph does not fail. -/

namespace GpuiFast

inductive TextAlign where
  | left
  | center
  | right
  deriving DecidableEq

structure UnderlineStyle (K C : Type*) where
  thickness : K
  color : Option C
  wavy : Bool
  deriving DecidableEq

structure StrikethroughStyle (K C : Type*) where
  thickness : K
  color : Option C
  deriving DecidableEq

structure Decoration (K C : Type*) where
  color : C
  backgroundColor : Option C
  underline : Option (UnderlineStyle K C)
  strikethrough : Option (StrikethroughStyle K C)

structure LineFrame (K : Type*) where
  origin : Point K
  lineHeight : K
  align : TextAlign
  alignWidth : Option K

variable {K C δ σ : Type} [Field K] [LinearOrder K]

def LineLayout.glyphBefore (layout : LineLayout K) (boundary : WrapBoundary) :
    Option (ShapedGlyph K) :=
  layout.runs[boundary.runIx]?.bind (fun run => run.glyphs[boundary.glyphIx]?)

def alignedX (originX alignWidth lineWidth : K) : TextAlign → K
  | .left => originX
  | .center => (originX * 2 + alignWidth - lineWidth) / 2
  | .right => originX + alignWidth - lineWidth

def alignedOriginX (frame : LineFrame K) (layout : LineLayout K) (lastGlyphX : K)
    (wrapBoundary : Option WrapBoundary) : Option K := do
  let endOfLine ← match wrapBoundary with
    | some boundary => (layout.glyphBefore boundary).map (·.position.x)
    | none => some layout.width
  return alignedX frame.origin.x (frame.alignWidth.getD layout.width) (endOfLine - lastGlyphX)
    frame.align

def unionRows (frame : LineFrame K) (alignWidth : K) : Bounds K → ℕ → K → List K → Bounds K
  | bounds, _, _, [] => bounds
  | bounds, row, rowStart, rowEnd :: rowEnds =>
    let width := rowEnd - rowStart
    let offset := match frame.align with
      | .left => 0
      | .center => (alignWidth - width) / 2
      | .right => alignWidth - width
    unionRows frame alignWidth (bounds.union
      ⟨⟨frame.origin.x + offset, frame.origin.y + frame.lineHeight * row⟩,
        ⟨width, frame.lineHeight⟩⟩) (row + 1) rowEnd rowEnds

def linePaintBounds (frame : LineFrame K) (layout : LineLayout K)
    (wrapBoundaries : List WrapBoundary) : Option (Bounds K) :=
  let bounds : Bounds K :=
    ⟨frame.origin, ⟨layout.width, frame.lineHeight * (wrapBoundaries.length + 1)⟩⟩
  if frame.align = .left ∨ layout.len = 0 then some bounds
  else do
    let rowEnds ← wrapBoundaries.mapM (fun boundary =>
      (layout.glyphBefore boundary).map (·.position.x))
    return unionRows frame (frame.alignWidth.getD layout.width) bounds 0 0
      (rowEnds ++ [layout.width])

structure Pen (K δ : Type*) where
  decorationRuns : List (DecorationRun δ)
  wraps : List WrapBoundary
  runEnd : ℕ
  glyphOrigin : Point K
  prevGlyphPosition : Point K
  maxGlyphSize : Size K

namespace Pen

def start (frame : LineFrame K) (layout : LineLayout K) (decorationRuns : List (DecorationRun δ))
    (wraps : List WrapBoundary) : Option (Pen K δ) := do
  let x ← alignedOriginX frame layout 0 wraps.head?
  return ⟨decorationRuns, wraps, 0, ⟨x, frame.origin.y⟩, ⟨0, 0⟩, ⟨0, 0⟩⟩

def advance (pen : Pen K δ) (glyph : ShapedGlyph K) : Pen K δ :=
  { pen with glyphOrigin :=
      ⟨pen.glyphOrigin.x + (glyph.position.x - pen.prevGlyphPosition.x), pen.glyphOrigin.y⟩ }

def newRow (pen : Pen K δ) (frame : LineFrame K) (layout : LineLayout K) (glyph : ShapedGlyph K) :
    Option (Pen K δ) := do
  let wraps := pen.wraps.tail
  let x ← alignedOriginX frame layout glyph.position.x wraps.head?
  return { pen with wraps := wraps, glyphOrigin := ⟨x, pen.glyphOrigin.y + frame.lineHeight⟩ }

end Pen

/-- The first of the runs from an index on that ends behind an index, where it starts, and the runs
after it: runs that apply to a part of a glyph are ignored. -/
def nextStyleRun (index : ℕ) : ℕ → List (DecorationRun δ) →
    ℕ × Option (DecorationRun δ) × List (DecorationRun δ)
  | runEnd, [] => (runEnd, none, [])
  | runEnd, run :: runs =>
    if index < runEnd + run.len.toNat then (runEnd, some run, runs)
    else nextStyleRun index (runEnd + run.len.toNat) runs

structure Stroke (K σ : Type*) where
  origin : Point K
  style : σ

structure PaintedStroke (K σ : Type*) where
  origin : Point K
  width : K
  style : σ

structure StrokeKind (δ σ : Type*) where
  goesOn : δ → σ → Bool
  extend : σ → ℕ → σ
  start : δ → ℕ → ℕ → Option σ

namespace Stroke

def paint (stroke : Stroke K σ) (endX halfGlyph : K) (widened : Bool) : PaintedStroke K σ :=
  let x := if stroke.origin.x = endX then stroke.origin.x - halfGlyph else stroke.origin.x
  ⟨⟨x, stroke.origin.y⟩, endX - (if widened then x else stroke.origin.x), stroke.style⟩

def wrap (stroke : Stroke K σ) (frame : LineFrame K) (index runEnd : ℕ) : Option (Stroke K σ) :=
  if index < runEnd then
    some { stroke with origin := ⟨frame.origin.x, stroke.origin.y + frame.lineHeight⟩ }
  else none

end Stroke

def changeStroke (kind : StrokeKind δ σ) (run : DecorationRun δ) (runStart : ℕ) (origin : Point K)
    (current : Option (Stroke K σ)) : Option (Stroke K σ) × Option (Stroke K σ) :=
  let runEnd := runStart + run.len.toNat
  let (current, finished) := match current with
    | some stroke =>
      if kind.goesOn run.decoration stroke.style then
        (some { stroke with style := kind.extend stroke.style runEnd }, none)
      else (none, some stroke)
    | none => (none, none)
  match kind.start run.decoration runStart runEnd with
  | some style => (some (current.getD ⟨origin, style⟩), finished)
  | none => (current, finished)

def underlineKind [DecidableEq C] : StrokeKind (Decoration K C) (UnderlineStyle K C × ℕ × ℕ) where
  goesOn := fun decoration style => decoration.underline = some style.1
  extend := fun style runEnd => (style.1, style.2.1, runEnd)
  start := fun decoration runStart runEnd => decoration.underline.map (fun underline =>
    ({ underline with color := some (underline.color.getD decoration.color) }, runStart, runEnd))

def strikethroughKind [DecidableEq C] : StrokeKind (Decoration K C) (StrikethroughStyle K C) where
  goesOn := fun decoration style => decoration.strikethrough = some style
  extend := fun style _ => style
  start := fun decoration _ _ => decoration.strikethrough.map (fun strikethrough =>
    { strikethrough with color := some (strikethrough.color.getD decoration.color) })

def backgroundKind [DecidableEq C] : StrokeKind (Decoration K C) C where
  goesOn := fun decoration color => decoration.backgroundColor = some color
  extend := fun color _ => color
  start := fun decoration _ _ => decoration.backgroundColor

def Pen.nextRun (pen : Pen K δ) (layout : LineLayout K) (index : ℕ) :
    Pen K δ × Option (ℕ × DecorationRun δ) :=
  match nextStyleRun index pen.runEnd pen.decorationRuns with
  | (runStart, some run, runs) =>
    ({ pen with decorationRuns := runs, runEnd := runStart + run.len.toNat }, some (runStart, run))
  | (_, none, runs) => ({ pen with decorationRuns := runs, runEnd := layout.len }, none)

structure StrokePainter (K δ σ : Type*) where
  kind : StrokeKind δ σ
  /-- How far below the origin of a row. -/
  yOffset : K
  widened : Bool

def wrapStroke (frame : LineFrame K) (pen : Pen K δ) (index : ℕ) :
    Option (Stroke K σ) → Option (Stroke K σ) × List (PaintedStroke K σ)
  | some stroke =>
    (stroke.wrap frame index pen.runEnd,
      [stroke.paint pen.glyphOrigin.x (pen.maxGlyphSize.width / 2) true])
  | none => (none, [])

def StrokePainter.enterRun (painter : StrokePainter K δ σ) (pen : Pen K δ)
    (styleRun : Option (ℕ × DecorationRun δ)) (current : Option (Stroke K σ)) :
    Option (Stroke K σ) × List (PaintedStroke K σ) :=
  let (current, finished) := match styleRun with
    | some (runStart, run) =>
      changeStroke painter.kind run runStart
        ⟨pen.glyphOrigin.x, pen.glyphOrigin.y + painter.yOffset⟩ current
    | none => (none, current)
  (current, (finished.map (fun stroke =>
    stroke.paint pen.glyphOrigin.x (pen.maxGlyphSize.width / 2) painter.widened)).toList)

/-- The x at which the last row ends, when the first row starts at `startX`. -/
def lastLineEndX (layout : LineLayout K) (wrapBoundaries : List WrapBoundary) (startX : K) :
    Option K :=
  match wrapBoundaries.getLast? with
  | some boundary => (layout.glyphBefore boundary).map (fun glyph =>
    startX + layout.width - glyph.position.x)
  | none => some (startX + layout.width)

def endStroke (pen : Pen K δ) (endX : K) (current : Option (Stroke K σ)) :
    List (PaintedStroke K σ) :=
  (current.map (fun stroke => stroke.paint endX (pen.maxGlyphSize.width / 2) true)).toList

section Line

variable (frame : LineFrame K) (layout : LineLayout K) (boundingBox : FontId → Bounds K)

def paintRun {α : Type} (paintGlyph : WrapBoundary → FontId → ShapedGlyph K → α → Option α)
    (run : ShapedRun K) (runIx : ℕ) (s : α) : Option α :=
  run.glyphs.zipIdx.foldlM (fun s glyph => paintGlyph ⟨runIx, glyph.2⟩ run.fontId glyph.1 s) s

structure StrokeState (K δ σ : Type*) where
  pen : Pen K δ
  current : Option (Stroke K σ)
  painted : List (PaintedStroke K σ)

def StrokeState.wrap (s : StrokeState K δ σ) (place : WrapBoundary) (glyph : ShapedGlyph K) :
    Option (StrokeState K δ σ) :=
  if s.pen.wraps.head? = some place then do
    let (current, painted) := wrapStroke frame s.pen glyph.index s.current
    let pen ← s.pen.newRow frame layout glyph
    return ⟨pen, current, s.painted ++ painted⟩
  else some s

def StrokeState.enterRun (s : StrokeState K δ σ) (painter : StrokePainter K δ σ)
    (glyph : ShapedGlyph K) : StrokeState K δ σ :=
  let pen := { s.pen with prevGlyphPosition := glyph.position }
  if pen.runEnd ≤ glyph.index then
    let (pen, styleRun) := pen.nextRun layout glyph.index
    let (current, painted) := painter.enterRun pen styleRun s.current
    ⟨pen, current, s.painted ++ painted⟩
  else ⟨pen, s.current, s.painted⟩

def strokeGlyph (painter : StrokePainter K δ σ) (place : WrapBoundary) (glyph : ShapedGlyph K)
    (s : StrokeState K δ σ) : Option (StrokeState K δ σ) := do
  let s ← StrokeState.wrap frame layout { s with pen := s.pen.advance glyph } place glyph
  return s.enterRun layout painter glyph

def strokeRuns (painter : StrokePainter K δ σ) (s : StrokeState K δ σ) :
    Option (StrokeState K δ σ) :=
  layout.runs.zipIdx.foldlM (fun s run =>
    paintRun (fun place _ glyph => strokeGlyph frame layout painter place glyph) run.1 run.2
      { s with pen := { s.pen with maxGlyphSize := (boundingBox run.1.fontId).size } }) s

def backgroundPainter [DecidableEq C] : StrokePainter K (Decoration K C) C :=
  ⟨backgroundKind, 0, false⟩

def hasNoBackground (decorationRuns : List (DecorationRun (Decoration K C))) : Bool :=
  decorationRuns.all (fun run => run.decoration.backgroundColor.isNone)

def paintLineBackground [DecidableEq C] (decorationRuns : List (DecorationRun (Decoration K C)))
    (wrapBoundaries : List WrapBoundary) : Option (List (Bounds K × List (PaintedStroke K C))) :=
  if hasNoBackground decorationRuns then some []
  else do
    let lineBounds ← linePaintBounds frame layout wrapBoundaries
    let pen ← Pen.start frame layout decorationRuns wrapBoundaries
    let s ← strokeRuns frame layout boundingBox backgroundPainter ⟨pen, none, []⟩
    let endX ← lastLineEndX layout wrapBoundaries frame.origin.x
    return [(lineBounds, s.painted ++ endStroke s.pen endX s.current)]

inductive LinePaint (K C : Type*) where
  | underline (stroke : PaintedStroke K (UnderlineStyle K C × ℕ × ℕ))
  | strikethrough (stroke : PaintedStroke K (StrikethroughStyle K C))
  | emoji (origin : Point K) (fontId : FontId) (id : GlyphId) (fontSize : K)
  | glyph (origin : Point K) (fontId : FontId) (id : GlyphId) (fontSize : K) (color : C)

structure PaintLineState (K C : Type*) where
  pen : Pen K (Decoration K C)
  color : C
  currentUnderline : Option (Stroke K (UnderlineStyle K C × ℕ × ℕ))
  currentStrikethrough : Option (Stroke K (StrikethroughStyle K C))
  firstGlyphX : K
  painted : List (LinePaint K C)

def paddingTop : K := (frame.lineHeight - layout.ascent - layout.descent) / 2

def baselineOffset : K := paddingTop frame layout + layout.ascent

def underlineYOffset : K :=
  paddingTop frame layout + layout.ascent + layout.descent * (618 / 1000)

def underlinePainter [DecidableEq C] :
    StrokePainter K (Decoration K C) (UnderlineStyle K C × ℕ × ℕ) :=
  ⟨underlineKind, underlineYOffset frame layout, true⟩

def strikethroughPainter [DecidableEq C] :
    StrokePainter K (Decoration K C) (StrikethroughStyle K C) :=
  ⟨strikethroughKind, (layout.ascent * (1 / 2) + baselineOffset frame layout) * (1 / 2), true⟩

variable (mayReach : Bounds K → K → Bool)

def paintGlyphAt (pen : Pen K (Decoration K C)) (color : C) (fontId : FontId)
    (glyph : ShapedGlyph K) : List (LinePaint K C) :=
  if mayReach ⟨pen.glyphOrigin, pen.maxGlyphSize⟩
      (baselineOffset frame layout + glyph.position.y) then
    let origin : Point K := ⟨pen.glyphOrigin.x,
      pen.glyphOrigin.y + baselineOffset frame layout + glyph.position.y⟩
    if glyph.isEmoji then [.emoji origin fontId glyph.id layout.fontSize]
    else [.glyph origin fontId glyph.id layout.fontSize color]
  else []

def PaintLineState.wrap (s : PaintLineState K C) (place : WrapBoundary) (glyph : ShapedGlyph K) :
    Option (PaintLineState K C) :=
  if s.pen.wraps.head? = some place then do
    let (underline, underlines) := wrapStroke frame s.pen glyph.index s.currentUnderline
    let (strikethrough, strikethroughs) :=
      wrapStroke frame s.pen glyph.index s.currentStrikethrough
    let pen ← s.pen.newRow frame layout glyph
    return { s with
      pen := pen
      currentUnderline := underline
      currentStrikethrough := strikethrough
      painted := s.painted ++ underlines.map .underline ++ strikethroughs.map .strikethrough }
  else some s

def PaintLineState.enterRun [DecidableEq C] (s : PaintLineState K C) (glyph : ShapedGlyph K) :
    PaintLineState K C :=
  let pen := { s.pen with prevGlyphPosition := glyph.position }
  if pen.runEnd ≤ glyph.index then
    let (pen, styleRun) := pen.nextRun layout glyph.index
    let (underline, underlines) :=
      (underlinePainter frame layout).enterRun pen styleRun s.currentUnderline
    let (strikethrough, strikethroughs) :=
      (strikethroughPainter frame layout).enterRun pen styleRun s.currentStrikethrough
    { s with
      pen := pen
      color := styleRun.elim s.color (fun run => run.2.decoration.color)
      currentUnderline := underline
      currentStrikethrough := strikethrough
      painted := s.painted ++ underlines.map .underline ++ strikethroughs.map .strikethrough }
  else { s with pen := pen }

def paintLineGlyph [DecidableEq C] (place : WrapBoundary) (fontId : FontId)
    (glyph : ShapedGlyph K) (s : PaintLineState K C) : Option (PaintLineState K C) := do
  let pen := s.pen.advance glyph
  let s ← PaintLineState.wrap frame layout { s with
    pen := pen
    firstGlyphX := if place = ⟨0, 0⟩ then pen.glyphOrigin.x else s.firstGlyphX } place glyph
  let s := s.enterRun frame layout glyph
  return { s with painted :=
    s.painted ++ paintGlyphAt frame layout mayReach s.pen s.color fontId glyph }

def paintLineRuns [DecidableEq C] (s : PaintLineState K C) : Option (PaintLineState K C) :=
  layout.runs.zipIdx.foldlM (fun s run =>
    paintRun (paintLineGlyph frame layout mayReach) run.1 run.2
      { s with pen := { s.pen with maxGlyphSize := (boundingBox run.1.fontId).size } }) s

def paintLine [DecidableEq C] (black : C) (decorationRuns : List (DecorationRun (Decoration K C)))
    (wrapBoundaries : List WrapBoundary) : Option (Bounds K × List (LinePaint K C)) := do
  let lineBounds ← linePaintBounds frame layout wrapBoundaries
  let pen ← Pen.start frame layout decorationRuns wrapBoundaries
  let s ← paintLineRuns frame layout boundingBox mayReach
    ⟨pen, black, none, none, frame.origin.x, []⟩
  let endX ← lastLineEndX layout wrapBoundaries s.firstGlyphX
  return (lineBounds, s.painted ++ (endStroke s.pen endX s.currentUnderline).map .underline ++
    (endStroke s.pen endX s.currentStrikethrough).map .strikethrough)

end Line

end GpuiFast
