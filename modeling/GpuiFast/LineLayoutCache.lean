import GpuiFast.NumberShaping

namespace GpuiFast

variable {K : Type*} [Field K] [LinearOrder K]

structure CacheKey (K : Type*) where
  text : Text
  fontSize : K
  runs : List FontRun
  wrapWidth : Option K
  forceWidth : Option K
  deriving DecidableEq

def RECENT_GLYPHS_PER_GENERATION : ℕ := 16 * 1024

structure RecentShape (K : Type*) where
  text : Text
  fontSize : K
  runs : List FontRun
  layout : LineLayout K

structure RecentShapes (K : Type*) where
  current : KeyMap UInt64 (List (RecentShape K))
  currentGlyphs : ℕ
  old : KeyMap UInt64 (List (RecentShape K))
  fontsGeneration : ℕ

def swapRemove {α : Type*} (l : List α) (i : ℕ) : List α :=
  match l.getLast? with
  | some last => (l.set i last).dropLast
  | none => []

namespace RecentShape

def isFor (shape : RecentShape K) (text : Text) (fontSize : K) (runs : List FontRun) : Bool :=
  decide (shape.text = text ∧ shape.fontSize = fontSize ∧ shape.runs = runs)

def glyphs (shape : RecentShape K) : ℕ := max (shape.layout.runs.map (·.glyphs.length)).sum 1

end RecentShape

namespace RecentShapes

def new : RecentShapes K := ⟨.empty, 0, .empty, 0⟩

def push (recent : RecentShapes K) (hash : UInt64) (shape : RecentShape K) : RecentShapes K :=
  let recent := if RECENT_GLYPHS_PER_GENERATION ≤ recent.currentGlyphs then
    { recent with old := recent.current, current := .empty, currentGlyphs := 0 } else recent
  { recent with
    currentGlyphs := recent.currentGlyphs + shape.glyphs
    current := recent.current.insert hash ((recent.current.get? hash).getD [] ++ [shape]) }

def get (recent : RecentShapes K) (fontsGeneration : ℕ) (hash : UInt64) (text : Text) (fontSize : K)
    (runs : List FontRun) : RecentShapes K × Option (LineLayout K) :=
  if fontsGeneration ≠ recent.fontsGeneration then (⟨.empty, 0, .empty, fontsGeneration⟩, none)
  else
    match ((recent.current.get? hash).getD []).find? (·.isFor text fontSize runs) with
    | some shape => (recent, some shape.layout)
    | none =>
      let shapes := (recent.old.get? hash).getD []
      match shapes.findIdx? (·.isFor text fontSize runs) with
      | none => (recent, none)
      | some i =>
        match shapes[i]? with
        | none => (recent, none)
        | some shape =>
          let shapes := swapRemove shapes i
          let old := if shapes.isEmpty then recent.old.filter (fun h _ => h ≠ hash)
            else recent.old.insert hash shapes
          (({ recent with old := old } : RecentShapes K).push hash shape, some shape.layout)

def insert (recent : RecentShapes K) (fontsGeneration : ℕ) (hash : UInt64) (shape : RecentShape K) :
    RecentShapes K :=
  if recent.fontsGeneration ≠ fontsGeneration then recent else recent.push hash shape

end RecentShapes

/-- Where the cells of a forced width stand: how many there are, where the last base glyph was
shaped, and where it is put. -/
structure ForcedWidth (K : Type*) where
  glyphPos : ℕ
  lastBaseShapedX : Option K
  lastBaseActualX : K

def ForcedWidth.place (forceWidth : K) (s : ForcedWidth K) (shapedX : K) : ForcedWidth K × K :=
  match s.lastBaseShapedX with
  | some base =>
    if base + forceWidth * (1 / 2) < shapedX then
      let forcedX := s.glyphPos * forceWidth
      let x := if 1 < |shapedX - forcedX| then forcedX else shapedX
      (⟨s.glyphPos + 1, some shapedX, x⟩, x)
    else (s, s.lastBaseActualX + (shapedX - base))
  | none =>
    let forcedX := s.glyphPos * forceWidth
    let x := if 1 < |shapedX - forcedX| then forcedX else shapedX
    (⟨s.glyphPos + 1, some shapedX, x⟩, x)

def ForcedWidth.placeGlyphs (forceWidth : K) :
    ForcedWidth K → List (ShapedGlyph K) → ForcedWidth K × List (ShapedGlyph K)
  | s, [] => (s, [])
  | s, glyph :: glyphs =>
    let r := s.place forceWidth glyph.position.x
    let rest := placeGlyphs forceWidth r.1 glyphs
    (rest.1, { glyph with position := ⟨r.2, glyph.position.y⟩ } :: rest.2)

def ForcedWidth.placeRuns (forceWidth : K) :
    ForcedWidth K → List (ShapedRun K) → List (ShapedRun K)
  | _, [] => []
  | s, run :: runs =>
    let r := s.placeGlyphs forceWidth run.glyphs
    { run with glyphs := r.2 } :: placeRuns forceWidth r.1 runs

def applyForceWidthToLayout (layout : LineLayout K) (forceWidth : K) : LineLayout K :=
  { layout with runs := ForcedWidth.placeRuns forceWidth ⟨0, none, 0⟩ layout.runs }

def forceLine (layout : LineLayout K) : Option K → LineLayout K
  | some forceWidth => applyForceWidthToLayout layout forceWidth
  | none => layout

structure FrameCache (K : Type*) where
  lines : KeyMap (CacheKey K) (LineLayout K)
  wrappedLines : KeyMap (CacheKey K) (WrappedLineLayout K)
  usedLines : List (CacheKey K)
  usedWrappedLines : List (CacheKey K)

def FrameCache.new : FrameCache K := ⟨.empty, .empty, [], []⟩

structure LineLayoutIndex where
  fontGeneration : ℕ
  linesIndex : ℕ
  wrappedLinesIndex : ℕ

structure LineLayoutCache (K : Type*) where
  previousFrame : FrameCache K
  currentFrame : FrameCache K
  recent : RecentShapes K
  numbers : NumberShaping K
  fontGeneration : ℕ
  cachedFontGeneration : ℕ
  fontsGeneration : ℕ
  platform : LayoutLine K
  hash : Text → K → List FontRun → UInt64
  breakIndices : Text → List ℕ

def carryOver {κ β : Type*} [DecidableEq κ] (previous current : KeyMap κ β) (held : κ → Bool) :
    KeyMap κ β :=
  let previous := previous.filter (fun k _ => held k)
  let extend := fun (m m' : KeyMap κ β) => m'.entries.foldl (fun m e => m.insert e.1 e.2) m
  if previous.size < current.size then extend current previous else extend previous current

def moveKeys {κ β : Type*} [DecidableEq κ] (keys : List κ) (maps : KeyMap κ β × KeyMap κ β) :
    KeyMap κ β × KeyMap κ β :=
  keys.foldl (fun maps key => match maps.1.get? key with
    | some value => (maps.1.filter (fun k _ => k ≠ key), maps.2.insert key value)
    | none => maps) maps

namespace LineLayoutCache

def new (platform : LayoutLine K) (hash : Text → K → List FontRun → UInt64)
    (breakIndices : Text → List ℕ) (fontGeneration fontsGeneration : ℕ) : LineLayoutCache K where
  previousFrame := .new
  currentFrame := .new
  recent := .new
  numbers := .new
  fontGeneration := fontGeneration
  cachedFontGeneration := fontGeneration
  fontsGeneration := fontsGeneration
  platform := platform
  hash := hash
  breakIndices := breakIndices

def clearIfFontGenerationChanged (c : LineLayoutCache K) : LineLayoutCache K :=
  if c.cachedFontGeneration = c.fontGeneration then c
  else
    { c with
      previousFrame := .new
      currentFrame := .new
      cachedFontGeneration := c.fontGeneration }

def shapeLineUncached (c : LineLayoutCache K) (text : Text) (fontSize : K) (runs : List FontRun) :
    LineLayoutCache K × LineLayout K :=
  let r := c.numbers.shape c.fontsGeneration c.platform text fontSize runs
  ({ c with numbers := r.1 }, r.2.getD (c.platform text fontSize runs))

def shapeLine (c : LineLayoutCache K) (text : Text) (fontSize : K) (runs : List FontRun) :
    LineLayoutCache K × LineLayout K :=
  let hash := c.hash text fontSize runs
  let r := c.recent.get c.fontsGeneration hash text fontSize runs
  let c := { c with recent := r.1 }
  match r.2 with
  | some layout => (c, layout)
  | none =>
    let r := c.shapeLineUncached text fontSize runs
    ({ r.1 with recent := r.1.recent.insert c.fontsGeneration hash ⟨text, fontSize, runs, r.2⟩ }, r.2)

def layoutLine (c : LineLayoutCache K) (text : Text) (fontSize : K) (runs : List FontRun)
    (forceWidth : Option K) : LineLayoutCache K × LineLayout K :=
  let c := c.clearIfFontGenerationChanged
  let key : CacheKey K := ⟨text, fontSize, runs, none, forceWidth⟩
  match c.currentFrame.lines.get? key with
  | some layout => (c, layout)
  | none =>
    match c.previousFrame.lines.get? key with
    | some layout =>
      ({ c with
        previousFrame := { c.previousFrame with
          lines := c.previousFrame.lines.filter (fun k _ => k ≠ key) }
        currentFrame := { c.currentFrame with
          lines := c.currentFrame.lines.insert key layout
          usedLines := c.currentFrame.usedLines ++ [key] } }, layout)
    | none =>
      let r := c.shapeLine text fontSize runs
      let layout := forceLine r.2 forceWidth
      let c := r.1
      ({ c with
        currentFrame := { c.currentFrame with
          lines := c.currentFrame.lines.insert key layout
          usedLines := c.currentFrame.usedLines ++ [key] } }, layout)

def wrapLine (c : LineLayoutCache K) (unwrappedLayout : LineLayout K) (text : Text)
    (wrapWidth : Option K) (maxLines : Option ℕ) : WrappedLineLayout K where
  unwrappedLayout := unwrappedLayout
  wrapBoundaries := match wrapWidth with
    | some wrapWidth =>
      unwrappedLayout.computeWrapBoundaries text (c.breakIndices text) wrapWidth maxLines
    | none => []
  wrapWidth := wrapWidth

def layoutWrappedLine (c : LineLayoutCache K) (text : Text) (fontSize : K) (runs : List FontRun)
    (wrapWidth : Option K) (maxLines : Option ℕ) : LineLayoutCache K × WrappedLineLayout K :=
  let c := c.clearIfFontGenerationChanged
  -- `max_lines` is no part of the key
  let key : CacheKey K := ⟨text, fontSize, runs, wrapWidth, none⟩
  match c.currentFrame.wrappedLines.get? key with
  | some layout => (c, layout)
  | none =>
    match c.previousFrame.wrappedLines.get? key with
    | some layout =>
      ({ c with
        previousFrame := { c.previousFrame with
          wrappedLines := c.previousFrame.wrappedLines.filter (fun k _ => k ≠ key) }
        currentFrame := { c.currentFrame with
          wrappedLines := c.currentFrame.wrappedLines.insert key layout
          usedWrappedLines := c.currentFrame.usedWrappedLines ++ [key] } }, layout)
    | none =>
      let r := c.layoutLine text fontSize runs none
      let c := r.1
      let layout := c.wrapLine r.2 text wrapWidth maxLines
      ({ c with
        currentFrame := { c.currentFrame with
          wrappedLines := c.currentFrame.wrappedLines.insert key layout
          usedWrappedLines := c.currentFrame.usedWrappedLines ++ [key] } }, layout)

def reuseLayouts (c : LineLayoutCache K) (start stop : LineLayoutIndex) : LineLayoutCache K :=
  let c := c.clearIfFontGenerationChanged
  if start.fontGeneration ≠ c.fontGeneration ∨ stop.fontGeneration ≠ c.fontGeneration then c
  else
    let usedLines := (c.previousFrame.usedLines.take stop.linesIndex).drop start.linesIndex
    let usedWrappedLines :=
      (c.previousFrame.usedWrappedLines.take stop.wrappedLinesIndex).drop start.wrappedLinesIndex
    let lines := moveKeys usedLines (c.previousFrame.lines, c.currentFrame.lines)
    let wrappedLines :=
      moveKeys usedWrappedLines (c.previousFrame.wrappedLines, c.currentFrame.wrappedLines)
    { c with
      previousFrame := { c.previousFrame with lines := lines.1, wrappedLines := wrappedLines.1 }
      currentFrame :=
        { lines := lines.2
          wrappedLines := wrappedLines.2
          usedLines := c.currentFrame.usedLines ++ usedLines
          usedWrappedLines := c.currentFrame.usedWrappedLines ++ usedWrappedLines } }

def truncateLayouts (c : LineLayoutCache K) (index : LineLayoutIndex) : LineLayoutCache K :=
  let c := c.clearIfFontGenerationChanged
  if index.fontGeneration ≠ c.fontGeneration then c
  else
    { c with currentFrame := { c.currentFrame with
        usedLines := c.currentFrame.usedLines.take index.linesIndex
        usedWrappedLines := c.currentFrame.usedWrappedLines.take index.wrappedLinesIndex } }

/-- Ends a frame; `heldLines` and `heldWrappedLines` are the lines something still holds. -/
def finishFrame (c : LineLayoutCache K) (heldLines heldWrappedLines : CacheKey K → Bool) :
    LineLayoutCache K :=
  let c := c.clearIfFontGenerationChanged
  { c with
    previousFrame :=
      { lines := carryOver c.previousFrame.lines c.currentFrame.lines heldLines
        wrappedLines :=
          carryOver c.previousFrame.wrappedLines c.currentFrame.wrappedLines heldWrappedLines
        usedLines := c.currentFrame.usedLines
        usedWrappedLines := c.currentFrame.usedWrappedLines }
    currentFrame := .new }

def addFonts (c : LineLayoutCache K) (added : Option (LayoutLine K)) : LineLayoutCache K :=
  let c := { c with fontsGeneration := c.fontsGeneration + 1 }
  match added with
  | none => c
  | some platform => { c with platform := platform, fontGeneration := c.fontGeneration + 1 }

inductive Call (K : Type*) where
  | layoutLine (text : Text) (fontSize : K) (runs : List FontRun) (forceWidth : Option K)
  | layoutWrappedLine (text : Text) (fontSize : K) (runs : List FontRun) (wrapWidth : Option K)
      (maxLines : Option ℕ)

def call (c : LineLayoutCache K) : Call K → LineLayoutCache K × (LineLayout K ⊕ WrappedLineLayout K)
  | .layoutLine text fontSize runs forceWidth =>
    let r := c.layoutLine text fontSize runs forceWidth
    (r.1, .inl r.2)
  | .layoutWrappedLine text fontSize runs wrapWidth maxLines =>
    let r := c.layoutWrappedLine text fontSize runs wrapWidth maxLines
    (r.1, .inr r.2)

def emptied (c : LineLayoutCache K) : LineLayoutCache K :=
  new c.platform c.hash c.breakIndices c.fontGeneration c.fontsGeneration

inductive Event (K : Type*) where
  | call (call : Call K)
  | reuseLayouts (start stop : LineLayoutIndex)
  | truncateLayouts (index : LineLayoutIndex)
  | finishFrame (heldLines heldWrappedLines : CacheKey K → Bool)
  | addFonts (added : Option (LayoutLine K))

def step (c : LineLayoutCache K) : Event K → LineLayoutCache K
  | .call call => (c.call call).1
  | .reuseLayouts start stop => c.reuseLayouts start stop
  | .truncateLayouts index => c.truncateLayouts index
  | .finishFrame heldLines heldWrappedLines => c.finishFrame heldLines heldWrappedLines
  | .addFonts added => c.addFonts added

end LineLayoutCache

end GpuiFast
