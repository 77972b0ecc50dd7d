import GpuiFast.LineLayout

/-! A line's glyphs are replaced in place: a walk over the runs drops the glyphs that replacements cover
and notes the fonts of those that stay, and the runs of more than one font are then split, from the
last on, within the vector of runs. A step that would panic gives nothing. -/

namespace GpuiFast

structure Replacement (K : Type*) where
  start : ℕ
  stop : ℕ
  fontId : FontId
  glyph : ShapedGlyph K
  widthDelta : K

structure Segment where
  fontId : FontId
  length : ℕ

variable {K : Type*}

section Walk

variable [AddZeroClass K]

def ShapedGlyph.shifted (glyph : ShapedGlyph K) (shift : K) : ShapedGlyph K :=
  { glyph with position := { glyph.position with x := glyph.position.x + shift } }

structure ReplacementWalk (K : Type*) where
  replacements : List (Replacement K)
  originalIndex : ℕ
  consumedEnd : ℕ
  shift : K

namespace ReplacementWalk

def new (replacements : List (Replacement K)) : ReplacementWalk K := ⟨replacements, 0, 0, 0⟩

def visit (walk : ReplacementWalk K) (fontId : FontId) (glyph : ShapedGlyph K) :
    ReplacementWalk K × Option (FontId × ShapedGlyph K) :=
  let index := walk.originalIndex
  let walk := { walk with originalIndex := index + 1 }
  if index < walk.consumedEnd then (walk, none)
  else
    match walk.replacements with
    | replacement :: replacements =>
      if replacement.start = index then
        ({ walk with
            replacements := replacements
            consumedEnd := replacement.stop
            shift := walk.shift + replacement.widthDelta },
          some (replacement.fontId, replacement.glyph.shifted walk.shift))
      else (walk, some (fontId, glyph.shifted walk.shift))
    | [] => (walk, some (fontId, glyph.shifted walk.shift))

end ReplacementWalk

def extendSegments (segments : List Segment) (fontId : FontId) : List Segment :=
  match segments.getLast? with
  | some segment =>
    if segment.fontId = fontId then
      segments.dropLast ++ [{ segment with length := segment.length + 1 }]
    else segments ++ [⟨fontId, 1⟩]
  | none => [⟨fontId, 1⟩]

def retainGlyphs (fontId : FontId) (walk : ReplacementWalk K) (glyphs : List (ShapedGlyph K)) :
    ReplacementWalk K × List (ShapedGlyph K) × List Segment :=
  glyphs.foldl (fun (walk, kept, segments) glyph =>
    match walk.visit fontId glyph with
    | (walk, none) => (walk, kept, segments)
    | (walk, some (fontId, glyph)) => (walk, kept ++ [glyph], extendSegments segments fontId))
    (walk, [], [])

structure RetainedRuns (K : Type*) where
  walk : ReplacementWalk K
  runs : List (ShapedRun K)
  segmentsByRun : List (List Segment)
  spareBuffers : List (List (ShapedGlyph K))

def RetainedRuns.retain (retained : RetainedRuns K) (run : ShapedRun K) : RetainedRuns K :=
  let (walk, glyphs, segments) := retainGlyphs run.fontId retained.walk run.glyphs
  if segments.isEmpty then
    { retained with walk := walk, spareBuffers := retained.spareBuffers ++ [glyphs] }
  else
    { retained with
      walk := walk
      runs := retained.runs ++ [{ run with glyphs := glyphs }]
      segmentsByRun := retained.segmentsByRun ++ [segments] }

def retainRuns (replacements : List (Replacement K)) (runs : List (ShapedRun K)) : RetainedRuns K :=
  runs.foldl RetainedRuns.retain ⟨.new replacements, [], [], []⟩

end Walk

structure RunVector (K : Type*) where
  runs : List (ShapedRun K)
  spareBuffers : List (List (ShapedGlyph K))

namespace RunVector

def swap (runs : List (ShapedRun K)) (i j : ℕ) : Option (List (ShapedRun K)) := do
  let a ← runs[i]?
  let b ← runs[j]?
  return (runs.set i b).set j a

/-- The segments of a source, the last first, go to their destinations; the first takes what is left
of the source with it. -/
def expandSegments (sourceIndex destinationStart : ℕ) :
    List Segment → ℕ → RunVector K → Option (RunVector K)
  | [], _, vector => some vector
  | [segment], _, vector => do
    let source ← vector.runs[sourceIndex]?
    let runs ← swap (vector.runs.set sourceIndex { source with fontId := segment.fontId })
      sourceIndex destinationStart
    return { vector with runs := runs }
  | segment :: before :: segments, glyphEnd, vector => do
    let destinationIndex := destinationStart + (before :: segments).length
    let source ← vector.runs[sourceIndex]?
    if segment.length ≤ glyphEnd ∧ glyphEnd ≤ source.glyphs.length ∧
        destinationIndex < vector.runs.length then
      let glyphStart := glyphEnd - segment.length
      let drained := (source.glyphs.take glyphEnd).drop glyphStart
      let left := source.glyphs.take glyphStart ++ source.glyphs.drop glyphEnd
      let glyphs := vector.spareBuffers.getLast?.getD [] ++ drained
      expandSegments sourceIndex destinationStart (before :: segments) glyphStart
        { runs := (vector.runs.set sourceIndex { source with glyphs := left }).set destinationIndex
            ⟨segment.fontId, glyphs⟩
          spareBuffers := vector.spareBuffers.dropLast }
    else none

/-- The sources, the last first, with their segments, and the end of what is left of the vector. -/
def expand : List (List Segment) → ℕ → RunVector K → Option (RunVector K)
  | [], _, vector => some vector
  | segments :: before, destinationEnd, vector => do
    let sourceIndex := before.length
    if segments.length ≤ destinationEnd then
      let destinationStart := destinationEnd - segments.length
      let source ← vector.runs[sourceIndex]?
      let vector ← expandSegments sourceIndex destinationStart segments.reverse
        source.glyphs.length vector
      expand before destinationStart vector
    else none

end RunVector

def applyReplacements [AddZeroClass K] (layout : LineLayout K) (replacements : List (Replacement K)) :
    Option (LineLayout K) :=
  if replacements.isEmpty then some layout
  else do
    let retained := retainRuns replacements layout.runs
    let finalRunCount := (retained.segmentsByRun.map List.length).sum
    let runs := (retained.runs ++
      List.replicate (finalRunCount - retained.runs.length) (⟨0, []⟩ : ShapedRun K)).take finalRunCount
    let vector ← RunVector.expand retained.segmentsByRun.reverse finalRunCount
      ⟨runs, retained.spareBuffers⟩
    return { layout with
      runs := vector.runs
      width := layout.width + retained.walk.shift }

def glyphStream (runs : List (ShapedRun K)) : List (FontId × ShapedGlyph K) :=
  runs.flatMap (fun run => run.glyphs.map (fun glyph => (run.fontId, glyph)))

def pushGlyph (runs : List (ShapedRun K)) (fontId : FontId) (glyph : ShapedGlyph K) :
    List (ShapedRun K) :=
  match runs.getLast? with
  | some run =>
    if run.fontId = fontId then runs.dropLast ++ [{ run with glyphs := run.glyphs ++ [glyph] }]
    else runs ++ [⟨fontId, [glyph]⟩]
  | none => [⟨fontId, [glyph]⟩]

def reference [AddZeroClass K] (layout : LineLayout K) (replacements : List (Replacement K)) : LineLayout K :=
  let (walk, runs) := (glyphStream layout.runs).foldl (fun (walk, runs) (fontId, glyph) =>
    match walk.visit fontId glyph with
    | (walk, none) => (walk, runs)
    | (walk, some (fontId, glyph)) => (walk, pushGlyph runs fontId glyph))
    (ReplacementWalk.new replacements, [])
  { layout with runs := runs, width := layout.width + walk.shift }

/-- Whether replacements are sorted, do not overlap, and each covers some glyphs of those from an
index to another. -/
def ReplacementsFit (count : ℕ) : ℕ → List (Replacement K) → Prop
  | _, [] => True
  | index, replacement :: replacements =>
    index ≤ replacement.start ∧ replacement.start < replacement.stop ∧ replacement.stop ≤ count ∧
      ReplacementsFit count replacement.stop replacements

/-- The glyphs from an index on, with each range replaced, and all of them shifted by the changes of
width before them. -/
def replacedStream [AddZeroClass K] : K → ℕ → List (FontId × ShapedGlyph K) → List (Replacement K) →
    List (FontId × ShapedGlyph K)
  | shift, _, stream, [] => stream.map (fun glyph => (glyph.1, glyph.2.shifted shift))
  | shift, index, stream, replacement :: replacements =>
    (stream.take (replacement.start - index)).map (fun glyph => (glyph.1, glyph.2.shifted shift)) ++
      (replacement.fontId, replacement.glyph.shifted shift) ::
      replacedStream (shift + replacement.widthDelta) replacement.stop
        (stream.drop (replacement.stop - index)) replacements

end GpuiFast
