import GpuiFast.LinePositions
import GpuiFast.PartitionPoint
import GpuiFast.ShapeDecorations

/-! A shaped line is split at a byte index, or gone through by a cursor that takes the bytes up to the
next boundary each time. Either gives nothing where the source panics: at an index that is no
character boundary, and where a number would overflow. -/

namespace GpuiFast

variable {K δ : Type*}

def checkedSub (a b : ℕ) : Option ℕ := if b ≤ a then some (a - b) else none

def checkedAdd32 (a b : UInt32) : Option UInt32 :=
  if a.toNat + b.toNat < 2 ^ 32 then some (a + b) else none

def checkedSub32 (a b : UInt32) : Option UInt32 := if b ≤ a then some (a - b) else none

def isCharBoundary (text : Text) (index : ℕ) : Bool :=
  if index = 0 then true
  else if text.length ≤ index then decide (index = text.length)
  else text[index]?.any (fun byte => byte < 128 || 192 ≤ byte)

def ShapedGlyph.rebase [Sub K] (byteIndex : ℕ) (xOffset : K) (glyph : ShapedGlyph K) :
    Option (ShapedGlyph K) :=
  (checkedSub glyph.index byteIndex).map (fun index =>
    { glyph with position := ⟨glyph.position.x - xOffset, glyph.position.y⟩, index := index })

def ShapedRun.splitAt [Sub K] (byteIndex : ℕ) (xOffset : K) (run : ShapedRun K) :
    Option (List (ShapedRun K) × List (ShapedRun K)) :=
  let splitPos := partitionPoint (fun glyph => glyph.index < byteIndex) run.glyphs
  let left := if 0 < splitPos then [⟨run.fontId, run.glyphs.take splitPos⟩] else []
  if splitPos < run.glyphs.length then
    ((run.glyphs.drop splitPos).mapM (ShapedGlyph.rebase byteIndex xOffset)).map (fun glyphs =>
      (left, [⟨run.fontId, glyphs⟩]))
  else some (left, [])

def LineLayout.splitAt [Sub K] (layout : LineLayout K) (byteIndex : ℕ) :
    Option (LineLayout K × LineLayout K) :=
  let xOffset := layout.xForIndex byteIndex
  (layout.runs.mapM (ShapedRun.splitAt byteIndex xOffset)).bind (fun parts =>
    (checkedSub layout.len byteIndex).map (fun rightLen =>
      ({ layout with width := xOffset, runs := parts.flatMap Prod.fst, len := byteIndex },
        { layout with
          width := layout.width - xOffset
          runs := parts.flatMap Prod.snd
          len := rightLen })))

structure ShapedLine (K δ : Type*) where
  layout : LineLayout K
  text : Text
  decorationRuns : List (DecorationRun δ)

/-- Partitions decoration runs, the first of which starts at an offset. A run that straddles the
split is split in two. -/
def splitDecorations (splitPoint : UInt32) : UInt32 → List (DecorationRun δ) →
    Option (List (DecorationRun δ) × List (DecorationRun δ))
  | _, [] => some ([], [])
  | offset, decoration :: decorations =>
    (checkedAdd32 offset decoration.len).bind (fun runEnd =>
      (splitDecorations splitPoint runEnd decorations).map (fun rest =>
        if runEnd ≤ splitPoint then (decoration :: rest.1, rest.2)
        else if splitPoint ≤ offset then (rest.1, decoration :: rest.2)
        else
          ({ decoration with len := splitPoint - offset } :: rest.1,
            { decoration with len := runEnd - splitPoint } :: rest.2)))

def ShapedLine.splitAt [Sub K] (line : ShapedLine K δ) (byteIndex : ℕ) :
    Option (ShapedLine K δ × ShapedLine K δ) :=
  (line.layout.splitAt byteIndex).bind (fun layouts =>
    (splitDecorations (.ofNat byteIndex) 0 line.decorationRuns).bind (fun decorations =>
      if isCharBoundary line.text byteIndex then
        some (⟨layouts.1, line.text.take byteIndex, decorations.1⟩,
          ⟨layouts.2, line.text.drop byteIndex, decorations.2⟩)
      else none))

structure ShapedLineCursor (K δ : Type*) where
  line : ShapedLine K δ
  unorderedRemainder : Option (ShapedLine K δ)
  byteIndex : ℕ
  runIndex : ℕ
  glyphIndex : ℕ
  decorationIndex : ℕ
  decorationOffset : UInt32
  xOffset : K

def LineLayout.ByteOrdered (layout : LineLayout K) : Prop :=
  layout.glyphIndices.Pairwise (· ≤ ·)

instance LineLayout.decidableByteOrdered (layout : LineLayout K) : Decidable layout.ByteOrdered :=
  inferInstanceAs (Decidable (layout.glyphIndices.Pairwise (· ≤ ·)))

def ShapedLine.cursor [Zero K] (line : ShapedLine K δ) : Option (ShapedLineCursor K δ) :=
  if line.layout.len ≠ line.text.length then none
  else some ⟨line, if line.layout.ByteOrdered then none else some line, 0, 0, 0, 0, 0, 0⟩

/-- Takes the glyphs before a byte index, from a glyph of the first of the runs on. It gives the
runs taken, where the cursor stands then, and the place of the first glyph that is left. -/
def takeGlyphs [Sub K] (byteIndex previousIndex : ℕ) (previousX width : K) :
    List (ShapedRun K) → ℕ → ℕ → Option (List (ShapedRun K) × ℕ × ℕ × K)
  | [], runIndex, glyphIndex => some ([], runIndex, glyphIndex, width)
  | run :: runs, runIndex, start =>
    let taken := (run.glyphs.drop start).takeWhile (fun glyph => glyph.index < byteIndex)
    let stop := start + taken.length
    (taken.mapM (ShapedGlyph.rebase previousIndex previousX)).bind (fun glyphs =>
      let piece := if start < stop then [⟨run.fontId, glyphs⟩] else []
      match run.glyphs[stop]? with
      | some glyph => some (piece, runIndex, stop, glyph.position.x)
      | none =>
        (takeGlyphs byteIndex previousIndex previousX width runs (runIndex + 1) 0).map (fun rest =>
          (piece ++ rest.1, rest.2)))

/-- Takes the decorations before a byte index, and gives where the cursor stands among them then. -/
def takeDecorations (byteIndex previousIndex : UInt32) :
    List (DecorationRun δ) → ℕ → UInt32 → Option (List (DecorationRun δ) × ℕ × UInt32)
  | [], index, offset => some ([], index, offset)
  | decoration :: decorations, index, offset =>
    if offset < byteIndex ∨ (decoration.len = 0 ∧ offset = byteIndex) then
      (checkedAdd32 offset decoration.len).bind (fun runEnd =>
        (checkedSub32 (min runEnd byteIndex) (max offset previousIndex)).bind (fun len =>
          let piece := if 0 < len ∨ decoration.len = 0 then [{ decoration with len := len }] else []
          if runEnd ≤ byteIndex then
            (takeDecorations byteIndex previousIndex decorations (index + 1) runEnd).map (fun rest =>
              (piece ++ rest.1, rest.2))
          else some (piece, index, offset)))
    else some ([], index, offset)

namespace ShapedLineCursor

def takeUntil [Sub K] (cursor : ShapedLineCursor K δ) (byteIndex : ℕ) :
    Option (ShapedLine K δ × ShapedLineCursor K δ) :=
  if byteIndex < cursor.byteIndex ∨ cursor.line.layout.len < byteIndex ∨
      isCharBoundary cursor.line.text byteIndex = false then none
  else match cursor.unorderedRemainder with
    | some remainder =>
      (remainder.splitAt (byteIndex - cursor.byteIndex)).map (fun parts =>
        (parts.1, { cursor with
          unorderedRemainder := some parts.2
          byteIndex := byteIndex
          xOffset := cursor.line.layout.xForIndex byteIndex }))
    | none =>
      (takeGlyphs byteIndex cursor.byteIndex cursor.xOffset cursor.line.layout.width
        (cursor.line.layout.runs.drop cursor.runIndex) cursor.runIndex cursor.glyphIndex).bind
          (fun (runs, runIndex, glyphIndex, nextX) =>
        (takeDecorations (.ofNat byteIndex) (.ofNat cursor.byteIndex)
          (cursor.line.decorationRuns.drop cursor.decorationIndex) cursor.decorationIndex
            cursor.decorationOffset).map (fun (decorations, decorationIndex, decorationOffset) =>
          (⟨{ cursor.line.layout with
                width := nextX - cursor.xOffset
                runs := runs
                len := byteIndex - cursor.byteIndex },
              (cursor.line.text.drop cursor.byteIndex).take (byteIndex - cursor.byteIndex),
              decorations⟩,
            ⟨cursor.line, none, byteIndex, runIndex, glyphIndex, decorationIndex, decorationOffset,
              nextX⟩)))

def takeAll [Sub K] : ShapedLineCursor K δ → List ℕ → Option (List (ShapedLine K δ × K))
  | _, [] => some []
  | cursor, boundary :: boundaries =>
    (cursor.takeUntil boundary).bind (fun taken =>
      (taken.2.takeAll boundaries).map ((taken.1, taken.2.xOffset) :: ·))

end ShapedLineCursor

def ShapedLine.splitAll [Sub K] : ShapedLine K δ → ℕ → List ℕ → Option (List (ShapedLine K δ))
  | _, _, [] => some []
  | remainder, previousIndex, boundary :: boundaries =>
    (remainder.splitAt (boundary - previousIndex)).bind (fun parts =>
      (parts.2.splitAll boundary boundaries).map (parts.1 :: ·))

end GpuiFast
