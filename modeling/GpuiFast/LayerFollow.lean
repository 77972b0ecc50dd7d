import Mathlib.Data.Fintype.Basic

/-! A list's layer keeps where its records lie in the last frame's lists. A frame that copies the
subtree holding the list draws no row of it; the ranges follow the copy instead, so that the next
frame can carry the rows. The entries of the frame being drawn are known by where they were copied
from. -/

namespace GpuiFast

inductive PrepaintList where
  | hitboxes | tooltips | deferredDraws | dispatchTree | accessedElementStates | lines
  | wrappedLines | a11y
  deriving DecidableEq

instance : Fintype PrepaintList :=
  ⟨{.hitboxes, .tooltips, .deferredDraws, .dispatchTree, .accessedElementStates, .lines,
    .wrappedLines, .a11y}, by intro list; cases list <;> decide⟩

def PrepaintList.compared : PrepaintList → Bool
  | .wrappedLines | .a11y => false
  | _ => true

/-- The lists a paint range delimits entries of. The scene is not among them: a layer's scene index
counts from its own scene, and is neither compared nor moved. -/
inductive PaintList where
  | windowControlHitboxes | mouseListeners | inputHandlers | cursorStyles | accessedElementStates
  | tabHandles | lines | wrappedLines | a11yActions
  deriving DecidableEq

instance : Fintype PaintList :=
  ⟨{.windowControlHitboxes, .mouseListeners, .inputHandlers, .cursorStyles, .accessedElementStates,
    .tabHandles, .lines, .wrappedLines, .a11yActions}, by intro list; cases list <;> decide⟩

def PaintList.compared : PaintList → Bool
  | .wrappedLines | .a11yActions => false
  | _ => true

structure FrameRange (ι : Type*) where
  start : ι → ℕ
  stop : ι → ℕ

namespace FrameRange

variable {ι : Type*}

/-- An index of a range that started at `source`, in a copy of it that starts at `target`. (An index
before `source` overflows in the source.) -/
def shiftedIndex (index source target : ι → ℕ) : ι → ℕ :=
  fun list => index list - source list + target list

def shifted (range : FrameRange ι) (source target : ι → ℕ) : FrameRange ι :=
  ⟨shiftedIndex range.start source target, shiftedIndex range.stop source target⟩

def Inside (compared : ι → Bool) (range source : FrameRange ι) : Prop :=
  ∀ list, compared list = true →
    source.start list ≤ range.start list ∧ range.stop list ≤ source.stop list

instance [Fintype ι] (compared : ι → Bool) (range source : FrameRange ι) :
    Decidable (Inside compared range source) :=
  inferInstanceAs (Decidable (∀ list, compared list = true →
    source.start list ≤ range.start list ∧ range.stop list ≤ source.stop list))

end FrameRange

inductive Decision where
  | bypass | repaint | composite
  deriving DecidableEq

structure LayerRow where
  prepaint : FrameRange PrepaintList
  paint : FrameRange PaintList

structure RangeRecord where
  prepaintRange : FrameRange PrepaintList
  paintRange : FrameRange PaintList

structure RecordLayer where
  record : Option RangeRecord
  list : Bool
  rows : List LayerRow
  rangesFrame : Option ℕ
  /-- The frame that copied its prepaint entries along with the view holding it. -/
  prepaintFollowed : Option ℕ
  /-- Whether its content is to be painted again before it sees input. -/
  rebuild : Bool

namespace RecordLayer

def Current (layer : RecordLayer) (frame : ℕ) : Prop :=
  ∃ painted ∈ layer.rangesFrame, painted + 1 = frame

instance (layer : RecordLayer) (frame : ℕ) : Decidable (layer.Current frame) :=
  decidable_of_iff (layer.rangesFrame.any (· + 1 = frame) = true) (by
    cases h : layer.rangesFrame <;> simp [Current, h])

/-- Follows the copy of a prepaint range to `target`. -/
def followPrepaint (frame : ℕ) (source : FrameRange PrepaintList) (target : PrepaintList → ℕ)
    (layer : RecordLayer) : RecordLayer :=
  match layer.record with
  | none => layer
  | some record =>
    if layer.Current frame ∧ layer.list = true ∧
        record.prepaintRange.Inside PrepaintList.compared source then
      { layer with
        record := some
          { record with prepaintRange := record.prepaintRange.shifted source.start target }
        rows := layer.rows.map fun row =>
          { row with prepaint := row.prepaint.shifted source.start target }
        prepaintFollowed := some frame }
    else layer

/-- Follows the copy of a paint range to `target`. -/
def followPaint (frame : ℕ) (source : FrameRange PaintList) (target : PaintList → ℕ)
    (layer : RecordLayer) : RecordLayer :=
  if layer.prepaintFollowed = some frame then
    match layer.record with
    | none => layer
    | some record =>
      if record.paintRange.Inside PaintList.compared source then
        { layer with
          record := some { record with paintRange := record.paintRange.shifted source.start target }
          rows := layer.rows.map fun row =>
            { row with paint := row.paint.shifted source.start target }
          rangesFrame := some frame }
      else layer
  else layer

end RecordLayer

inductive FrameStep (ι : Type*) where
  | build (added : ι → ℕ)
  | reuse (range : FrameRange ι)

abbrev FrameEntries (ι : Type*) := ι → List (Option ℕ)

namespace FrameEntries

variable {ι : Type*}

def index (entries : FrameEntries ι) : ι → ℕ := fun list => (entries list).length

def build (entries : FrameEntries ι) (added : ι → ℕ) : FrameEntries ι :=
  fun list => entries list ++ List.replicate (added list) none

def reuse (entries : FrameEntries ι) (range : FrameRange ι) : FrameEntries ι :=
  fun list => entries list ++
    (List.range' (range.start list) (range.stop list - range.start list)).map some

def step (entries : FrameEntries ι) : FrameStep ι → FrameEntries ι
  | .build added => entries.build added
  | .reuse range => entries.reuse range

def CopyOf (entries : FrameEntries ι) (before after : FrameRange ι) : Prop :=
  ∀ list, ((entries list).drop (after.start list)).take (after.stop list - after.start list) =
    (List.range' (before.start list) (before.stop list - before.start list)).map some

end FrameEntries

structure LayerWindow where
  frame : ℕ
  layers : List RecordLayer
  prepainted : FrameEntries PrepaintList
  painted : FrameEntries PaintList

namespace LayerWindow

/-- Draws a subtree of the last frame again, as far as its prepaint goes. Its layers follow if the
copy is what it was copied from, entry for entry. -/
def reuseRetainedPrepaint (window : LayerWindow) (range : FrameRange PrepaintList) : LayerWindow :=
  let start := window.prepainted.index
  let prepainted := window.prepainted.reuse range
  if prepainted.index = FrameRange.shiftedIndex range.stop range.start start then
    { window with
      prepainted
      layers := window.layers.map (RecordLayer.followPrepaint window.frame range start) }
  else { window with prepainted }

def reuseRetainedPaint (window : LayerWindow) (range : FrameRange PaintList) : LayerWindow :=
  let start := window.painted.index
  let painted := window.painted.reuse range
  if painted.index = FrameRange.shiftedIndex range.stop range.start start then
    { window with
      painted
      layers := window.layers.map (RecordLayer.followPaint window.frame range start) }
  else { window with painted }

def prepaintStep (window : LayerWindow) : FrameStep PrepaintList → LayerWindow
  | .build added => { window with prepainted := window.prepainted.build added }
  | .reuse range => window.reuseRetainedPrepaint range

def paintStep (window : LayerWindow) : FrameStep PaintList → LayerWindow
  | .build added => { window with painted := window.painted.build added }
  | .reuse range => window.reuseRetainedPaint range

def drawFrame (window : LayerWindow) (prepaint : List (FrameStep PrepaintList))
    (paint : List (FrameStep PaintList)) : LayerWindow :=
  paint.foldl paintStep (prepaint.foldl prepaintStep window)

end LayerWindow

end GpuiFast
