import GpuiFast.SharedLog
import Mathlib

/-! A retained view that is dirty only for views nested in it is painted from last frame, stretch by
stretch, with the dirty nested views painted again in the gaps. The gaps are walked in the order
the nested views were prepainted, which need not be the order they were painted in.

What painting leaves is a number of arrays, appended to. -/

namespace GpuiFast.Splice

/-- `usedLines` and `usedWrappedLines` are the line cache's. Once the fonts have changed, its
`reuse_layouts` slices and copies nothing, as where no line was used. -/
inductive PaintArray where
  | scene | debugBounds | windowControlHitboxes | a11yActions | cursorStyles | inputHandlers
  | mouseListeners | accessedElementStates | tabStops | usedLines | usedWrappedLines
  deriving DecidableEq

/-- The arrays `reuse_paint` slices. A stretch of `a11yActions` is looked up instead, and one that
is empty or reversed is skipped. -/
def PaintArray.sliced : List PaintArray :=
  [.scene, .debugBounds, .windowControlHitboxes, .cursorStyles, .inputHandlers, .mouseListeners,
    .accessedElementStates, .tabStops, .usedLines, .usedWrappedLines]

abbrev PaintIndex := PaintArray → ℕ

abbrev PaintOutput (α : Type*) := PaintArray → List α

variable {α : Type*}

namespace PaintOutput

def empty : PaintOutput α := fun _ => []

def append (a b : PaintOutput α) : PaintOutput α := fun array => a array ++ b array

/-- The source's `paint_index`. -/
def index (a : PaintOutput α) : PaintIndex := fun array => (a array).length

end PaintOutput

/-- The place `output` ends at when it starts at `start`. -/
def PaintIndex.after (start : PaintIndex) (output : PaintOutput α) : PaintIndex :=
  fun array => start array + (output array).length

/-- A record of last frame's retained subtrees, with how many are nested in it and whether its view
is dirty and can be built again on its own. -/
structure RetainedSubtree where
  nested : ℕ
  dirty : Bool
  rebuildable : Bool
  start : PaintIndex
  stop : PaintIndex

/-- The loop of `splice_layout` that picks the gaps; `fuel` bounds its steps. -/
def gapsFrom (records : List RetainedSubtree) : (fuel : ℕ) → (index last : ℕ) → Option (List ℕ)
  | 0, _, _ => some []
  | fuel + 1, index, last =>
    if last < index then some []
    else
      match records[index]? with
      | none => none
      | some nested =>
        let rest := gapsFrom records fuel (index + nested.nested + 1) last
        if nested.dirty then
          if !nested.rebuildable then none else rest.map (index :: ·)
        else rest

/-- The gaps of the view at `previous`. Without one the view is not spliced. -/
def spliceGaps (records : List RetainedSubtree) (previous : ℕ) : Option (List ℕ) :=
  match records[previous]? with
  | none => none
  | some record =>
    match gapsFrom records (record.nested + 1) (previous + 1) (previous + record.nested) with
    | some [] => none
    | gaps => gaps

def reusePaint (rendered : PaintOutput α) (start stop : PaintIndex) (next : PaintOutput α) :
    Option (PaintOutput α) :=
  if PaintArray.sliced.all (fun array =>
      start array ≤ stop array ∧ stop array ≤ (rendered array).length) then
    some (fun array =>
      if array = .a11yActions ∧ (rendered array).length < stop array then next array
      else next array ++ slice (rendered array) (start array) (stop array))
  else none

structure Gap (α : Type*) where
  start : PaintIndex
  stop : PaintIndex
  painted : PaintOutput α

/-- The loop of `splice_paint`, from a cursor on. -/
def spliceStretches (rendered : PaintOutput α) (stop : PaintIndex) :
    (cursor : PaintIndex) → List (Gap α) → PaintOutput α → Option (PaintOutput α)
  | cursor, [], next => reusePaint rendered cursor stop next
  | cursor, gap :: gaps, next =>
    match reusePaint rendered cursor gap.start next with
    | none => none
    | some next => spliceStretches rendered stop gap.stop gaps (next.append gap.painted)

/-- Paints the view at `previous` around its gaps; `painted` is what painting the view of a record
again leaves. -/
def splicePaint (rendered : PaintOutput α) (records : List RetainedSubtree) (previous : ℕ)
    (gaps : List ℕ) (painted : ℕ → PaintOutput α) (next : PaintOutput α) : Option (PaintOutput α) :=
  match records[previous]? with
  | none => none
  | some record =>
    spliceStretches rendered record.stop record.start
      (gaps.filterMap (fun index => records[index]?.map
        (fun gap => ⟨gap.start, gap.stop, painted index⟩))) next

structure NestedView (α : Type*) where
  inside : List RetainedSubtree
  dirty : Bool
  rebuildable : Bool
  painted : PaintOutput α

/-- What a view's element paints: something of its own, or the nested view it prepainted as the
`rank`-th. -/
inductive Piece (α : Type*) where
  | own (output : PaintOutput α)
  | view (rank : ℕ)

def Piece.rank? : Piece α → Option ℕ
  | .own _ => none
  | .view rank => some rank

/-- A view with the views nested in it in the order they were prepainted, and what its element
painted in the order it did. Each nested view is painted once. -/
structure RetainedView (α : Type*) where
  views : List (NestedView α)
  pieces : List (Piece α)
  once : (pieces.filterMap Piece.rank?).Perm (List.range views.length)

def paintPieces (outputs : ℕ → PaintOutput α) : List (Piece α) → PaintOutput α
  | [] => PaintOutput.empty
  | .own output :: pieces => output.append (paintPieces outputs pieces)
  | .view rank :: pieces => (outputs rank).append (paintPieces outputs pieces)

/-- Where the `rank`-th nested view begins to paint, the pieces starting at `start`. -/
def startOf (outputs : ℕ → PaintOutput α) (rank : ℕ) :
    (start : PaintIndex) → List (Piece α) → PaintIndex
  | start, [] => start
  | start, .own output :: pieces => startOf outputs rank (start.after output) pieces
  | start, .view rank' :: pieces =>
    if rank' = rank then start else startOf outputs rank (start.after (outputs rank')) pieces

namespace RetainedView

def old (v : RetainedView α) (rank : ℕ) : PaintOutput α :=
  (v.views[rank]?.map (·.painted)).getD PaintOutput.empty

def isDirty (v : RetainedView α) (rank : ℕ) : Bool := (v.views[rank]?.map (·.dirty)).getD false

/-- What the view paints from scratch when painting its dirty views leaves `painted`. -/
def paint (v : RetainedView α) (painted : ℕ → PaintOutput α) : PaintOutput α :=
  paintPieces (fun rank => if v.isDirty rank then painted rank else v.old rank) v.pieces

/-- The record of a nested view, painted last frame with the view from `start` on. -/
def recordOf (v : RetainedView α) (start : PaintIndex) (view : NestedView α) (rank : ℕ) :
    RetainedSubtree :=
  let begun := startOf v.old rank start v.pieces
  ⟨view.inside.length, view.dirty, view.rebuildable, begun, begun.after view.painted⟩

def nestedRecords (v : RetainedView α) (start : PaintIndex) :
    (rank : ℕ) → List (NestedView α) → List RetainedSubtree
  | _, [] => []
  | rank, view :: views =>
    v.recordOf start view rank :: view.inside ++ v.nestedRecords start (rank + 1) views

def records (v : RetainedView α) (start : PaintIndex) : List RetainedSubtree :=
  let nested := v.nestedRecords start 0 v.views
  ⟨nested.length, true, true, start, start.after (paintPieces v.old v.pieces)⟩ :: nested

/-- Where the record of the `rank`-th nested view is among those of the view. -/
def recordIndex (v : RetainedView α) (rank : ℕ) : ℕ :=
  1 + ((v.views.take rank).map (fun view => view.inside.length + 1)).sum

def PaintsInOrder (v : RetainedView α) : Prop :=
  ((v.pieces.filterMap Piece.rank?).filter v.isDirty).Pairwise (· < ·)

instance (v : RetainedView α) : Decidable v.PaintsInOrder :=
  inferInstanceAs (Decidable (List.Pairwise _ _))

end RetainedView

end GpuiFast.Splice
