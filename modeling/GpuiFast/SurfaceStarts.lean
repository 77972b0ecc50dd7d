import Mathlib.Data.List.Basic

/-! A frame records, as it paints, which GPUI surface each stretch of its scene targets. A view drawn
from the last frame copies its operations and the switches of surface made among them; a spliced
view is copied in stretches around the nested views that are painted again. -/

namespace GpuiFast

inductive CompositionSurfaceKind where
  | gpui | native | externalGpu
  deriving DecidableEq

/-- The surfaces a window composes, as far as painting asks for them. -/
structure Composition (S : Type*) where
  kind : S → Option CompositionSurfaceKind
  baseSurface : S
  overlaySurface : S
  base_gpui : kind baseSurface = some .gpui
  overlay_gpui : kind overlaySurface = some .gpui

/-- The GPUI surface painting switched to, and the scene length at the switch. -/
abbrev SurfaceStarts (S : Type*) := List (S × ℕ)

namespace SurfaceStarts

variable {S : Type*}

def current (starts : SurfaceStarts S) : Option S := starts.getLast?.map Prod.fst

def switchTo [DecidableEq S] (starts : SurfaceStarts S) (surface : S) (sceneLen : ℕ) :
    SurfaceStarts S :=
  if starts.current = some surface then starts else starts ++ [(surface, sceneLen)]

/-- The stretches a scene is split into along its starts, which have to be in its order. -/
def composedRanges : SurfaceStarts S → ℕ → Option (List (S × ℕ × ℕ))
  | [], _ => some []
  | (surface, start) :: starts, sceneLen =>
    let stop := (starts.head?.map Prod.snd).getD sceneLen
    if stop < start ∨ sceneLen < stop then none
    else (composedRanges starts sceneLen).map fun ranges =>
      if start < stop then (surface, start, stop) :: ranges else ranges

/-- The surface whose stretch an operation of the scene lies in. -/
def surfaceAt (ranges : List (S × ℕ × ℕ)) (index : ℕ) : Option S :=
  (ranges.find? fun range => range.2.1 ≤ index ∧ index < range.2.2).map Prod.fst

end SurfaceStarts

/-- What a painted view leaves: the range of the scene it painted, and how many of the records
after it are nested in it. -/
structure PaintRecord (V : Type*) where
  id : V
  start : ℕ
  stop : ℕ
  nested : ℕ

/-- A record copied from `source` on to `target`. -/
def PaintRecord.shifted {V : Type*} (source target : ℕ) (record : PaintRecord V) : PaintRecord V :=
  { record with start := record.start - source + target, stop := record.stop - source + target }

/-- What painting does: operations, scopes painted on another surface, and views, each followed by
the rest. A view that leaves no record is what it paints, as is a scroll layer, in which scopes
paint where the layer does. -/
inductive Painting (S O A : Type*) where
  | done
  | operation (operation : O) (rest : Painting S O A)
  | scope (surface : S) (content rest : Painting S O A)
  | view (view : A) (content rest : Painting S O A)

/-- How a view is drawn: painted, or from the record it left last frame, whole or around the dirty
views nested in it. -/
inductive ViewPrepaint where
  | built
  | reused (previous : ℕ)
  | spliced (previous : ℕ)

/-- A view of the frame being drawn. Whether it is dirty only matters inside a spliced view. -/
structure DrawnView (V : Type*) where
  id : V
  dirty : Bool
  how : ViewPrepaint

/-- A frame's scene, where its stretches are presented, and the records of its views. -/
structure PaintedFrame (S O V : Type*) where
  scene : List O
  starts : SurfaceStarts S
  records : List (PaintRecord V)

namespace PaintedFrame

variable {S O V : Type*} [DecidableEq S]

def empty : PaintedFrame S O V := ⟨[], [], []⟩

def insertOperation (frame : PaintedFrame S O V) (operation : O) : PaintedFrame S O V :=
  { frame with scene := frame.scene ++ [operation] }

def switchSurface (frame : PaintedFrame S O V) (surface : S) : PaintedFrame S O V :=
  { frame with starts := frame.starts.switchTo surface frame.scene.length }

def withCompositionSurface (frame : PaintedFrame S O V) (composition : Composition S)
    (surface : S) (paint : PaintedFrame S O V → PaintedFrame S O V) : PaintedFrame S O V :=
  if composition.kind surface = some .gpui then
    match frame.starts.current with
    | none => frame
    | some previousSurface =>
      (paint (frame.switchSurface surface)).switchSurface previousSurface
  else frame

/-- Carries the switches the last frame made within a range into the frame being drawn, and leaves
painting on the surface it was on before. -/
def reuseStarts (next rendered : PaintedFrame S O V) (start stop : ℕ) : SurfaceStarts S :=
  let first := (rendered.starts.takeWhile (·.2 < start)).length
  let last := (rendered.starts.takeWhile (·.2 < stop)).length
  if first = last then next.starts
  else
    match next.starts.current with
    | none => next.starts
    | some surface =>
      let offset := next.scene.length
      let reused := (rendered.starts.drop first).take (last - first)
      (reused.foldl (fun starts entry => starts.switchTo entry.1 (entry.2 - start + offset))
        next.starts).switchTo surface (offset + (stop - start))

/-- Draws a range of the last frame's scene again. -/
def reusePaint (next rendered : PaintedFrame S O V) (start stop : ℕ) : PaintedFrame S O V :=
  { next with
    starts := next.reuseStarts rendered start stop
    scene := next.scene ++ (rendered.scene.drop start).take (stop - start) }

def reuseStretch (next rendered : PaintedFrame S O V) (start stop firstRecord lastRecord : ℕ) :
    PaintedFrame S O V :=
  let copied := (rendered.records.drop firstRecord).take (lastRecord - firstRecord)
  { next.reusePaint rendered start stop with
    records := next.records ++ copied.map (PaintRecord.shifted start next.scene.length) }

def recordPaint (next : PaintedFrame S O V) (id : V)
    (paint : PaintedFrame S O V → PaintedFrame S O V) : PaintedFrame S O V :=
  let index := next.records.length
  let start := next.scene.length
  let painted := paint { next with records := next.records ++ [⟨id, start, start, 0⟩] }
  { painted with
    records := painted.records.set index
      ⟨id, start, painted.scene.length, painted.records.length - index - 1⟩ }

def reuseRetainedPaint (next rendered : PaintedFrame S O V) (previous : ℕ) : PaintedFrame S O V :=
  match rendered.records[previous]? with
  | none => next
  | some record =>
    next.reuseStretch rendered record.start record.stop previous (previous + record.nested + 1)

end PaintedFrame

/-- A view being painted around its gaps: the frame, the end of the last gap in the last frame's
scene and records, and the record of the next nested view. -/
structure Splicing (S O V : Type*) where
  next : PaintedFrame S O V
  cursor : ℕ
  nextRecord : ℕ
  index : ℕ

namespace Splicing

variable {S O V : Type*} [DecidableEq S]

/-- Passes a nested view that is copied. -/
def skip (rendered : PaintedFrame S O V) (splicing : Splicing S O V) : Splicing S O V :=
  match rendered.records[splicing.index]? with
  | none => splicing
  | some record => { splicing with index := splicing.index + record.nested + 1 }

/-- Copies what lies before a nested view and paints that view where it was. -/
def gap (rendered : PaintedFrame S O V) (paint : PaintedFrame S O V → PaintedFrame S O V)
    (splicing : Splicing S O V) : Splicing S O V :=
  match rendered.records[splicing.index]? with
  | none => splicing
  | some record =>
    { next := paint (splicing.next.reuseStretch rendered splicing.cursor record.start
        splicing.nextRecord splicing.index)
      cursor := record.stop
      nextRecord := splicing.index + record.nested + 1
      index := splicing.index + record.nested + 1 }

end Splicing

namespace PaintedFrame

variable {S O V : Type*} [DecidableEq S]

def splicePaint (next rendered : PaintedFrame S O V) (previous : ℕ)
    (gaps : Splicing S O V → Splicing S O V) : PaintedFrame S O V :=
  match rendered.records[previous]? with
  | none => next
  | some record =>
    next.recordPaint record.id fun opened =>
      let spliced := gaps ⟨opened, record.start, previous + 1, previous + 1⟩
      spliced.next.reuseStretch rendered spliced.cursor record.stop spliced.nextRecord
        (previous + record.nested + 1)

def paintView (next rendered : PaintedFrame S O V) (view : DrawnView V)
    (element : PaintedFrame S O V → PaintedFrame S O V) (gaps : Splicing S O V → Splicing S O V) :
    PaintedFrame S O V :=
  match view.how with
  | .built => next.recordPaint view.id element
  | .reused previous => next.reuseRetainedPaint rendered previous
  | .spliced previous => next.splicePaint rendered previous gaps

end PaintedFrame

namespace Painting

variable {S O V : Type*} [DecidableEq S]

mutual

def paint (composition : Composition S) (rendered : PaintedFrame S O V) :
    Painting S O (DrawnView V) → PaintedFrame S O V → PaintedFrame S O V
  | .done, next => next
  | .operation op rest, next =>
    rest.paint composition rendered (next.insertOperation op)
  | .scope surface content rest, next =>
    rest.paint composition rendered
      (next.withCompositionSurface composition surface (content.paint composition rendered))
  | .view drawn content rest, next =>
    rest.paint composition rendered
      (next.paintView rendered drawn (content.paint composition rendered)
        (content.paintGaps composition rendered))

/-- Paints the dirty views among those nested directly in a spliced view, and what is copied
between them. -/
def paintGaps (composition : Composition S) (rendered : PaintedFrame S O V) :
    Painting S O (DrawnView V) → Splicing S O V → Splicing S O V
  | .done, splicing => splicing
  | .operation _ rest, splicing => rest.paintGaps composition rendered splicing
  | .scope surface content rest, splicing =>
    rest.paintGaps composition rendered
      (if composition.kind surface = some .gpui then
        content.paintGaps composition rendered splicing
      else splicing)
  | .view drawn content rest, splicing =>
    rest.paintGaps composition rendered
      (if drawn.dirty then
        splicing.gap rendered fun next =>
          next.paintView rendered drawn (content.paint composition rendered)
            (content.paintGaps composition rendered)
      else splicing.skip rendered)

end

end Painting

/-- What a frame paints: the root view on the base surface, deferred and window-level draws on the
overlay surface. -/
structure FrameDraw (S O V : Type*) where
  base : Painting S O (DrawnView V)
  overlay : Painting S O (DrawnView V)

namespace PaintedFrame

variable {S O V : Type*} [DecidableEq S]

def beginBase (composition : Composition S) (frame : PaintedFrame S O V) : PaintedFrame S O V :=
  frame.switchSurface composition.baseSurface

def beginOverlay (composition : Composition S) (frame : PaintedFrame S O V) : PaintedFrame S O V :=
  frame.switchSurface composition.overlaySurface

def drawFrame (composition : Composition S) (rendered : PaintedFrame S O V)
    (draw : FrameDraw S O V) : PaintedFrame S O V :=
  draw.overlay.paint composition rendered
    ((draw.base.paint composition rendered
      ((empty : PaintedFrame S O V).beginBase composition)).beginOverlay composition)

def run (composition : Composition S) (draws : List (FrameDraw S O V)) : PaintedFrame S O V :=
  draws.foldl (fun rendered draw => drawFrame composition rendered draw) empty

def presented (frame : PaintedFrame S O V) : Option (List (O × Option S)) :=
  (frame.starts.composedRanges frame.scene.length).map fun ranges =>
    frame.scene.zipIdx.map fun entry => (entry.1, SurfaceStarts.surfaceAt ranges entry.2)

end PaintedFrame

namespace Painting

variable {S O V A : Type*}

def contents : Painting S O (DrawnView V) → Painting S O V
  | .done => .done
  | .operation op rest => .operation op rest.contents
  | .scope surface content rest => .scope surface content.contents rest.contents
  | .view drawn content rest => .view drawn.id content.contents rest.contents

def built : Painting S O (DrawnView V) → Painting S O (DrawnView V)
  | .done => .done
  | .operation op rest => .operation op rest.built
  | .scope surface content rest => .scope surface content.built rest.built
  | .view drawn content rest => .view { drawn with how := .built } content.built rest.built

/-- How many views leave a record. -/
def count (composition : Composition S) : Painting S O A → ℕ
  | .done => 0
  | .operation _ rest => rest.count composition
  | .scope surface content rest =>
    (if composition.kind surface = some .gpui then content.count composition else 0) +
      rest.count composition
  | .view _ content rest => content.count composition + 1 + rest.count composition

def recorded? (composition : Composition S) (surface : S) :
    Painting S O V → ℕ → Option (S × V × Painting S O V)
  | .done, _ => none
  | .operation _ rest, index => rest.recorded? composition surface index
  | .scope inner content rest, index =>
    if composition.kind inner = some .gpui then
      if index < content.count composition then content.recorded? composition inner index
      else rest.recorded? composition surface (index - content.count composition)
    else rest.recorded? composition surface index
  | .view drawn content rest, index =>
    if index = 0 then some (surface, drawn, content)
    else if index - 1 < content.count composition then
      content.recorded? composition surface (index - 1)
    else rest.recorded? composition surface (index - 1 - content.count composition)

def SameAround : Painting S O V → Painting S O (DrawnView V) → Prop
  | .done, .done => True
  | .operation before rest, .operation op rest' => before = op ∧ rest.SameAround rest'
  | .scope before content rest, .scope surface content' rest' =>
    before = surface ∧ content.SameAround content' ∧ rest.SameAround rest'
  | .view before content rest, .view drawn content' rest' =>
    before = drawn.id ∧ (drawn.dirty = false → content = content'.contents) ∧
      rest.SameAround rest'
  | _, _ => False

/-- What a view of the last frame was painted on and painted, by its record. -/
abbrev Recorded (S O V : Type*) := ℕ → Option (S × V × Painting S O V)

def ViewUnchanged (last : Recorded S O V) (view : DrawnView V)
    (content : Painting S O (DrawnView V)) (element gaps : Prop) : Prop :=
  match view.how with
  | .built => element
  | .reused previous => ∃ surface, last previous = some (surface, view.id, content.contents)
  | .spliced previous =>
    ∃ surface before, last previous = some (surface, view.id, before) ∧
      before.SameAround content ∧ gaps

def ViewStays (last : Recorded S O V) (view : DrawnView V) (surface : S) (element gaps : Prop) :
    Prop :=
  match view.how with
  | .built => element
  | .reused previous => ∀ entry, last previous = some entry → entry.1 = surface
  | .spliced previous => (∀ entry, last previous = some entry → entry.1 = surface) ∧ gaps

mutual

def Unchanged (composition : Composition S) (last : Recorded S O V) :
    Painting S O (DrawnView V) → Prop
  | .done => True
  | .operation _ rest => rest.Unchanged composition last
  | .scope surface content rest =>
    (composition.kind surface = some .gpui → content.Unchanged composition last) ∧
      rest.Unchanged composition last
  | .view drawn content rest =>
    ViewUnchanged last drawn content (content.Unchanged composition last)
      (content.GapsUnchanged composition last) ∧ rest.Unchanged composition last

def GapsUnchanged (composition : Composition S) (last : Recorded S O V) :
    Painting S O (DrawnView V) → Prop
  | .done => True
  | .operation _ rest => rest.GapsUnchanged composition last
  | .scope surface content rest =>
    (composition.kind surface = some .gpui → content.GapsUnchanged composition last) ∧
      rest.GapsUnchanged composition last
  | .view drawn content rest =>
    (drawn.dirty = true → ViewUnchanged last drawn content (content.Unchanged composition last)
      (content.GapsUnchanged composition last)) ∧ rest.GapsUnchanged composition last

end

mutual

def Stays (composition : Composition S) (last : Recorded S O V) :
    S → Painting S O (DrawnView V) → Prop
  | _, .done => True
  | surface, .operation _ rest => rest.Stays composition last surface
  | surface, .scope inner content rest =>
    (composition.kind inner = some .gpui → content.Stays composition last inner) ∧
      rest.Stays composition last surface
  | surface, .view drawn content rest =>
    ViewStays last drawn surface (content.Stays composition last surface)
      (content.GapsStay composition last surface surface) ∧ rest.Stays composition last surface

/-- The same of the gaps of a view spliced on `home`. -/
def GapsStay (composition : Composition S) (last : Recorded S O V) (home : S) :
    S → Painting S O (DrawnView V) → Prop
  | _, .done => True
  | surface, .operation _ rest => rest.GapsStay composition last home surface
  | surface, .scope inner content rest =>
    (composition.kind inner = some .gpui → content.GapsStay composition last home inner) ∧
      rest.GapsStay composition last home surface
  | surface, .view drawn content rest =>
    (drawn.dirty = true → surface = home ∧
      ViewStays last drawn surface (content.Stays composition last surface)
        (content.GapsStay composition last surface surface)) ∧
      rest.GapsStay composition last home surface

end

end Painting

namespace FrameDraw

variable {S O V : Type*}

def painting (composition : Composition S) (draw : FrameDraw S O V) : Painting S O (DrawnView V) :=
  .scope composition.baseSurface draw.base (.scope composition.overlaySurface draw.overlay .done)

def recorded (composition : Composition S) (draw : FrameDraw S O V) : Painting.Recorded S O V :=
  (draw.painting composition).contents.recorded? composition composition.overlaySurface

def built (draw : FrameDraw S O V) : FrameDraw S O V := ⟨draw.base.built, draw.overlay.built⟩

def Unchanged (composition : Composition S) (last : Painting.Recorded S O V)
    (draw : FrameDraw S O V) : Prop :=
  (draw.painting composition).Unchanged composition last

def Stays (composition : Composition S) (last : Painting.Recorded S O V)
    (draw : FrameDraw S O V) : Prop :=
  (draw.painting composition).Stays composition last composition.overlaySurface

def Each (composition : Composition S)
    (condition : Painting.Recorded S O V → FrameDraw S O V → Prop) :
    Painting.Recorded S O V → List (FrameDraw S O V) → Prop
  | _, [] => True
  | last, draw :: draws =>
    condition last draw ∧ Each composition condition (draw.recorded composition) draws

end FrameDraw

end GpuiFast
