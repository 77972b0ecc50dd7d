import GpuiFast.ClickableStretches
import GpuiFast.LayerCovers

/-! A hitbox inserted while a layer's content is prepainted is clipped to the viewport, and its content
mask before that is noted: for a list's rows with the list's own clip taken out again, by the edges
the mask shares with the viewport. A frame that composites the layer carries the hitboxes moved by
the scroll under the masks noted, clipped to the viewport. Content is what its elements insert and
the clips they set, where they lie before it scrolls. -/

namespace GpuiFast

namespace LayerInput

inductive HitboxBehavior where
  | normal | blockMouse | blockMouseExceptScroll

structure Hitbox (K : Type*) where
  id : ℕ
  bounds : Bounds K
  contentMask : Bounds K
  behavior : HitboxBehavior

structure PaintingInput (K : Type*) where
  hitboxMasks : List (Bounds K)
  listRegion : Option (Bounds K)

structure LayerPainting (K : Type*) where
  viewport : Bounds K
  paintedRegion : Bounds K
  input : PaintingInput K

structure HitboxWindow (K : Type*) where
  contentMaskStack : List (Bounds K)
  viewportSize : Size K
  painting : Option (LayerPainting K)
  hitboxes : List (Hitbox K)
  nextHitboxId : ℕ

structure Prepainted (K : Type*) where
  inserted : List (Hitbox K)
  masks : List (Bounds K)

inductive HitboxContent (K : Type*) where
  | nil
  | hitbox (bounds : Bounds K) (behavior : HitboxBehavior) (rest : HitboxContent K)
  | clip (mask : Bounds K) (inner rest : HitboxContent K)

variable {K : Type*} [Field K] [LinearOrder K]

def Hitbox.hit (hitbox : Hitbox K) (position : Point K) : Bool :=
  (hitbox.bounds.intersect hitbox.contentMask).contains position

def pick (edge viewport region : K) : K := if edge = viewport then region else edge

def unclip (mask viewport region : Bounds K) : Bounds K :=
  Bounds.fromCorners
    ⟨pick mask.origin.x viewport.origin.x (min region.origin.x viewport.origin.x),
      pick mask.origin.y viewport.origin.y (min region.origin.y viewport.origin.y)⟩
    ⟨pick mask.bottomRight.x viewport.bottomRight.x
        (max region.bottomRight.x viewport.bottomRight.x),
      pick mask.bottomRight.y viewport.bottomRight.y
        (max region.bottomRight.y viewport.bottomRight.y)⟩

def LayerPainting.noted (painting : LayerPainting K) (mask : Bounds K) : Bounds K :=
  match painting.input.listRegion with
  | some region => unclip mask painting.viewport region
  | none => mask

namespace HitboxWindow

def contentMask (w : HitboxWindow K) : Bounds K :=
  w.contentMaskStack.head?.getD ⟨⟨0, 0⟩, w.viewportSize⟩

def hitboxMask (w : HitboxWindow K) : Bounds K × HitboxWindow K :=
  match w.painting with
  | none => (w.contentMask, w)
  | some painting =>
    (w.contentMask.intersect painting.viewport,
      { w with painting := some { painting with input := { painting.input with
          hitboxMasks := painting.input.hitboxMasks ++ [painting.noted w.contentMask] } } })

def insertHitbox (w : HitboxWindow K) (bounds : Bounds K) (behavior : HitboxBehavior) :
    HitboxWindow K :=
  let (contentMask, w) := w.hitboxMask
  { w with
    hitboxes := w.hitboxes ++ [⟨w.nextHitboxId, bounds, contentMask, behavior⟩]
    nextHitboxId := (w.nextHitboxId + 1) % 2 ^ 64 }

def prepaint (scrollOffset : Point K) : HitboxContent K → HitboxWindow K → HitboxWindow K
  | .nil, w => w
  | .hitbox bounds behavior rest, w =>
    prepaint scrollOffset rest (w.insertHitbox (bounds.translate scrollOffset) behavior)
  | .clip mask inner rest, w =>
    let mask := (mask.translate scrollOffset).intersect w.contentMask
    let w := prepaint scrollOffset inner { w with contentMaskStack := mask :: w.contentMaskStack }
    prepaint scrollOffset rest { w with contentMaskStack := w.contentMaskStack.tail }

def since (w before : HitboxWindow K) : Prepainted K where
  inserted := w.hitboxes.drop before.hitboxes.length
  masks := ((w.painting.map (·.input.hitboxMasks)).getD []).drop
    ((before.painting.map (·.input.hitboxMasks.length)).getD 0)

end HitboxWindow

structure ScrolledDiv (K : Type*) where
  content : Bounds K
  overflowX : Overflow
  overflowY : Overflow

def ScrolledDiv.paintedRegion (div : ScrolledDiv K) (viewport : Bounds K)
    (scrollOffset : Point K) : Bounds K :=
  ScrollLayer.paintedRegion viewport (div.content.translate scrollOffset) div.overflowX
    div.overflowY

def REACH : K := 1000000

def rowsRegion (paintedRegion viewport : Bounds K) : Bounds K :=
  let region := paintedRegion.union viewport
  Bounds.fromCorners ⟨region.origin.x, region.origin.y - REACH⟩
    ⟨region.bottomRight.x, region.bottomRight.y + REACH⟩

namespace HitboxWindow

def prepaintChildren (w : HitboxWindow K) (div : ScrolledDiv K) (scrollOffset : Point K)
    (content : HitboxContent K) : HitboxWindow K × Prepainted K :=
  let region := div.paintedRegion w.contentMask scrollOffset
  let begun :=
    { w with
      painting := some ⟨w.contentMask, region, ⟨[], none⟩⟩
      contentMaskStack := region :: w.contentMaskStack }
  let ended := prepaint scrollOffset content begun
  ({ ended with painting := none, contentMaskStack := ended.contentMaskStack.tail },
    ended.since begun)

/-- Begins to prepaint rows into the layer of a list laid out at bounds. A uniform list's bounds hold
the content mask it is under. -/
def beginList (w : HitboxWindow K) (bounds paintedRegion : Bounds K) : HitboxWindow K :=
  let viewport := w.contentMask.intersect bounds
  { w with
    painting := some
      ⟨viewport, paintedRegion, ⟨[], some (rowsRegion paintedRegion viewport)⟩⟩ }

def prepaintRow (w : HitboxWindow K) (bounds : Bounds K) (scrollOffset : Point K)
    (row : HitboxContent K) : HitboxWindow K × Prepainted K :=
  let clipped :=
    { w with contentMaskStack := bounds.intersect w.contentMask :: w.contentMaskStack }
  let ended := prepaint scrollOffset row clipped
  ({ ended with contentMaskStack := ended.contentMaskStack.tail }, ended.since w)

def prepaintRows (w : HitboxWindow K) (bounds : Bounds K) (scrollOffset : Point K)
    (rows : List (HitboxContent K)) : HitboxWindow K :=
  rows.foldl (fun w row => (w.prepaintRow bounds scrollOffset row).1) w

end HitboxWindow

def Prepainted.hitboxes (prepainted : Prepainted K) : List (Hitbox K) :=
  if prepainted.masks.length = prepainted.inserted.length then
    List.zipWith (fun hitbox mask => { hitbox with contentMask := mask })
      prepainted.inserted prepainted.masks
  else prepainted.inserted

def hitboxesAt (hitboxes : List (Hitbox K)) (delta : Point K) (viewport : Bounds K) :
    List (Hitbox K) :=
  hitboxes.map (fun hitbox =>
    { hitbox with
      bounds := hitbox.bounds.translate delta
      contentMask := (hitbox.contentMask.translate delta).intersect viewport })

def HitsAlike (painted fresh : Prepainted K) (delta : Point K) (viewport : Bounds K) (i : ℕ) :
    Prop :=
  ∃ carried inserted, (hitboxesAt painted.hitboxes delta viewport)[i]? = some carried ∧
    fresh.inserted[i]? = some inserted ∧ ∀ p, carried.hit p = inserted.hit p

structure HitboxNest (K : Type*) where
  bounds : Bounds K
  clips : List (Bounds K)

def HitboxContent.nests : HitboxContent K → List (HitboxNest K)
  | .nil => []
  | .hitbox bounds _ rest => ⟨bounds, []⟩ :: rest.nests
  | .clip mask inner rest =>
    inner.nests.map (fun nest => { nest with clips := mask :: nest.clips }) ++ rest.nests

namespace HitboxNest

def translate (nest : HitboxNest K) (scrollOffset : Point K) : HitboxNest K :=
  ⟨nest.bounds.translate scrollOffset, nest.clips.map (·.translate scrollOffset)⟩

def maskIn (nest : HitboxNest K) (mask : Bounds K) : Bounds K :=
  nest.clips.foldl (fun mask clip => clip.intersect mask) mask

def Within (nest : HitboxNest K) (position : Point K) : Prop :=
  ∀ clip ∈ nest.clips, clip.HasPoint position

def ShowsPainted (nest : HitboxNest K) (viewport region : Bounds K) (delta : Point K) : Prop :=
  ∀ p, nest.bounds.HasPoint p → viewport.HasPoint ⟨p.x + delta.x, p.y + delta.y⟩ →
    nest.Within p → region.HasPoint p

end HitboxNest

/-- Where taking a viewport out of a clip inside it errs: past an edge of the clip that was at or
beyond the viewport's, or all over a clip that lay beyond the viewport. -/
def Misclips (viewportTop viewportBottom regionTop regionBottom top bottom y : K) : Prop :=
  (top ≤ viewportTop ∧ regionTop ≤ y ∧ y < top) ∨
    (bottom < viewportTop ∧ bottom ≤ y ∧ y < viewportTop) ∨
    (top ≤ viewportBottom ∧ viewportBottom ≤ bottom ∧ bottom ≤ y ∧ y < regionBottom) ∨
    (viewportBottom < top ∧ top ≤ y ∧ y < bottom)

/-- Whether nothing that shows of a row's hitbox once the row moved lies where its clip was taken
wrong, or out of reach of the rows. -/
def HitboxNest.KeepsClips (nest : HitboxNest K) (viewport region : Bounds K) (delta : Point K) :
    Prop :=
  ∀ p, nest.bounds.HasPoint p → viewport.HasPoint ⟨p.x + delta.x, p.y + delta.y⟩ →
    (nest.maskIn region).origin.x ≤ p.x → p.x < (nest.maskIn region).bottomRight.x →
    ¬ Misclips viewport.origin.y viewport.bottomRight.y region.origin.y region.bottomRight.y
        (nest.maskIn region).origin.y (nest.maskIn region).bottomRight.y p.y ∧
      (nest.Within p → region.HasPoint p)

end LayerInput

end GpuiFast
