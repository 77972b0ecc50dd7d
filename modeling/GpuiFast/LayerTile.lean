import GpuiFast.SceneOrder

/-! A scroll layer's content is rasterized tile by tile, each tile from a scene of its own: the
operations of the content, without the primitives that cannot be seen over the tile, moved into
the tile's space. -/

namespace GpuiFast

variable {K P : Type*} [Field K]

def TILE_SIZE : ℕ := 512

namespace TransformationMatrix

def unit : TransformationMatrix K := ⟨((1, 0), (0, 1)), (0, 0)⟩

/-- The transformation of a sprite moved by `delta`. -/
def moved (m : TransformationMatrix K) (delta : Point K) : TransformationMatrix K :=
  let r := m.rotationScale
  { m with
    translation :=
      (m.translation.1 + (delta.x - (r.1.1 * delta.x + r.1.2 * delta.y)),
        m.translation.2 + (delta.y - (r.2.1 * delta.x + r.2.2 * delta.y))) }

def apply (m : TransformationMatrix K) (p : Point K) : Point K :=
  let r := m.rotationScale
  ⟨r.1.1 * p.x + r.1.2 * p.y + m.translation.1, r.2.1 * p.x + r.2.2 * p.y + m.translation.2⟩

end TransformationMatrix

/-- Every position a shape carries, moved by `delta`. -/
def Shape.moved (delta : Point K) : Shape K → Shape K
  | .shadow blurRadius elementBounds inset =>
    .shadow blurRadius (elementBounds.translate delta) inset
  | .quad => .quad
  | .path => .path
  | .underline => .underline
  | .monochromeSprite tile transformation =>
    .monochromeSprite tile (transformation.moved delta)
  | .subpixelSprite tile transformation => .subpixelSprite tile (transformation.moved delta)
  | .polychromeSprite tile => .polychromeSprite tile
  | .surface => .surface

def translatePrimitive (p : Primitive K P) (delta : Point K) : Primitive K P :=
  { p with
    shape := p.shape.moved delta
    bounds := p.bounds.translate delta
    contentMask := p.contentMask.translate delta }

def SceneOp.translate (delta : Point K) : SceneOp K P → SceneOp K P
  | .insertPrimitive primitive => .insertPrimitive (translatePrimitive primitive delta)
  | .pushLayer bounds => .pushLayer (bounds.translate delta)
  | .popLayer => .popLayer

variable [LinearOrder K]

/-- The smallest rectangle holding `bounds` transformed by `matrix`. -/
def transformedBounds (bounds : Bounds K) (matrix : TransformationMatrix K) : Bounds K :=
  if matrix = .unit then bounds
  else
    let x0 := bounds.origin.x
    let y0 := bounds.origin.y
    let x1 := x0 + bounds.size.width
    let y1 := y0 + bounds.size.height
    let a := matrix.apply ⟨x0, y0⟩
    let b := matrix.apply ⟨x1, y0⟩
    let c := matrix.apply ⟨x0, y1⟩
    let d := matrix.apply ⟨x1, y1⟩
    .fromCorners ⟨min (min (min a.x b.x) c.x) d.x, min (min (min a.y b.y) c.y) d.y⟩
      ⟨max (max (max a.x b.x) c.x) d.x, max (max (max a.y b.y) c.y) d.y⟩

/-- Where a primitive can draw, its content mask aside. -/
def drawnBounds (p : Primitive K P) : Bounds K :=
  match p.shape with
  | .shadow _ elementBounds true => elementBounds
  | .shadow blurRadius _ false =>
    let margin := 3 * max blurRadius 0
    ⟨⟨p.bounds.origin.x - margin, p.bounds.origin.y - margin⟩,
      ⟨p.bounds.size.width + margin * 2, p.bounds.size.height + margin * 2⟩⟩
  | .monochromeSprite _ transformation | .subpixelSprite _ transformation =>
    transformedBounds p.bounds transformation
  | .quad | .path | .underline | .polychromeSprite _ | .surface => p.bounds

def visibleBounds (p : Primitive K P) : Bounds K := (drawnBounds p).intersect p.contentMask

/-- Operations that close the layers they open, and no others. -/
inductive Balanced : List (SceneOp K P) → Prop
  | nil : Balanced []
  | insertPrimitive (primitive : Primitive K P) : Balanced [.insertPrimitive primitive]
  | layer (bounds : Bounds K) {ops : List (SceneOp K P)} :
    Balanced ops → Balanced (.pushLayer bounds :: ops ++ [.popLayer])
  | append {ops ops' : List (SceneOp K P)} : Balanced ops → Balanced ops' → Balanced (ops ++ ops')

/-- Where the primitives of some operations can draw, if anywhere: the second value of
`part_tile_hashes`. -/
def reach (ops : List (SceneOp K P)) : Option (Bounds K) :=
  ops.foldl (fun reach op =>
    match op with
    | .insertPrimitive primitive =>
      let visible := visibleBounds primitive
      if visible.isEmpty then reach
      else some ((reach.map (·.union visible)).getD visible)
    | .pushLayer _ | .popLayer => reach) none

/-- A part of a layer's content: the paint operations of a scene, and where they can draw if that
was worked out. -/
structure LayerPart (K P : Type*) [Field K] [LinearOrder K] where
  bounds : Option (Bounds K)
  operations : List (SceneOp K P)
  recorded : ∀ op ∈ operations, op.recorded = true
  balanced : Balanced operations
  bounds_eq : bounds = none ∨ bounds = some ((reach operations).getD ⟨⟨0, 0⟩, ⟨0, 0⟩⟩)

abbrev LayerContent (K P : Type*) [Field K] [LinearOrder K] := List (LayerPart K P)

structure TileCoord where
  x : ℤ
  y : ℤ
  deriving DecidableEq

namespace LayerContent

def operations (content : LayerContent K P) : List (SceneOp K P) :=
  content.flatMap (·.operations)

/-- Whether a part can draw over `bounds`. -/
def reachesOver (bounds : Bounds K) (part : LayerPart K P) : Bool :=
  part.bounds.all (·.intersects bounds)

/-- Whether the tile of `bounds` keeps an operation of a part that can draw over it. -/
def keeps (bounds : Bounds K) : SceneOp K P → Bool
  | .insertPrimitive primitive => (visibleBounds primitive).intersects bounds
  | .pushLayer _ | .popLayer => true

/-- The operations a tile's scene is made of, with their places in the content, parts starting at
`place`. -/
def kept (bounds : Bounds K) : (place : ℕ) → LayerContent K P → List (SceneOp K P × ℕ)
  | _, [] => []
  | place, part :: parts =>
    (if reachesOver bounds part then
      (part.operations.zipIdx place).filter (fun e => keeps bounds e.1) else []) ++
      kept bounds (place + part.operations.length) parts

end LayerContent

structure LayerFrame (K P : Type*) [Field K] [LinearOrder K] where
  tileSize : ℕ
  content : LayerContent K P

namespace LayerFrame

def tileBounds (frame : LayerFrame K P) (tile : TileCoord) : Bounds K :=
  ⟨⟨tile.x * frame.tileSize, tile.y * frame.tileSize⟩, ⟨frame.tileSize, frame.tileSize⟩⟩

def tileDelta (frame : LayerFrame K P) (tile : TileCoord) : Point K :=
  ⟨-(frame.tileBounds tile).origin.x, -(frame.tileBounds tile).origin.y⟩

variable [FloorRing K]

def tileScene (frame : LayerFrame K P) (tile : TileCoord) : Scene K P :=
  (Scene.default.run ((frame.content.kept (frame.tileBounds tile) 0).map
    (fun e => e.1.translate (frame.tileDelta tile)))).finish

def tileDrawing (frame : LayerFrame K P) (tile : TileCoord) : List ℕ :=
  (frame.tileScene tile).drawing.filterMap
    (fun x => (frame.content.kept (frame.tileBounds tile) 0)[x.place]?.map (·.2))

def contentDrawing (frame : LayerFrame K P) : List ℕ :=
  (Scene.default.run frame.content.operations).finish.drawing.map (·.place)

end LayerFrame

end GpuiFast
