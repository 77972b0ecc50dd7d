import GpuiFast.BoundsTree
import GpuiFast.StableSort

/-! A frame's primitives with their draw orders, sorted kind by kind when the scene is finished and
merged into batches to draw. Draw orders are unbounded here, so what stands for the missing order
of an exhausted kind is `⊤`, and a key packed into one integer is a lexicographic tuple. Rounded
clips are left out: with none recorded they do not touch a scene. What only the renderer reads
of a primitive is its `rest`. -/

namespace GpuiFast

inductive PrimitiveKind where
  | shadow | quad | path | underline | monochromeSprite | subpixelSprite | polychromeSprite | surface
  deriving DecidableEq

namespace PrimitiveKind

/-- The kinds as `next` lists them. -/
def all : List PrimitiveKind :=
  [.shadow, .quad, .path, .underline, .monochromeSprite, .subpixelSprite, .polychromeSprite,
    .surface]

def rank : PrimitiveKind → ℕ
  | .shadow => 0
  | .quad => 1
  | .path => 2
  | .underline => 3
  | .monochromeSprite => 4
  | .subpixelSprite => 5
  | .polychromeSprite => 6
  | .surface => 7

def isSprite : PrimitiveKind → Bool
  | .monochromeSprite | .subpixelSprite | .polychromeSprite => true
  | .shadow | .quad | .path | .underline | .surface => false

end PrimitiveKind

inductive AtlasTextureKind where
  | monochrome | polychrome | subpixel
  deriving DecidableEq

structure AtlasTextureId where
  index : ℕ
  kind : AtlasTextureKind
  deriving DecidableEq

structure AtlasTile where
  textureId : AtlasTextureId
  tileId : ℕ
  deriving DecidableEq

structure TransformationMatrix (K : Type*) where
  rotationScale : (K × K) × (K × K)
  translation : K × K
  deriving DecidableEq

/-- What a primitive of each kind has besides bounds and content mask. -/
inductive Shape (K : Type*) where
  | shadow (blurRadius : K) (elementBounds : Bounds K) (inset : Bool)
  | quad
  | path
  | underline
  | monochromeSprite (tile : AtlasTile) (transformation : TransformationMatrix K)
  | subpixelSprite (tile : AtlasTile) (transformation : TransformationMatrix K)
  | polychromeSprite (tile : AtlasTile)
  | surface
  deriving DecidableEq

namespace Shape

variable {K : Type*}

def kind : Shape K → PrimitiveKind
  | .shadow _ _ _ => .shadow
  | .quad => .quad
  | .path => .path
  | .underline => .underline
  | .monochromeSprite _ _ => .monochromeSprite
  | .subpixelSprite _ _ => .subpixelSprite
  | .polychromeSprite _ => .polychromeSprite
  | .surface => .surface

def tile? : Shape K → Option AtlasTile
  | .monochromeSprite tile _ | .subpixelSprite tile _ | .polychromeSprite tile => some tile
  | .shadow _ _ _ | .quad | .path | .underline | .surface => none

end Shape

structure Primitive (K P : Type*) where
  shape : Shape K
  bounds : Bounds K
  contentMask : Bounds K
  rest : P
  deriving DecidableEq

/-- A primitive in a scene, with its draw order. Its place among the paint operations, and that of
the layer it was inserted in, tell it apart from others like it. -/
structure Placed (K P : Type*) where
  primitive : Primitive K P
  order : ℕ
  place : ℕ
  layer : Option ℕ
  deriving DecidableEq

inductive PaintOperation (K P : Type*) where
  | primitive (placed : Placed K P)
  | startLayer (bounds : Bounds K)
  | endLayer

variable {K P : Type*}

namespace Primitive

def kind (p : Primitive K P) : PrimitiveKind := p.shape.kind

def textureId? (p : Primitive K P) : Option AtlasTextureId := p.shape.tile?.map (·.textureId)

def spriteKey (p : Primitive K P) (order : ℕ) : ℕ ×ₗ ℕ ×ₗ ℕ :=
  match p.shape.tile? with
  | some tile => toLex (order, toLex (tile.textureId.index, tile.tileId))
  | none => toLex (order, toLex (0, 0))

end Primitive

def Placed.kind (x : Placed K P) : PrimitiveKind := x.primitive.kind

def Placed.spriteKey (x : Placed K P) : ℕ ×ₗ ℕ ×ₗ ℕ := x.primitive.spriteKey x.order

def PaintOperation.placed? : PaintOperation K P → Option (Placed K P)
  | .primitive placed => some placed
  | .startLayer _ | .endLayer => none

variable [Field K] [LinearOrder K] [FloorRing K]

def Primitive.clippedBounds (p : Primitive K P) : Bounds K := p.bounds.intersect p.contentMask

structure Scene (K P : Type*) where
  paintOperations : List (PaintOperation K P)
  primitiveBounds : BoundsTree K
  layerStack : List (ℕ × ℕ)
  /-- The primitives of each kind: the scene's `shadows`, `quads` and so on. -/
  primitives : PrimitiveKind → List (Placed K P)

namespace Scene

def default : Scene K P := ⟨[], .default, [], fun _ => []⟩

def clear (s : Scene K P) : Scene K P where
  paintOperations := []
  primitiveBounds := s.primitiveBounds.clear
  layerStack := []
  primitives := fun _ => []

def pushLayer (s : Scene K P) (bounds : Bounds K) : Scene K P :=
  let (primitiveBounds, order) := s.primitiveBounds.insert bounds
  { s with
    primitiveBounds := primitiveBounds
    layerStack := (order, s.paintOperations.length) :: s.layerStack
    paintOperations := s.paintOperations ++ [.startLayer bounds] }

def popLayer (s : Scene K P) : Scene K P :=
  { s with
    layerStack := s.layerStack.tail
    paintOperations := s.paintOperations ++ [.endLayer] }

def nextOrder (s : Scene K P) (clippedBounds : Bounds K) : BoundsTree K × ℕ × Option ℕ :=
  match s.layerStack with
  | (order, layer) :: _ => (s.primitiveBounds, order, some layer)
  | [] =>
    let (primitiveBounds, order) := s.primitiveBounds.insert clippedBounds
    (primitiveBounds, order, none)

def insertPrimitive (s : Scene K P) (primitive : Primitive K P) : Scene K P :=
  if primitive.clippedBounds.isEmpty then s
  else
    let (primitiveBounds, order, layer) := s.nextOrder primitive.clippedBounds
    let placed : Placed K P := ⟨primitive, order, s.paintOperations.length, layer⟩
    { s with
      primitiveBounds := primitiveBounds
      primitives := Function.update s.primitives placed.kind (s.primitives placed.kind ++ [placed])
      paintOperations := s.paintOperations ++ [.primitive placed] }

end Scene

def MAX_ORDERS_PER_PRIMITIVE : ℕ := 4

def inDrawOrder (previous : ℕ) : List ℕ → Bool
  | [] => true
  | order :: orders => previous ≤ order && inDrawOrder order orders

/-- Puts `items` in draw order, keeping the order they came in among those of one draw order. -/
def sortByDrawOrder {T : Type*} (items : List T) (drawOrder : T → ℕ) : List T :=
  let orders := items.map drawOrder
  let max := orders.foldl max 0
  if items.length < 2 then items
  else if inDrawOrder 0 orders then items
  else if items.length * MAX_ORDERS_PER_PRIMITIVE < max then
    StableSort.gather items (StableSort.orderByKeys orders)
  else StableSort.gather items (StableSort.orderByCounting orders max)

/-- Puts sprites in draw order, those of one draw order by texture and then by tile. -/
def sortSprites {T : Type*} (items : List T) (key : T → ℕ ×ₗ ℕ ×ₗ ℕ) : List T :=
  let wideKeys : List ((ℕ ×ₗ ℕ ×ₗ ℕ) ×ₗ ℕ) := (items.map key).zipIdx.map (fun e => toLex e)
  if items.length < 2 then items
  else if wideKeys.Pairwise (· ≤ ·) then items
  else StableSort.gather items (StableSort.orderByKeys (items.map key))

def Scene.finish (s : Scene K P) : Scene K P :=
  { s with
    primitives := fun kind =>
      if kind.isSprite then sortSprites (s.primitives kind) (·.spriteKey)
      else sortByDrawOrder (s.primitives kind) (·.order) }

structure PrimitiveBatch where
  kind : PrimitiveKind
  textureId : Option AtlasTextureId
  start : ℕ
  stop : ℕ

namespace BatchIterator

/-- The order of the next primitive of `kind`, and the kind: what the kinds are sorted by. -/
def peekKey (lists : PrimitiveKind → List (Placed K P)) (starts : PrimitiveKind → ℕ)
    (kind : PrimitiveKind) : WithTop ℕ ×ₗ ℕ :=
  toLex (((lists kind)[starts kind]?.map (fun x => (x.order : WithTop ℕ))).getD ⊤, kind.rank)

def next (lists : PrimitiveKind → List (Placed K P)) (starts : PrimitiveKind → ℕ) :
    Option PrimitiveBatch :=
  match PrimitiveKind.all.insertionSort
    (fun a b => peekKey lists starts a ≤ peekKey lists starts b) with
  | first :: second :: _ =>
    match (lists first)[starts first]? with
    | none => none
    | some head =>
      let limit := peekKey lists starts second
      let textureId := head.primitive.textureId?
      let more := ((lists first).drop (starts first + 1)).takeWhile (fun x =>
        toLex ((x.order : WithTop ℕ), first.rank) < limit ∧ x.primitive.textureId? = textureId)
      some ⟨first, textureId, starts first, starts first + 1 + more.length⟩
  | _ => none

def batches (lists : PrimitiveKind → List (Placed K P)) :
    (fuel : ℕ) → (starts : PrimitiveKind → ℕ) → List PrimitiveBatch
  | 0, _ => []
  | fuel + 1, starts =>
    match next lists starts with
    | none => []
    | some batch => batch :: batches lists fuel (Function.update starts batch.kind batch.stop)

end BatchIterator

namespace Scene

def batches (s : Scene K P) : List PrimitiveBatch :=
  BatchIterator.batches s.primitives
    (PrimitiveKind.all.map (fun kind => (s.primitives kind).length)).sum (fun _ => 0)

def drawn (s : Scene K P) (batch : PrimitiveBatch) : List (Placed K P) :=
  ((s.primitives batch.kind).drop batch.start).take (batch.stop - batch.start)

def drawing (s : Scene K P) : List (Placed K P) := s.batches.flatMap s.drawn

end Scene

end GpuiFast
