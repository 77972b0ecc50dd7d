import GpuiFast.LayerTileOrder

/-! What a layer's content records: its paint operations, and the rounded clips opened and closed
between them. Paths are not rasterized into tiles but drawn over them, in a sequence by order, kind
and place. -/

namespace GpuiFast

/-- The curved padding edge of an element, its radii from the top left clockwise. -/
structure RoundedShape (K : Type*) where
  bounds : Bounds K
  radii : List (K × K)
  deriving DecidableEq

inductive ClipOperation (K : Type*) where
  | start (shape : RoundedShape K)
  | finish

inductive ContentOperation (K P : Type*) where
  | recorded (op : PaintOperation K P)
  | fastRoundedClip (clip : ClipOperation K)

variable {K P : Type*}

def ContentOperation.recorded? : ContentOperation K P → Option (PaintOperation K P)
  | .recorded op => some op
  | .fastRoundedClip _ => none

def Placed.isPath (x : Placed K P) : Bool := x.kind = .path

namespace Overlay

variable [Field K] [LinearOrder K]

def reach (p : Primitive K P) : Bounds K :=
  let visible := visibleBounds p
  match p.shape with
  | .path =>
    .fromCorners ⟨visible.origin.x - 1, visible.origin.y - 1⟩
      ⟨visible.bottomRight.x + 1, visible.bottomRight.y + 1⟩
  | _ => visible

def sequenceKey (x : Placed K P) : ℕ ×ₗ ℕ ×ₗ ℕ :=
  toLex (x.order, toLex (x.kind.rank, x.place))

end Overlay

end GpuiFast
