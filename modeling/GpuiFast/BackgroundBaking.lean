import GpuiFast.LayerCovers
import GpuiFast.Overlay

/-! A tile is cleared with the colour under its viewport, known only when what is drawn last there is
one opaque, solid quad over all of it. Drawing is painted point by point: a quad is plain inside its
borders and off its corners, and whatever else a primitive draws is left to the shaders. -/

namespace GpuiFast

instance {K : Type*} [Field K] [LinearOrder K] (b : Bounds K) (p : Point K) :
    Decidable (b.HasPoint p) :=
  inferInstanceAs (Decidable (_ ∧ _))

structure Edges (K : Type*) where
  top : K
  right : K
  bottom : K
  left : K

structure Corners (K : Type*) where
  topLeft : K
  topRight : K
  bottomRight : K
  bottomLeft : K

structure Rgba (K : Type*) where
  r : K
  g : K
  b : K
  a : K
  deriving DecidableEq

structure Hsla (K : Type*) where
  h : K
  s : K
  l : K
  a : K

def Hsla.toRgba {K : Type*} [Field K] [LinearOrder K] [FloorRing K] (color : Hsla K) : Rgba K :=
  let c := (1 - |2 * color.l - 1|) * color.s
  let sixth := color.h * 6
  let x := c * (1 - |sixth - 2 * (if 0 ≤ sixth then ⌊sixth / 2⌋ else ⌈sixth / 2⌉ : ℤ) - 1|)
  let m := color.l - c / 2
  let cm := c + m
  let xm := x + m
  let (r, g, b) :=
    if ⌊sixth⌋ = 0 ∨ ⌊sixth⌋ = 6 then (cm, xm, m)
    else if ⌊sixth⌋ = 1 then (xm, cm, m)
    else if ⌊sixth⌋ = 2 then (m, cm, xm)
    else if ⌊sixth⌋ = 3 then (m, xm, cm)
    else if ⌊sixth⌋ = 4 then (xm, m, cm)
    else (cm, m, xm)
  ⟨max 0 (min r 1), max 0 (min g 1), max 0 (min b 1), color.a⟩

inductive BackgroundTag where
  | solid | linearGradient | patternSlash | checkerboard
  deriving DecidableEq

structure QuadPaint (K : Type*) where
  tag : BackgroundTag
  solid : Hsla K
  borderWidths : Edges K
  borderColor : Hsla K
  cornerRadii : Corners K

def RoundedShape.contains {K : Type*} [Field K] [LinearOrder K] (shape : RoundedShape K)
    (p : Point K) : Bool :=
  let b := shape.bounds
  let corners : List (Point K × K × K) :=
    [(b.origin, 1, 1), (⟨b.bottomRight.x, b.origin.y⟩, -1, 1), (b.bottomRight, -1, -1),
      (⟨b.origin.x, b.bottomRight.y⟩, 1, -1)]
  !b.isEmpty && decide (b.HasPoint p) && (corners.zip shape.radii).all (fun corner =>
    let ((at', dx, dy), rx, ry) := corner
    let x := (p.x - at'.x) * dx
    let y := (p.y - at'.y) * dy
    decide (rx = 0) || decide (ry = 0) || decide (rx ≤ x) || decide (ry ≤ y) ||
      decide (((x - rx) / rx) ^ 2 + ((y - ry) / ry) ^ 2 ≤ 1))

namespace Background

section

variable {K R : Type*} [Field K] [LinearOrder K]

def contains (outer inner : Bounds K) : Bool :=
  decide (outer.origin.x ≤ inner.origin.x) && decide (outer.origin.y ≤ inner.origin.y) &&
    decide (inner.bottomRight.x ≤ outer.bottomRight.x) &&
    decide (inner.bottomRight.y ≤ outer.bottomRight.y)

def visibleBorder (quad : QuadPaint K) : Bool :=
  decide (0 < quad.borderColor.a) &&
    (decide (0 < quad.borderWidths.top) || decide (0 < quad.borderWidths.right) ||
      decide (0 < quad.borderWidths.bottom) || decide (0 < quad.borderWidths.left))

def innerBounds (bounds : Bounds K) (quad : QuadPaint K) : Bounds K :=
  .fromCorners
    ⟨bounds.origin.x + quad.borderWidths.left, bounds.origin.y + quad.borderWidths.top⟩
    ⟨bounds.bottomRight.x - quad.borderWidths.right,
      bounds.bottomRight.y - quad.borderWidths.bottom⟩

def cornerSquares (bounds : Bounds K) (quad : QuadPaint K) : List (K × Bounds K) :=
  let radii := quad.cornerRadii
  let least := bounds.origin
  let greatest := bounds.bottomRight
  let square := fun (radius x y : K) => (radius, (⟨⟨x, y⟩, ⟨radius, radius⟩⟩ : Bounds K))
  [square radii.topLeft least.x least.y,
    square radii.topRight (greatest.x - radii.topRight) least.y,
    square radii.bottomRight (greatest.x - radii.bottomRight) (greatest.y - radii.bottomRight),
    square radii.bottomLeft least.x (greatest.y - radii.bottomLeft)]

def covers (bounds contentMask : Bounds K) (quad : QuadPaint K) (viewport : Bounds K) : Bool :=
  if quad.tag ≠ .solid ∨ quad.solid.a < 1 then false
  else if !contains (bounds.intersect contentMask) viewport then false
  else if visibleBorder quad && !contains (innerBounds bounds quad) viewport then false
  else (cornerSquares bounds quad).all (fun square =>
    decide (square.1 ≤ 0) || !square.2.intersects viewport)

abbrev Top (K R : Type*) := Option (Placed K (QuadPaint K × R)) × ℕ

def Top.look (viewport : Bounds K) (top : Top K R) (x : Placed K (QuadPaint K × R)) : Top K R :=
  if !(visibleBounds x.primitive).intersects viewport then top
  else
    match top.1 with
    | some y =>
      if x.order < y.order then top
      else if x.order = y.order then (top.1, top.2 + 1)
      else (some x, 1)
    | none => (some x, 1)

def primitives (operations : List (ContentOperation K (QuadPaint K × R))) :
    List (Placed K (QuadPaint K × R)) :=
  (operations.filterMap (·.recorded?)).filterMap (·.placed?)

variable [FloorRing K]

def bakeOperations (operations : List (ContentOperation K (QuadPaint K × R)))
    (viewport : Bounds K) : Option (Rgba K) :=
  let top := (primitives operations).foldl (Top.look viewport) (none, 0)
  match top.1 with
  | some x =>
    let quad := x.primitive.rest.1
    if x.kind = .quad ∧ top.2 = 1 ∧
        covers x.primitive.bounds x.primitive.contentMask quad viewport = true then
      some quad.solid.toRgba
    else none
  | none => none

def bake (operations : List (ContentOperation K (QuadPaint K × R))) (viewport : Bounds K)
    (windowOpaque : Bool) : Option (Rgba K) :=
  if windowOpaque then bakeOperations operations viewport else none

end

end Background

structure Clipped (K P : Type*) where
  placed : Placed K P
  clips : List (RoundedShape K)

namespace Clipped

variable {K R : Type*} [Field K] [LinearOrder K]

def Touches (x : Clipped K (QuadPaint K × R)) (p : Point K) : Prop :=
  (Overlay.reach x.placed.primitive).HasPoint p ∧ ∀ shape ∈ x.clips, shape.contains p = true

instance (x : Clipped K (QuadPaint K × R)) (p : Point K) : Decidable (x.Touches p) :=
  inferInstanceAs (Decidable (_ ∧ _))

/-- Whether a point shows the opaque background of a quad: inside its borders, where they are
visible, and off its corners. -/
def IsPlain (x : Clipped K (QuadPaint K × R)) (p : Point K) : Prop :=
  let quad := x.placed.primitive.rest.1
  let bounds := x.placed.primitive.bounds
  x.placed.kind = .quad ∧ quad.tag = .solid ∧ 1 ≤ quad.solid.a ∧
    (Background.visibleBorder quad = true → (Background.innerBounds bounds quad).HasPoint p) ∧
      ∀ square ∈ Background.cornerSquares bounds quad, 0 < square.1 → ¬square.2.HasPoint p

instance (x : Clipped K (QuadPaint K × R)) (p : Point K) : Decidable (x.IsPlain p) :=
  inferInstanceAs (Decidable (_ ∧ _))

end Clipped

namespace Background

variable {K R : Type*}

def clipped (open' : List (RoundedShape K)) :
    List (ContentOperation K (QuadPaint K × R)) → List (Clipped K (QuadPaint K × R))
  | [] => []
  | .recorded (.primitive x) :: operations => ⟨x, open'⟩ :: clipped open' operations
  | .recorded _ :: operations => clipped open' operations
  | .fastRoundedClip (.start shape) :: operations => clipped (shape :: open') operations
  | .fastRoundedClip .finish :: operations => clipped open'.tail operations

def drawing (operations : List (ContentOperation K (QuadPaint K × R))) :
    List (Clipped K (QuadPaint K × R)) :=
  (clipped [] operations).insertionSort 
    (fun x y => Overlay.sequenceKey x.placed ≤ Overlay.sequenceKey y.placed)

variable [Field K] [LinearOrder K] [FloorRing K]

/-- What a primitive leaves at a point; `shade` is what the shaders do where no quad is plain. -/
def ink (shade : Clipped K (QuadPaint K × R) → Point K → Rgba K → Rgba K) (p : Point K)
    (under : Rgba K) (x : Clipped K (QuadPaint K × R)) : Rgba K :=
  if x.Touches p then
    if x.IsPlain p then x.placed.primitive.rest.1.solid.toRgba else shade x p under
  else under

def colourAt (shade : Clipped K (QuadPaint K × R) → Point K → Rgba K → Rgba K) (cleared : Rgba K)
    (drawn : List (Clipped K (QuadPaint K × R))) (p : Point K) : Rgba K :=
  drawn.foldl (ink shade p) cleared

def ShowsPlain (drawn : List (Clipped K (QuadPaint K × R))) (colour : Rgba K) (p : Point K) :
    Prop :=
  ∃ before x after, drawn = before ++ x :: after ∧ x.Touches p ∧ x.IsPlain p ∧
    x.placed.primitive.rest.1.solid.toRgba = colour ∧ ∀ y ∈ after, ¬y.Touches p

inductive PaintStep (K R : Type*) where
  | paint (op : SceneOp K (QuadPaint K × R))
  | clip (clip : ClipOperation K)

def PaintStep.apply
    (painted : Scene K (QuadPaint K × R) × List (ContentOperation K (QuadPaint K × R)))
    (step : PaintStep K R) :
    Scene K (QuadPaint K × R) × List (ContentOperation K (QuadPaint K × R)) :=
  match step with
  | .paint op =>
    let scene := painted.1.apply op
    (scene, painted.2 ++
      (scene.paintOperations.drop painted.1.paintOperations.length).map .recorded)
  | .clip rounded => (painted.1, painted.2 ++ [.fastRoundedClip rounded])

def painted (steps : List (PaintStep K R)) : List (ContentOperation K (QuadPaint K × R)) :=
  (steps.foldl PaintStep.apply (.default, [])).2

end Background

end GpuiFast
