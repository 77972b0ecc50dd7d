import GpuiFast.Numerals
import Mathlib

/-! Coordinates are exact: any linearly ordered field with floors stands in for the
`f32` and `f64` of the source, without its infinities and NaN. Executable over `ℚ`. -/

namespace GpuiFast

inductive Overflow where
  | visible | clip | hidden | scroll
  deriving DecidableEq

structure Point (K : Type*) where
  x : K
  y : K
  deriving DecidableEq

structure Size (K : Type*) where
  width : K
  height : K
  deriving DecidableEq

structure Bounds (K : Type*) where
  origin : Point K
  size : Size K
  deriving DecidableEq

namespace Bounds

variable {K : Type*} [Field K] [LinearOrder K]

def bottomRight (b : Bounds K) : Point K :=
  ⟨b.origin.x + b.size.width, b.origin.y + b.size.height⟩

def fromCorners (topLeft bottomRight : Point K) : Bounds K :=
  ⟨topLeft, ⟨bottomRight.x - topLeft.x, bottomRight.y - topLeft.y⟩⟩

def intersects (a b : Bounds K) : Bool :=
  decide (a.origin.x < b.bottomRight.x) && decide (a.bottomRight.x > b.origin.x) &&
    decide (a.origin.y < b.bottomRight.y) && decide (a.bottomRight.y > b.origin.y)

/-- The common part of two bounds, with no extent along an axis they do not share. -/
def intersect (a b : Bounds K) : Bounds K :=
  let upperLeft : Point K := ⟨max a.origin.x b.origin.x, max a.origin.y b.origin.y⟩
  let lowerRight : Point K :=
    ⟨max (min a.bottomRight.x b.bottomRight.x) upperLeft.x,
      max (min a.bottomRight.y b.bottomRight.y) upperLeft.y⟩
  fromCorners upperLeft lowerRight

def union (a b : Bounds K) : Bounds K :=
  fromCorners ⟨min a.origin.x b.origin.x, min a.origin.y b.origin.y⟩
    ⟨max a.bottomRight.x b.bottomRight.x, max a.bottomRight.y b.bottomRight.y⟩

def isEmpty (b : Bounds K) : Bool :=
  decide (b.size.width ≤ 0) || decide (b.size.height ≤ 0)

def translate (b : Bounds K) (delta : Point K) : Bounds K :=
  ⟨⟨b.origin.x + delta.x, b.origin.y + delta.y⟩, b.size⟩

variable (a b : Bounds K)

omit [LinearOrder K] in
@[simp] lemma bottomRight_x : b.bottomRight.x = b.origin.x + b.size.width := rfl

omit [LinearOrder K] in
@[simp] lemma bottomRight_y : b.bottomRight.y = b.origin.y + b.size.height := rfl

lemma intersects_iff : a.intersects b = true ↔
    (a.origin.x < b.bottomRight.x ∧ b.origin.x < a.bottomRight.x) ∧
      (a.origin.y < b.bottomRight.y ∧ b.origin.y < a.bottomRight.y) := by
  simp only [intersects, Bool.and_eq_true, decide_eq_true_eq, gt_iff_lt, and_assoc]

lemma intersects_comm : a.intersects b = b.intersects a := by
  rw [Bool.eq_iff_iff, intersects_iff, intersects_iff]
  tauto

lemma intersects_translate [IsStrictOrderedRing K] (delta : Point K) :
    (a.translate delta).intersects (b.translate delta) = a.intersects b := by
  rw [Bool.eq_iff_iff, intersects_iff, intersects_iff]
  simp only [translate, bottomRight_x, bottomRight_y, add_right_comm _ delta.x,
    add_right_comm _ delta.y, add_lt_add_iff_right]

end Bounds

end GpuiFast
