import GpuiFast.Numerals
import Mathlib.Tactic.FieldSimp
import Mathlib.Tactic.LinearCombination
import Mathlib.Tactic.Linarith
import Mathlib.Tactic.Positivity
import Mathlib.Tactic.Ring

/-! The parabola nearest to samples by the sum of squared errors. It solves the normal equations, whose
determinant is a sum of squares over the triples of times: there is one such parabola where the
samples have three different times. -/

namespace GpuiFast

open List

/-- `constant + linear * t + quadratic * t ^ 2`. -/
@[ext]
structure Parabola (K : Type*) where
  constant : K
  linear : K
  quadratic : K

namespace Parabola

section Field

variable {K : Type*} [Field K]

def eval (p : Parabola K) (t : K) : K := p.constant + p.linear * t + p.quadratic * t ^ 2

def squaredError (p : Parabola K) (samples : List (K × K)) : K :=
  (samples.map (fun s => (s.2 - p.eval s.1) ^ 2)).sum

def squaredDistance (p q : Parabola K) (samples : List (K × K)) : K :=
  (samples.map (fun s => (q.eval s.1 - p.eval s.1) ^ 2)).sum

def residual (p : Parabola K) (samples : List (K × K)) (n : ℕ) : K :=
  (samples.map (fun s => (s.2 - p.eval s.1) * s.1 ^ n)).sum

structure Normal (p : Parabola K) (samples : List (K × K)) : Prop where
  constant : p.residual samples 0 = 0
  linear : p.residual samples 1 = 0
  quadratic : p.residual samples 2 = 0

def powerSum (times : List K) (n : ℕ) : K := (times.map (· ^ n)).sum

def moment (samples : List (K × K)) (n : ℕ) : K := (samples.map (fun s => s.2 * s.1 ^ n)).sum

variable (times : List K) {samples : List (K × K)}

@[simp]
theorem powerSum_zero : powerSum times 0 = times.length := by
  simp [powerSum]

theorem sum_quartic (a b c d e : K) :
    (times.map (fun t => a + b * t + c * t ^ 2 + d * t ^ 3 + e * t ^ 4)).sum =
      a * powerSum times 0 + b * powerSum times 1 + c * powerSum times 2 +
        d * powerSum times 3 + e * powerSum times 4 := by
  unfold powerSum
  induction times with
  | nil => simp
  | cons t times ih =>
    simp only [map_cons, sum_cons, ih]
    ring

variable (p : Parabola K)

theorem residual_eq (samples : List (K × K)) (n : ℕ) :
    p.residual samples n = moment samples n -
      (p.constant * powerSum (samples.map Prod.fst) n +
        p.linear * powerSum (samples.map Prod.fst) (n + 1) +
        p.quadratic * powerSum (samples.map Prod.fst) (n + 2)) := by
  unfold residual moment powerSum
  induction samples with
  | nil => simp
  | cons s samples ih =>
    simp only [map_cons, sum_cons, ih]
    unfold eval
    ring

theorem squaredError_eq (q : Parabola K) (samples : List (K × K)) :
    q.squaredError samples = p.squaredError samples -
      2 * ((q.constant - p.constant) * p.residual samples 0 +
        (q.linear - p.linear) * p.residual samples 1 +
        (q.quadratic - p.quadratic) * p.residual samples 2) + p.squaredDistance q samples := by
  unfold squaredError squaredDistance residual
  induction samples with
  | nil => simp
  | cons s samples ih =>
    simp only [map_cons, sum_cons, ih]
    unfold eval
    ring

theorem Normal.squaredError_eq {p : Parabola K} (h : p.Normal samples) (q : Parabola K) :
    q.squaredError samples = p.squaredError samples + p.squaredDistance q samples := by
  rw [Parabola.squaredError_eq p q samples, h.constant, h.linear, h.quadratic]
  ring

theorem squaredError_of_on {p : Parabola K} (h : ∀ s ∈ samples, s.2 = p.eval s.1) :
    p.squaredError samples = 0 := by
  unfold squaredError
  apply sum_eq_zero
  simp only [mem_map]
  rintro _ ⟨s, hs, rfl⟩
  simp [h s hs]

def gram (times : List K) : K :=
  powerSum times 0 * (powerSum times 2 * powerSum times 4 - powerSum times 3 * powerSum times 3) -
    powerSum times 1 * (powerSum times 1 * powerSum times 4 -
      powerSum times 3 * powerSum times 2) +
    powerSum times 2 * (powerSum times 1 * powerSum times 3 - powerSum times 2 * powerSum times 2)

def spread (times : List K) : K :=
  (times.map (fun x => (times.map (fun y =>
    (times.map (fun z => ((x - y) * (x - z) * (y - z)) ^ 2)).sum)).sum)).sum

theorem spread_eq : spread times = 6 * gram times := by
  have hz : ∀ x y : K, (times.map (fun z => ((x - y) * (x - z) * (y - z)) ^ 2)).sum =
      (x - y) ^ 2 * (x ^ 2 * y ^ 2) * powerSum times 0 +
        -(2 * (x - y) ^ 2 * (x * y) * (x + y)) * powerSum times 1 +
        (x - y) ^ 2 * (x ^ 2 + 4 * x * y + y ^ 2) * powerSum times 2 +
        -(2 * (x - y) ^ 2 * (x + y)) * powerSum times 3 + (x - y) ^ 2 * powerSum times 4 := by
    intro x y
    rw [← sum_quartic]
    congr 1
    apply map_congr_left
    intro z _
    ring
  -- the coefficients of the powers of `y`, then those of `x`
  have hy : ∀ x : K, (times.map (fun y =>
      (times.map (fun z => ((x - y) * (x - z) * (y - z)) ^ 2)).sum)).sum =
      (x ^ 4 * powerSum times 2 - 2 * x ^ 3 * powerSum times 3 + x ^ 2 * powerSum times 4) *
          powerSum times 0 +
        (-(2 * x ^ 4 * powerSum times 1) + 2 * x ^ 3 * powerSum times 2 +
            2 * x ^ 2 * powerSum times 3 - 2 * x * powerSum times 4) * powerSum times 1 +
        (x ^ 4 * powerSum times 0 + 2 * x ^ 3 * powerSum times 1 - 6 * x ^ 2 * powerSum times 2 +
            2 * x * powerSum times 3 + powerSum times 4) * powerSum times 2 +
        (-(2 * x ^ 3 * powerSum times 0) + 2 * x ^ 2 * powerSum times 1 +
            2 * x * powerSum times 2 - 2 * powerSum times 3) * powerSum times 3 +
        (x ^ 2 * powerSum times 0 - 2 * x * powerSum times 1 + powerSum times 2) *
          powerSum times 4 := by
    intro x
    rw [← sum_quartic]
    congr 1
    apply map_congr_left
    intro y _
    rw [hz]
    ring
  have hx : spread times = (times.map (fun x =>
      (2 * powerSum times 2 * powerSum times 4 - 2 * powerSum times 3 ^ 2) +
        (4 * powerSum times 2 * powerSum times 3 - 4 * powerSum times 1 * powerSum times 4) * x +
        (2 * powerSum times 0 * powerSum times 4 + 4 * powerSum times 1 * powerSum times 3 -
          6 * powerSum times 2 ^ 2) * x ^ 2 +
        (4 * powerSum times 1 * powerSum times 2 - 4 * powerSum times 0 * powerSum times 3) *
          x ^ 3 +
        (2 * powerSum times 0 * powerSum times 2 - 2 * powerSum times 1 ^ 2) * x ^ 4)).sum := by
    unfold spread
    congr 1
    apply map_congr_left
    intro x _
    rw [hy]
    ring
  rw [hx, sum_quartic, gram]
  ring

def solved (samples : List (K × K)) : Parabola K :=
  let s := powerSum (samples.map Prod.fst)
  let m := moment samples
  { constant := (m 0 * (s 2 * s 4 - s 3 * s 3) - s 1 * (m 1 * s 4 - s 3 * m 2) +
      s 2 * (m 1 * s 3 - s 2 * m 2)) / gram (samples.map Prod.fst)
    linear := (s 0 * (m 1 * s 4 - s 3 * m 2) - m 0 * (s 1 * s 4 - s 3 * s 2) +
      s 2 * (s 1 * m 2 - m 1 * s 2)) / gram (samples.map Prod.fst)
    quadratic := (s 0 * (s 2 * m 2 - m 1 * s 3) - s 1 * (s 1 * m 2 - m 1 * s 2) +
      m 0 * (s 1 * s 3 - s 2 * s 2)) / gram (samples.map Prod.fst) }

theorem solved_normal (h : gram (samples.map Prod.fst) ≠ 0) : (solved samples).Normal samples := by
  constructor
  all_goals
    rw [residual_eq]
    simp only [solved]
    field_simp
    unfold gram
    ring

end Field

def ThreeTimes {K : Type*} (times : List K) : Prop :=
  ∃ x ∈ times, ∃ y ∈ times, ∃ z ∈ times, x ≠ y ∧ x ≠ z ∧ y ≠ z

section Order

variable {K : Type*} [Field K] [LinearOrder K] [IsStrictOrderedRing K]

theorem sum_map_pos_iff {α : Type*} {l : List α} {f : α → K} (h : ∀ a ∈ l, 0 ≤ f a) :
    0 < (l.map f).sum ↔ ∃ a ∈ l, 0 < f a := by
  induction l with
  | nil => simp
  | cons a l ih =>
    have ha := h a (by simp)
    have hl : ∀ b ∈ l, 0 ≤ f b := fun b hb => h b (by simp [hb])
    have hsum : 0 ≤ (l.map f).sum := sum_nonneg (by simpa using hl)
    simp only [map_cons, sum_cons, mem_cons, exists_eq_or_imp, ← ih hl]
    constructor
    · intro hpos
      by_contra hnone
      have := not_or.mp hnone
      linarith
    · rintro (hpos | hpos) <;> linarith

theorem squaredDistance_nonneg (p q : Parabola K) (samples : List (K × K)) :
    0 ≤ p.squaredDistance q samples := by
  apply sum_nonneg
  simp only [mem_map]
  rintro _ ⟨s, -, rfl⟩
  positivity

variable (times : List K) {p q : Parabola K} {samples : List (K × K)}

variable (x : K)

theorem spread_inner_nonneg (y : K) :
    0 ≤ (times.map (fun z => ((x - y) * (x - z) * (y - z)) ^ 2)).sum := by
  apply sum_nonneg
  simp only [mem_map]
  rintro _ ⟨z, -, rfl⟩
  positivity

theorem spread_middle_nonneg :
    0 ≤ (times.map (fun y =>
      (times.map (fun z => ((x - y) * (x - z) * (y - z)) ^ 2)).sum)).sum := by
  apply sum_nonneg
  simp only [mem_map]
  rintro _ ⟨y, -, rfl⟩
  exact spread_inner_nonneg times x y

theorem spread_nonneg : 0 ≤ spread times := by
  apply sum_nonneg
  simp only [mem_map]
  rintro _ ⟨x, -, rfl⟩
  exact spread_middle_nonneg times x

theorem spread_pos_iff : 0 < spread times ↔ ThreeTimes times := by
  unfold spread ThreeTimes
  rw [sum_map_pos_iff (fun x _ => spread_middle_nonneg times x)]
  simp only [sum_map_pos_iff (fun y _ => spread_inner_nonneg times _ y),
    sum_map_pos_iff (fun _ _ => sq_nonneg _), sq_pos_iff, ne_eq, mul_eq_zero, sub_eq_zero, not_or,
    and_assoc]

theorem gram_pos_iff : 0 < gram times ↔ ThreeTimes times := by
  rw [← spread_pos_iff, spread_eq]
  constructor <;> intro h <;> linarith

theorem eq_of_eval {times : List K} (h : ThreeTimes times) (heq : ∀ t ∈ times, q.eval t = p.eval t) :
    q = p := by
  obtain ⟨x, hx, y, hy, z, hz, hxy, hxz, hyz⟩ := h
  have ex := heq x hx
  have ey := heq y hy
  have ez := heq z hz
  unfold eval at ex ey ez
  have hxy' : x - y ≠ 0 := sub_ne_zero.mpr hxy
  have hxz' : x - z ≠ 0 := sub_ne_zero.mpr hxz
  have hyz' : y - z ≠ 0 := sub_ne_zero.mpr hyz
  -- the differences between two times, then between two of those
  have dxy : (q.linear - p.linear) + (q.quadratic - p.quadratic) * (x + y) = 0 := by
    apply mul_left_cancel₀ hxy'
    linear_combination ex - ey
  have dxz : (q.linear - p.linear) + (q.quadratic - p.quadratic) * (x + z) = 0 := by
    apply mul_left_cancel₀ hxz'
    linear_combination ex - ez
  have dq : q.quadratic - p.quadratic = 0 := by
    apply mul_left_cancel₀ hyz'
    linear_combination dxy - dxz
  have hq : q.quadratic = p.quadratic := sub_eq_zero.mp dq
  have hl : q.linear = p.linear := by
    linear_combination dxy - (x + y) * dq
  have hc : q.constant = p.constant := by
    rw [hq, hl] at ex
    linear_combination ex
  exact Parabola.ext hc hl hq

theorem eval_eq_of_squaredDistance (h : p.squaredDistance q samples ≤ 0) :
    ∀ s ∈ samples, q.eval s.1 = p.eval s.1 := by
  intro s hs
  by_contra hne
  have hpos : 0 < p.squaredDistance q samples := by
    unfold squaredDistance
    rw [sum_map_pos_iff (fun _ _ => sq_nonneg _)]
    exact ⟨s, hs, sq_pos_of_ne_zero (sub_ne_zero.mpr hne)⟩
  linarith

def IsLeastSquares (p : Parabola K) (samples : List (K × K)) : Prop :=
  ∀ q : Parabola K, p.squaredError samples ≤ q.squaredError samples ∧
    (q.squaredError samples = p.squaredError samples → q = p)

theorem solved_isLeastSquares (h : ThreeTimes (samples.map Prod.fst)) :
    (solved samples).IsLeastSquares samples := by
  have hnormal : (solved samples).Normal samples :=
    solved_normal ((gram_pos_iff _).mpr h).ne'
  intro q
  have herr := hnormal.squaredError_eq q
  have hdist := squaredDistance_nonneg (solved samples) q samples
  constructor
  · linarith
  · intro hsame
    apply eq_of_eval h
    simp only [mem_map]
    rintro t ⟨s, hs, rfl⟩
    apply eval_eq_of_squaredDistance _ s hs
    linarith

theorem IsLeastSquares.of_on (hp : p.IsLeastSquares samples) (h : ∀ s ∈ samples, s.2 = q.eval s.1) :
    q = p := by
  have hq := squaredError_of_on h
  have hnonneg : 0 ≤ p.squaredError samples := by
    apply sum_nonneg
    simp only [mem_map]
    rintro _ ⟨s, -, rfl⟩
    positivity
  apply (hp q).2
  have := (hp q).1
  linarith

end Order

end Parabola

end GpuiFast
