import GpuiFast.LeastSquares

/-! The speed of the newest touch sample, fitted by Cramer's rule on sums of powers. It is that of the
least-squares parabola, but a determinant below a fixed threshold is refused, and samples close in
time have one however many times they are taken at. -/

namespace GpuiFast

open Parabola

structure VelocitySums (K : Type*) where
  sumT1 : K
  sumT2 : K
  sumT3 : K
  sumT4 : K
  sumV : K
  sumVt : K
  sumVt2 : K

section Fit

variable {K : Type*} [Field K]

def VelocitySums.zero : VelocitySums K := ⟨0, 0, 0, 0, 0, 0, 0⟩

def VelocitySums.add (sums : VelocitySums K) (sample : K × K) : VelocitySums K :=
  let time := sample.1
  let value := sample.2
  let timeSquared := time * time
  { sumT1 := sums.sumT1 + time
    sumT2 := sums.sumT2 + timeSquared
    sumT3 := sums.sumT3 + timeSquared * time
    sumT4 := sums.sumT4 + timeSquared * timeSquared
    sumV := sums.sumV + value
    sumVt := sums.sumVt + value * time
    sumVt2 := sums.sumVt2 + value * timeSquared }

def quadraticVelocityAtNewest [LinearOrder K] (times values : List K) : Option K :=
  let count : K := times.length
  let sums := (times.zip values).foldl VelocitySums.add VelocitySums.zero
  let determinant := count * (sums.sumT2 * sums.sumT4 - sums.sumT3 * sums.sumT3) -
    sums.sumT1 * (sums.sumT1 * sums.sumT4 - sums.sumT3 * sums.sumT2) +
    sums.sumT2 * (sums.sumT1 * sums.sumT3 - sums.sumT2 * sums.sumT2)
  if |determinant| < 1 / 10 ^ 12 then none
  else
    let linearDeterminant := count * (sums.sumVt * sums.sumT4 - sums.sumT3 * sums.sumVt2) -
      sums.sumV * (sums.sumT1 * sums.sumT4 - sums.sumT3 * sums.sumT2) +
      sums.sumT2 * (sums.sumT1 * sums.sumVt2 - sums.sumVt * sums.sumT2)
    some (linearDeterminant / determinant)

def fittedVelocity [LinearOrder K] (samples : List (K × K)) : Option K :=
  quadraticVelocityAtNewest (samples.map Prod.fst) (samples.map Prod.snd)

variable (samples : List (K × K))

theorem foldl_add (sums : VelocitySums K) :
    samples.foldl VelocitySums.add sums =
      { sumT1 := sums.sumT1 + powerSum (samples.map Prod.fst) 1
        sumT2 := sums.sumT2 + powerSum (samples.map Prod.fst) 2
        sumT3 := sums.sumT3 + powerSum (samples.map Prod.fst) 3
        sumT4 := sums.sumT4 + powerSum (samples.map Prod.fst) 4
        sumV := sums.sumV + moment samples 0
        sumVt := sums.sumVt + moment samples 1
        sumVt2 := sums.sumVt2 + moment samples 2 } := by
  induction samples generalizing sums with
  | nil => simp [powerSum, moment]
  | cons s samples ih =>
    rw [List.foldl_cons, ih]
    simp only [VelocitySums.add, powerSum, moment, List.map_cons, List.sum_cons,
      VelocitySums.mk.injEq]
    refine ⟨?_, ?_, ?_, ?_, ?_, ?_, ?_⟩ <;> ring

theorem fittedVelocity_eq [LinearOrder K] :
    fittedVelocity samples =
      if |gram (samples.map Prod.fst)| < 1 / 10 ^ 12 then none
      else some (solved samples).linear := by
  have hzip : (samples.map Prod.fst).zip (samples.map Prod.snd) = samples := by
    rw [List.zip_map', List.map_id'']
    simp
  unfold fittedVelocity quadraticVelocityAtNewest
  simp only [hzip, foldl_add, VelocitySums.zero, zero_add, solved, gram, powerSum_zero]

end Fit

section Order

variable {K : Type*} [Field K] [LinearOrder K] [IsStrictOrderedRing K]

/-- The speed fitted to samples at three times or more is that of the least-squares parabola and of
the motion they lie on, and it is refused for fewer times only. -/
structure FitsParabola (samples : List (K × K)) : Prop where
  nearest : ThreeTimes (samples.map Prod.fst) →
    ∃ p : Parabola K, p.IsLeastSquares samples ∧ fittedVelocity samples = some p.linear
  motion : ThreeTimes (samples.map Prod.fst) → ∀ p : Parabola K,
    (∀ s ∈ samples, s.2 = p.eval s.1) → fittedVelocity samples = some p.linear
  refused : fittedVelocity samples = none → ¬ ThreeTimes (samples.map Prod.fst)

theorem fittedVelocity_isSome_iff (samples : List (K × K)) :
    (fittedVelocity samples).isSome ↔ 6 / 10 ^ 12 ≤ spread (samples.map Prod.fst) := by
  have hnonneg : 0 ≤ gram (samples.map Prod.fst) := by
    have hspread := spread_nonneg (samples.map Prod.fst)
    rw [spread_eq] at hspread
    linarith
  rw [fittedVelocity_eq, abs_of_nonneg hnonneg, spread_eq]
  split <;> rename_i h
  · simp only [Option.isSome_none, Bool.false_eq_true, false_iff, not_le]
    linarith
  · simp only [Option.isSome_some, true_iff]
    linarith

/-- The fit is that of the parabola just when times that differ are far enough apart. -/
theorem fitsParabola_iff (samples : List (K × K)) :
    FitsParabola samples ↔ (ThreeTimes (samples.map Prod.fst) →
      6 / 10 ^ 12 ≤ spread (samples.map Prod.fst)) := by
  constructor
  · intro hfits hthree
    rw [← fittedVelocity_isSome_iff, Option.isSome_iff_ne_none]
    intro hnone
    exact hfits.refused hnone hthree
  · intro hfar
    have hfit : ThreeTimes (samples.map Prod.fst) →
        fittedVelocity samples = some (solved samples).linear := by
      intro hthree
      have hsome := (fittedVelocity_isSome_iff samples).mpr (hfar hthree)
      rw [fittedVelocity_eq] at hsome ⊢
      split at hsome
      · simp at hsome
      · rename_i h
        rw [if_neg h]
    constructor
    · intro hthree
      exact ⟨solved samples, solved_isLeastSquares hthree, hfit hthree⟩
    · intro hthree p hon
      rw [hfit hthree, (solved_isLeastSquares hthree).of_on hon]
    · intro hnone hthree
      rw [hfit hthree] at hnone
      simp at hnone

end Order

/-- A finger at a steady speed, sampled 60 times a second. -/
theorem fitsParabola_sixtyHertz : FitsParabola (K := ℚ) [(0, 0), (-1 / 60, -4), (-1 / 30, -8)] :=
  (fitsParabola_iff _).mpr (fun _ => by norm_num [spread])

/-- The same finger on a panel that samples 240 times a second is not fitted. -/
theorem not_fitsParabola_panel : ¬ ∀ samples : List (ℚ × ℚ), FitsParabola samples := by
  intro hall
  have hthree : ThreeTimes [(0 : ℚ), -1 / 240, -1 / 120] := by
    refine ⟨0, by simp, -1 / 240, by simp, -1 / 120, by simp, ?_⟩
    norm_num
  apply (hall [(0, 0), (-1 / 240, -1), (-1 / 120, -2)]).refused _ hthree
  rw [← Option.not_isSome_iff_eq_none, fittedVelocity_isSome_iff]
  norm_num [spread]

end GpuiFast
