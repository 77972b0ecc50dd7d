import Mathlib.Algebra.Field.Defs
import Mathlib.Algebra.Order.Ring.Defs

/-! The numbers written as literals of a field, each with one proof that it is at least two, and what
arithmetic over an ordered field asks of it, found without a search through its classes. -/

namespace GpuiFast

instance atLeastTwo_two : Nat.AtLeastTwo 2 := ⟨by decide⟩

instance atLeastTwo_three : Nat.AtLeastTwo 3 := ⟨by decide⟩

instance atLeastTwo_ten : Nat.AtLeastTwo 10 := ⟨by decide⟩

instance atLeastTwo_thousand : Nat.AtLeastTwo 1000 := ⟨by decide⟩

instance atLeastTwo_million : Nat.AtLeastTwo 1000000 := ⟨by decide⟩

variable {K : Type*} [Field K] [LinearOrder K] [IsStrictOrderedRing K]

instance (priority := 2000) isOrderedRing : IsOrderedRing K :=
  IsStrictOrderedRing.toIsOrderedRing

instance (priority := 2000) isOrderedAddMonoid : IsOrderedAddMonoid K :=
  IsOrderedRing.toIsOrderedAddMonoid

instance (priority := 2000) addLeftMono : AddLeftMono K := inferInstance

instance (priority := 2000) addRightMono : AddRightMono K := inferInstance

instance (priority := 2000) addLeftReflectLE : AddLeftReflectLE K := inferInstance

instance (priority := 2000) addRightReflectLE : AddRightReflectLE K := inferInstance

instance (priority := 2000) zeroLEOneClass : ZeroLEOneClass K := inferInstance

end GpuiFast
