import GpuiFast.DoubleEnded
import GpuiFast.RelPathOperations
import Mathlib.Data.List.Infix

/-! Components are taken off the text at slashes, and ancestors are beginnings of it that end at slashes.
Over names put together either end of both gives the next item from there, until they meet. -/

namespace GpuiFast

open List

open PathBytes

namespace RelPath

def components.next (path : PathBytes) : Option PathBytes × PathBytes :=
  match nextComponent path with
  | some (component, rest) => (some component, rest)
  | none => (none, path)

def components.nextBack (path : PathBytes) : Option PathBytes × PathBytes :=
  match nextBackComponent path with
  | some (component, rest) => (some component, rest)
  | none => (none, path)

def componentsIter : DoubleEnded PathBytes PathBytes := ⟨components.next, components.nextBack⟩

def HoldsNames (path : PathBytes) (names : List PathBytes) : Prop :=
  (∀ n ∈ names, IsName .unix n) ∧ path = joinSegments slash names

lemma componentsIter_gives : componentsIter.Gives HoldsNames := by
  constructor
  · rintro _ names ⟨h, rfl⟩
    cases names with
    | nil => exact ⟨rfl, h, rfl⟩
    | cons n names =>
      have hnext := nextComponent_cons (h n (by simp)) names
      simp only [componentsIter, components.next, hnext]
      exact ⟨rfl, fun m hm => h m (mem_of_mem_tail hm), rfl⟩
  · rintro _ names ⟨h, rfl⟩
    rcases eq_nil_or_concat names with rfl | ⟨init, n, rfl⟩
    · exact ⟨rfl, h, rfl⟩
    · rw [concat_eq_append] at h ⊢
      have hnext := nextBackComponent_concat (h n (by simp)) init
      simp only [componentsIter, components.nextBack, hnext]
      rw [getLast?_concat, dropLast_concat]
      exact ⟨rfl, fun m hm => h m (by simp [hm]), rfl⟩

def ancestorsIter : DoubleEnded Ancestors PathBytes := ⟨Ancestors.next, Ancestors.nextBack⟩

def ancestorsFrom (base names : List PathBytes) : List PathBytes :=
  (names.inits.map (fun left => joinSegments slash (base ++ left))).reverse

lemma ancestorsFrom_nil (base : List PathBytes) :
    ancestorsFrom base [] = [joinSegments slash base] := by
  simp [ancestorsFrom]

lemma ancestorsFrom_concat (base names : List PathBytes) (n : PathBytes) :
    ancestorsFrom base (names ++ [n]) =
      joinSegments slash (base ++ names ++ [n]) :: ancestorsFrom base names := by
  simp [ancestorsFrom, inits_append]

lemma ancestorsFrom_cons (base names : List PathBytes) (n : PathBytes) :
    ancestorsFrom base (n :: names) =
      ancestorsFrom (base ++ [n]) names ++ [joinSegments slash base] := by
  simp [ancestorsFrom, Function.comp_def]

def HoldsAncestors (self : Ancestors) (items : List PathBytes) : Prop :=
  self.done = true ∧ items = [] ∨
  self.done = false ∧ ∃ base names rest : List PathBytes,
    (∀ n ∈ base ++ names ++ rest, IsName .unix n) ∧
    self.full = joinSegments slash (base ++ names ++ rest) ∧
    self.front = (joinSegments slash (base ++ names)).length ∧
    self.back = (joinSegments slash base).length ∧
    items = ancestorsFrom base names

lemma take_joinSegments (names rest : List PathBytes) :
    (joinSegments slash (names ++ rest)).take (joinSegments slash names).length =
      joinSegments slash names := by
  by_cases hnil : names = []
  · subst hnil
    rfl
  · by_cases hrest : rest = []
    · rw [hrest, append_nil, take_length]
    · rw [joinSegments_append hnil hrest, take_left]

variable {base : List PathBytes}

lemma length_joinSegments_lt {names : List PathBytes} (h : ∀ n ∈ base ++ names, IsName .unix n)
    (hnil : names ≠ []) :
    (joinSegments slash base).length < (joinSegments slash (base ++ names)).length := by
  have hne : joinSegments slash names ≠ [] := by
    rw [Ne, joinSegments_eq_nil (fun n hn => h n (by simp [hn]))]
    exact hnil
  have hpos := length_pos_iff.mpr hne
  by_cases hbase : base = []
  · subst hbase
    exact hpos
  · rw [joinSegments_append hbase hnil]
    simp

lemma length_eq_iff {names : List PathBytes} (h : ∀ n ∈ base ++ names, IsName .unix n) :
    (joinSegments slash (base ++ names)).length = (joinSegments slash base).length ↔
      names = [] := by
  constructor
  · intro hlen
    by_contra hnil
    have := length_joinSegments_lt h hnil
    omega
  · rintro rfl
    rw [append_nil]

lemma rfindSlash_concat {n : PathBytes} (hn : IsName .unix n) (names : List PathBytes) :
    (rfindSlash (joinSegments slash (names ++ [n]))).getD 0 =
      (joinSegments slash names).length := by
  by_cases hnil : names = []
  · subst hnil
    change (rfindSlash n).getD 0 = 0
    unfold rfindSlash
    rw [if_neg hn.no_slash]
    rfl
  · have hreverse : (joinSegments slash names ++ slash :: n).reverse =
        n.reverse ++ slash :: (joinSegments slash names).reverse := by simp
    have hn' : slash ∉ n.reverse := by simpa using hn.no_slash
    rw [joinSegments_concat n hnil]
    unfold rfindSlash
    rw [if_pos (by simp), hreverse, dropWhile_name hn']
    simp

lemma drop_joinSegments {rest : List PathBytes} (h : ∀ n ∈ base, IsName .unix n) (hrest : rest ≠ []) :
    (joinSegments slash (base ++ rest)).drop (if (joinSegments slash base).length = 0 then 0
      else (joinSegments slash base).length + 1) = joinSegments slash rest := by
  simp only [length_eq_zero_iff, joinSegments_eq_nil h]
  split_ifs with hnil
  · rw [hnil]
    rfl
  · rw [joinSegments_append hnil hrest, drop_append]
    simp

lemma findSlash_joinSegments {n : PathBytes} (hn : IsName .unix n) (names : List PathBytes) :
    findSlash (joinSegments slash (n :: names)) =
      if names = [] then none else some n.length := by
  unfold findSlash
  split_ifs with hslash hnil hnil
  · subst hnil
    exact absurd hslash hn.no_slash
  · rw [joinSegments_cons n hnil, takeWhile_name hn.no_slash]
  · rfl
  · rw [joinSegments_cons n hnil] at hslash
    simp at hslash

lemma length_joinSegments_concat (h : ∀ n ∈ base, IsName .unix n) (n : PathBytes) :
    (joinSegments slash (base ++ [n])).length =
      (if (joinSegments slash base).length = 0 then 0
        else (joinSegments slash base).length + 1) + n.length := by
  simp only [length_eq_zero_iff, joinSegments_eq_nil h]
  split_ifs with hnil
  · rw [hnil]
    change n.length = 0 + n.length
    omega
  · rw [joinSegments_concat n hnil]
    simp
    omega

lemma ancestorsIter_gives : ancestorsIter.Gives HoldsAncestors := by
  constructor
  · rintro ⟨full, front, back, done⟩ items (⟨hdone, rfl⟩ | ⟨hdone, base, names, rest, h, hfull,
      hfront, hback, rfl⟩)
    · obtain rfl : done = true := hdone
      exact ⟨rfl, .inl ⟨rfl, rfl⟩⟩
    · obtain rfl : done = false := hdone
      simp only at hfull hfront hback
      subst hfull hfront hback
      have hends : ∀ n ∈ base ++ names, IsName .unix n := fun n hn =>
        h n (mem_append_left rest hn)
      simp only [ancestorsIter, Ancestors.next, take_joinSegments, length_eq_iff hends,
        Bool.false_eq_true, if_false]
      rcases eq_nil_or_concat names with rfl | ⟨names, n, rfl⟩
      · simp only [if_true, ancestorsFrom_nil, append_nil]
        exact ⟨rfl, .inl ⟨rfl, rfl⟩⟩
      · rw [concat_eq_append] at h hends ⊢
        rw [if_neg (by simp), ancestorsFrom_concat, ← append_assoc]
        refine ⟨rfl, .inr ⟨rfl, base, names, n :: rest, ?_, ?_, ?_, rfl, rfl⟩⟩
        · simpa using h
        · simp
        · exact rfindSlash_concat (hends n (by simp)) _
  · rintro ⟨full, front, back, done⟩ items (⟨hdone, rfl⟩ | ⟨hdone, base, names, rest, h, hfull,
      hfront, hback, rfl⟩)
    · obtain rfl : done = true := hdone
      exact ⟨rfl, .inl ⟨rfl, rfl⟩⟩
    · obtain rfl : done = false := hdone
      simp only at hfull hfront hback
      subst hfull hfront hback
      have hends : ∀ n ∈ base ++ names, IsName .unix n := fun n hn =>
        h n (mem_append_left rest hn)
      have hbase : ∀ n ∈ base, IsName .unix n := fun n hn => h n (by simp [hn])
      have htake : (joinSegments slash (base ++ names ++ rest)).take
          (joinSegments slash base).length = joinSegments slash base := by
        rw [append_assoc, take_joinSegments]
      simp only [ancestorsIter, Ancestors.nextBack, htake, length_eq_iff hends,
        Bool.false_eq_true, if_false]
      cases names with
      | nil =>
        simp only [if_true, ancestorsFrom_nil]
        exact ⟨rfl, .inl ⟨rfl, rfl⟩⟩
      | cons n names =>
        have hn := hends n (by simp)
        have hdrop := @drop_joinSegments base (n :: (names ++ rest)) hbase (by simp)
        have hlen := length_joinSegments_concat hbase n
        have hbase' : base ++ n :: names ++ rest = base ++ n :: (names ++ rest) := by simp
        rw [if_neg (by simp), ancestorsFrom_cons, getLast?_concat, dropLast_concat,
          hbase', hdrop, findSlash_joinSegments hn]
        rw [hbase'] at h
        by_cases hnil : names ++ rest = []
        · rw [if_pos hnil]
          obtain ⟨rfl, rfl⟩ := append_eq_nil_iff.mp hnil
          exact ⟨rfl, .inr ⟨rfl, base ++ [n], [], [], by simpa using h, by simp, by simp, rfl,
            rfl⟩⟩
        · rw [if_neg hnil]
          exact ⟨rfl, .inr ⟨rfl, base ++ [n], names, rest, by simpa using h, by simp, by simp,
            hlen.symm, rfl⟩⟩

lemma holdsAncestors_ancestors {names : List PathBytes} (h : ∀ n ∈ names, IsName .unix n) :
    HoldsAncestors (ancestors (joinSegments slash names)) (ancestorsFrom [] names) :=
  .inr ⟨rfl, [], names, [], by simpa using h, by simp [ancestors], by simp [ancestors], rfl, rfl⟩

end RelPath

end GpuiFast
