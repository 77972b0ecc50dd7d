import GpuiFast.PaintLine

/-! Structs derived `Refineable`, whatever their fields, with the functions the macro generates for
them, and the window's stack of text style refinements, which remembers the styles it resolves. -/
namespace GpuiFast

open List

/-- The fields of a derived struct. One marked `refineable` holds another derived struct, or
(`refinement`) the refinement of one. -/
inductive Fields : Type 1
  | done
  | plain (α : Type) [DecidableEq α] (rest : Fields)
  | optional (α : Type) [DecidableEq α] (rest : Fields)
  | refineable (inner rest : Fields)
  | refinement (inner rest : Fields)

/-- The generated struct, its fields wrapped as `get_wrapper_type` does. -/
inductive Refinement : Fields → Type 1
  | done : Refinement .done
  | plain {α : Type} {_ : DecidableEq α} {rest : Fields} (field : Option α) (self : Refinement rest) :
    Refinement (.plain α rest)
  | optional {α : Type} {_ : DecidableEq α} {rest : Fields} (field : Option α) (self : Refinement rest) :
    Refinement (.optional α rest)
  | refineable {inner rest : Fields} (field : Refinement inner) (self : Refinement rest) :
    Refinement (.refineable inner rest)
  | refinement {inner rest : Fields} (field : Refinement inner) (self : Refinement rest) :
    Refinement (.refinement inner rest)

/-- The derived struct itself. -/
inductive Refined : Fields → Type 1
  | done : Refined .done
  | plain {α : Type} {_ : DecidableEq α} {rest : Fields} (field : α) (self : Refined rest) :
    Refined (.plain α rest)
  | optional {α : Type} {_ : DecidableEq α} {rest : Fields} (field : Option α) (self : Refined rest) :
    Refined (.optional α rest)
  | refineable {inner rest : Fields} (field : Refined inner) (self : Refined rest) :
    Refined (.refineable inner rest)
  | refinement {inner rest : Fields} (field : Refinement inner) (self : Refined rest) :
    Refined (.refinement inner rest)

variable {fields : Fields}

namespace Refinement

def refine {fields : Fields} : Refinement fields → Refinement fields → Refinement fields
  | .done, .done => .done
  | .plain field self, .plain given more =>
    .plain (given.or field) (self.refine more)
  | .optional field self, .optional given more =>
    .optional (given.or field) (self.refine more)
  | .refineable field self, .refineable given more =>
    .refineable (field.refine given) (self.refine more)
  | .refinement field self, .refinement given more =>
    .refinement (field.refine given) (self.refine more)

/-- As `refine` has it, by value. -/
def refined {fields : Fields} : Refinement fields → Refinement fields → Refinement fields
  | .done, .done => .done
  | .plain field self, .plain given more =>
    .plain (given.or field) (self.refined more)
  | .optional field self, .optional given more =>
    .optional (given.or field) (self.refined more)
  | .refineable field self, .refineable given more =>
    .refineable (field.refined given) (self.refined more)
  | .refinement field self, .refinement given more =>
    .refinement (field.refined given) (self.refined more)

def isSupersetOf {fields : Fields} : Refinement fields → Refinement fields → Bool
  | .done, .done => true
  | .plain field self, .plain given more | .optional field self, .optional given more =>
    if given.isSome && field ≠ given then false else self.isSupersetOf more
  | .refineable field self, .refineable given more
  | .refinement field self, .refinement given more =>
    if !field.isSupersetOf given then false else self.isSupersetOf more

def subtract {fields : Fields} : Refinement fields → Refinement fields → Refinement fields
  | .done, .done => .done
  | .plain field self, .plain given more =>
    .plain (if field = given then none else field) (self.subtract more)
  | .optional field self, .optional given more =>
    .optional (if field = given then none else field) (self.subtract more)
  | .refineable field self, .refineable given more =>
    .refineable (field.subtract given) (self.subtract more)
  | .refinement field self, .refinement given more =>
    .refinement (field.subtract given) (self.subtract more)

def isEmpty {fields : Fields} : Refinement fields → Bool
  | .done => true
  | .plain field self | .optional field self => field.isNone && self.isEmpty
  | .refineable field self | .refinement field self => field.isEmpty && self.isEmpty

def isSome {fields : Fields} : Refinement fields → Bool
  | .done => false
  | .plain field self | .optional field self => if field.isSome then true else self.isSome
  | .refineable field self | .refinement field self => if field.isSome then true else self.isSome

end Refinement

namespace Refined

def refine {fields : Fields} : Refined fields → Refinement fields → Refined fields
  | .done, .done => .done
  | .plain field self, .plain given more =>
    .plain (given.getD field) (self.refine more)
  | .optional field self, .optional given more =>
    .optional (given.or field) (self.refine more)
  | .refineable field self, .refineable given more =>
    .refineable (field.refine given) (self.refine more)
  | .refinement field self, .refinement given more =>
    .refinement (field.refine given) (self.refine more)

def refined {fields : Fields} : Refined fields → Refinement fields → Refined fields
  | .done, .done => .done
  | .plain field self, .plain given more =>
    .plain (given.getD field) (self.refined more)
  | .optional field self, .optional given more =>
    .optional (given.or field) (self.refined more)
  | .refineable field self, .refineable given more =>
    .refineable (field.refined given) (self.refined more)
  | .refinement field self, .refinement given more =>
    .refinement (field.refined given) (self.refined more)

def isSupersetOf {fields : Fields} : Refined fields → Refinement fields → Bool
  | .done, .done => true
  | .plain field self, .plain given more =>
    if given.any (field ≠ ·) then false else self.isSupersetOf more
  | .optional field self, .optional given more =>
    if given.isSome && field ≠ given then false else self.isSupersetOf more
  | .refineable field self, .refineable given more =>
    if !field.isSupersetOf given then false else self.isSupersetOf more
  | .refinement field self, .refinement given more =>
    if !field.isSupersetOf given then false else self.isSupersetOf more

end Refined

attribute [grind =] Refinement.refine Refined.refine

namespace Refinement

variable (r s : Refinement fields)

lemma refined_eq_refine : r.refined s = r.refine s := by
  induction r <;> cases s <;> simp only [refine, refined, *]

lemma refine_refine (q : Refinement fields) : (q.refine r).refine s = q.refine (r.refine s) := by
  induction q <;> cases r <;> cases s <;> simp only [refine, Option.or_assoc, *]

lemma isSupersetOf_iff : r.isSupersetOf s = true ↔ r.refine s = r := by
  induction r <;> cases s
  case plain.plain field _ ih given _ =>
    cases given <;> simp [refine, isSupersetOf, ih, eq_comm (b := field)]
  case optional.optional field _ ih given _ =>
    cases given <;> simp [refine, isSupersetOf, ih, eq_comm (b := field)]
  all_goals simp_all [refine, isSupersetOf]

lemma refine_subtract : r.refine (s.subtract r) = r.refine s := by
  induction r <;> cases s
  case plain.plain field _ ih given _ =>
    by_cases h : given = field <;> simp [refine, subtract, ih, h]
  case optional.optional field _ ih given _ =>
    by_cases h : given = field <;> simp [refine, subtract, ih, h]
  all_goals simp_all [refine, subtract]

lemma isSome_eq : r.isSome = !r.isEmpty := by
  induction r with
  | done => rfl
  | plain field self ih | optional field self ih => cases field <;> simp [isSome, isEmpty, ih]
  | refineable field self ihfield ih | refinement field self ihfield ih =>
    cases h : field.isEmpty <;> simp_all [isSome, isEmpty]

lemma refine_of_isEmpty {r s : Refinement fields} (h : s.isEmpty = true) : r.refine s = r := by
  induction r <;> cases s <;> simp_all [refine, isEmpty]

end Refinement

namespace Refined

variable (x : Refined fields) (r s : Refinement fields)

lemma refined_eq_refine : x.refined r = x.refine r := by
  induction x <;> cases r <;> simp only [refine, refined, Refinement.refined_eq_refine, *]

lemma refine_refine : (x.refine r).refine s = x.refine (r.refine s) := by
  induction x <;> cases r <;> cases s
  case plain.plain.plain ih _ _ given _ =>
    cases given <;> simp only [refine, Refinement.refine, ih, Option.or, Option.getD]
  all_goals simp only [refine, Refinement.refine, Refinement.refine_refine, Option.or_assoc, *]

lemma isSupersetOf_iff : x.isSupersetOf r = true ↔ x.refine r = x := by
  induction x <;> cases r
  case plain.plain field _ ih given _ =>
    cases given <;> simp [refine, isSupersetOf, ih, eq_comm (b := field)]
  case optional.optional field _ ih given _ =>
    cases given <;> simp [refine, isSupersetOf, ih, eq_comm (b := field)]
  all_goals simp_all [refine, isSupersetOf, Refinement.isSupersetOf_iff]

lemma refine_of_isEmpty {x : Refined fields} {r : Refinement fields} (h : r.isEmpty = true) :
    x.refine r = x := by
  induction x <;> cases r <;> simp_all [refine, Refinement.isEmpty, Refinement.refine_of_isEmpty]

end Refined

def TextAlign.default : TextAlign := .left

/-- `TextStyle`'s fields: the one that the stack reads, before all the others. -/
abbrev textStyle (others : Fields) : Fields := .plain TextAlign others

def Refined.textAlign {others : Fields} : Refined (textStyle others) → TextAlign
  | .plain textAlign _ => textAlign

def Refinement.textAlign {others : Fields} : Refinement (textStyle others) → Option TextAlign
  | .plain textAlign _ => textAlign

structure TextStyleStack (others : Fields) where
  refinements : List (Refinement (textStyle others))
  resolved : List (Option (Refined (textStyle others)))

namespace TextStyleStack

variable {others : Fields} (stack : TextStyleStack others)

def default : TextStyleStack others := ⟨[], [none]⟩

def push (refinement : Refinement (textStyle others)) : TextStyleStack others :=
  ⟨stack.refinements ++ [refinement], stack.resolved ++ [none]⟩

def pop : TextStyleStack others :=
  if stack.refinements.length = 0 then stack
  else
    let depth := stack.refinements.length - 1
    ⟨stack.refinements.take depth, stack.resolved.take (depth + 1)⟩

def clear : TextStyleStack others := ⟨[], stack.resolved.take 1⟩

/-- The last style known in `resolved[..depth]`, with its place. -/
def known (resolved : List (Option (Refined (textStyle others)))) :
    ℕ → Option (Refined (textStyle others) × ℕ)
  | 0 => none
  | depth + 1 =>
    match resolved[depth]? with
    | some (some style) => some (style, depth)
    | _ => known resolved depth

variable (defaults : Refined others)

def defaultStyle : Refined (textStyle others) := .plain .default defaults

/-- `none` where `resolved` is too short, which panics. -/
def resolve : Option (Refined (textStyle others) × TextStyleStack others) :=
  let depth := stack.refinements.length
  match stack.resolved[depth]? with
  | none => none
  | some (some style) => some (style, stack)
  | some none =>
    let (style, start) := (known stack.resolved depth).getD (defaultStyle defaults, 0)
    let style := (stack.refinements.drop start).foldl Refined.refine style
    some (style, { stack with resolved := stack.resolved.set depth (some style) })

def textAlign : Option TextAlign :=
  match stack.resolved[stack.refinements.length]? with
  | none => none
  | some (some style) => some style.textAlign
  | some none => some ((stack.refinements.reverse.findSome? (·.textAlign)).getD .default)

inductive Op (others : Fields)
  | push (refinement : Refinement (textStyle others))
  | pop
  | clear
  | resolve

def step : Op others → Option (TextStyleStack others)
  | .push refinement => some (stack.push refinement)
  | .pop => some stack.pop
  | .clear => some stack.clear
  | .resolve => (stack.resolve defaults).map (·.2)

def run : List (Op others) → Option (TextStyleStack others) :=
  foldlM (step · defaults) .default

/-- What an operation makes of the refinements pushed. -/
def Op.pushed (refinements : List (Refinement (textStyle others))) :
    Op others → List (Refinement (textStyle others))
  | .push refinement => refinements ++ [refinement]
  | .pop => refinements.dropLast
  | .clear => []
  | .resolve => refinements

def styled (refinements : List (Refinement (textStyle others))) : Refined (textStyle others) :=
  refinements.foldl Refined.refine (defaultStyle defaults)

/-- The styles remembered are those of the refinements below them. -/
structure Holds : Prop where
  length_eq : stack.resolved.length = stack.refinements.length + 1
  known : ∀ depth style, stack.resolved[depth]? = some (some style) →
    style = styled defaults (stack.refinements.take depth)

variable {stack defaults}

lemma known_eq_some {resolved : List (Option (Refined (textStyle others)))} {depth start : ℕ}
    {style : Refined (textStyle others)} (h : known resolved depth = some (style, start)) :
    start < depth ∧ resolved[start]? = some (some style) := by
  induction depth with
  | zero => cases h
  | succ depth ih =>
    rw [known] at h
    split at h
    · cases h
      exact ⟨Nat.lt_succ_self _, by assumption⟩
    · have := ih h
      exact ⟨by omega, this.2⟩

lemma textAlign_styled (refinements : List (Refinement (textStyle others))) :
    (styled defaults refinements).textAlign =
      (refinements.reverse.findSome? (·.textAlign)).getD .default := by
  induction refinements using reverseRecOn with
  | nil => rfl
  | append_singleton refinements refinement ih =>
    rw [styled, foldl_append, ← styled, reverse_append]
    generalize styled defaults refinements = style at *
    cases refinement with
    | plain given more =>
      cases style
      cases given <;> simp_all [Refined.refine, Refined.textAlign, Refinement.textAlign]

namespace Holds

variable (h : stack.Holds defaults)
include h

lemma refine_known (depth : ℕ) :
    let base := (TextStyleStack.known stack.resolved depth).getD (defaultStyle defaults, 0)
    (stack.refinements.drop base.2).foldl Refined.refine base.1 =
      styled defaults stack.refinements := by
  intro base
  have hbase : base.1 = styled defaults (stack.refinements.take base.2) := by
    cases hknown : TextStyleStack.known stack.resolved depth with
    | none => simp [base, hknown, styled]
    | some found => simpa [base, hknown] using h.known _ _ (known_eq_some hknown).2
  rw [hbase, styled, ← foldl_append, take_append_drop, styled]

lemma remember :
    Holds { stack with
      resolved := stack.resolved.set stack.refinements.length
        (some (styled defaults stack.refinements)) } defaults where
  length_eq := by simpa using h.length_eq
  known depth style hset := by
    simp only [getElem?_set] at hset
    split_ifs at hset with heq
    · subst heq
      simp_all
    · exact h.known _ _ hset

/-- What is resolved is the style pushed, whatever was known. -/
lemma resolve : ∃ next, stack.resolve defaults = some (styled defaults stack.refinements, next) ∧
    next.Holds defaults ∧ next.refinements = stack.refinements := by
  obtain ⟨entry, hentry⟩ : ∃ entry, stack.resolved[stack.refinements.length]? = some entry :=
    Option.isSome_iff_exists.mp (by simp [h.length_eq])
  cases entry with
  | some style =>
    have hstyle := h.known _ _ hentry
    rw [take_length] at hstyle
    exact ⟨stack, by simp [TextStyleStack.resolve, hentry, hstyle], h, rfl⟩
  | none =>
    refine ⟨_, ?_, h.remember, rfl⟩
    simp only [TextStyleStack.resolve, hentry]
    rw [h.refine_known]

lemma textAlign : stack.textAlign = some (styled defaults stack.refinements).textAlign := by
  unfold TextStyleStack.textAlign
  split
  · have hlength := h.length_eq
    simp_all
  · next style hentry =>
    have hstyle := h.known _ _ hentry
    rw [take_length] at hstyle
    rw [hstyle]
  · rw [textAlign_styled]

lemma step (op : Op others) : ∃ next, stack.step defaults op = some next ∧ next.Holds defaults ∧
    next.refinements = op.pushed stack.refinements := by
  have hlength := h.length_eq
  cases op with
  | push refinement =>
    refine ⟨_, rfl, ⟨by simp [push, hlength], fun depth style hentry => ?_⟩, rfl⟩
    simp only [push, getElem?_append, getElem?_singleton] at hentry
    split_ifs at hentry with hdepth
    swap
    · cases hentry
    have hle : depth ≤ stack.refinements.length := by omega
    rw [push, take_append_of_le_length hle]
    exact h.known _ _ hentry
  | pop =>
    refine ⟨_, rfl, ?_, ?_⟩ <;> unfold pop <;> split_ifs with hempty
    · exact h
    · refine ⟨by simp [hlength], fun depth style hentry => ?_⟩
      simp only [getElem?_take] at hentry
      split_ifs at hentry with hdepth
      simp only [take_take]
      rw [min_eq_left (by omega)]
      exact h.known _ _ hentry
    · simp_all [Op.pushed]
    · simp [Op.pushed, dropLast_eq_take]
  | clear =>
    refine ⟨_, rfl, ⟨by simp [clear, hlength], fun depth style hentry => ?_⟩, rfl⟩
    simp only [clear, getElem?_take] at hentry
    split_ifs at hentry with hdepth
    obtain rfl : depth = 0 := by omega
    exact h.known _ _ hentry
  | resolve =>
    obtain ⟨next, hresolve, hnext, heq⟩ := h.resolve
    exact ⟨next, by simp [TextStyleStack.step, hresolve], hnext, heq⟩

end Holds

lemma holds_default : Holds (default : TextStyleStack others) defaults where
  length_eq := rfl
  known depth style h := by
    cases depth <;> simp [default] at h

lemma run_holds (ops : List (Op others)) : ∃ stack, run defaults ops = some stack ∧
    stack.Holds defaults ∧ stack.refinements = ops.foldl Op.pushed [] := by
  induction ops using reverseRecOn with
  | nil => exact ⟨_, rfl, holds_default, rfl⟩
  | append_singleton ops op ih =>
    obtain ⟨stack, hrun, hstack, heq⟩ := ih
    obtain ⟨next, hstep, hnext, hpushed⟩ := hstack.step op
    refine ⟨next, ?_, hnext, by rw [hpushed, heq, foldl_append]; rfl⟩
    rw [run, foldlM_append, ← run, hrun]
    simp [hstep]

end TextStyleStack

open TextStyleStack in
/-- Refinements compose as the trait documents, field by field, and so the stack's remembered styles
are those of its refinements after any run. -/
theorem refinements_compose :
    (∀ (fields : Fields) (x : Refined fields) (r s : Refinement fields),
      x.refined r = x.refine r ∧ r.refined s = r.refine s ∧
      (x.refine r).refine s = x.refine (r.refined s) ∧ (x.isSupersetOf r = true ↔ x.refine r = x) ∧
      r.refine (s.subtract r) = r.refine s ∧ r.isSome = !r.isEmpty ∧
      (r.isEmpty = true → x.refine r = x)) ∧
    ∀ (others : Fields) (defaults : Refined others) (ops : List (Op others)),
      ∃ stack, run defaults ops = some stack ∧
        (stack.resolve defaults).map (·.1) = some (styled defaults (ops.foldl Op.pushed [])) ∧
        stack.textAlign = some (styled defaults (ops.foldl Op.pushed [])).textAlign := by
  constructor
  · intro fields x r s
    refine ⟨x.refined_eq_refine r, r.refined_eq_refine s, ?_, x.isSupersetOf_iff r,
      r.refine_subtract s, r.isSome_eq, Refined.refine_of_isEmpty⟩
    rw [r.refined_eq_refine, x.refine_refine]
  · intro others defaults ops
    obtain ⟨stack, hrun, hstack, heq⟩ := @run_holds _ defaults ops
    obtain ⟨next, hresolve, -⟩ := hstack.resolve
    refine ⟨stack, hrun, ?_, ?_⟩
    · rw [hresolve, heq, Option.map_some]
    · rw [hstack.textAlign, heq]

end GpuiFast
