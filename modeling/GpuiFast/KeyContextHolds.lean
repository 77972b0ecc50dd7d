import GpuiFast.KeyContext
import Mathlib.Tactic

namespace GpuiFast

open List

namespace KeyBindingContextPredicate

/-- No part of the predicate is negated; `!=` looks at the innermost context only. -/
def NegationFree : KeyBindingContextPredicate → Prop
  | .identifier _ | .equal _ _ | .notEqual _ _ => True
  | .not _ => False
  | .descendant left right | .and left right | .or left right =>
    left.NegationFree ∧ right.NegationFree

def decidableNegationFree : (predicate : KeyBindingContextPredicate) →
    Decidable predicate.NegationFree
  | .identifier _ | .equal _ _ | .notEqual _ _ => inferInstanceAs (Decidable True)
  | .not _ => inferInstanceAs (Decidable False)
  | .descendant left right | .and left right | .or left right =>
    @instDecidableAnd _ _ left.decidableNegationFree right.decidableNegationFree

instance (predicate : KeyBindingContextPredicate) : Decidable predicate.NegationFree :=
  predicate.decidableNegationFree

def Holds : KeyBindingContextPredicate → List KeyContext → Prop
  | .identifier name, stack => ∃ context, stack.getLast? = some context ∧
      ∃ entry ∈ context, entry.key = name
  | .equal left right, stack => ∃ context, stack.getLast? = some context ∧
      context.get left = some right
  | .notEqual left right, stack => ∃ context, stack.getLast? = some context ∧
      context.get left ≠ some right
  | .descendant parent child, stack => ∃ outer inner, stack = outer ++ inner ∧ outer ≠ [] ∧
      inner ≠ [] ∧ parent.Holds outer ∧ child.Holds inner
  | .not predicate, stack => stack ≠ [] ∧
      ∀ outer inner, stack = outer ++ inner → ¬ predicate.Holds outer
  | .and left right, stack => left.Holds stack ∧ right.Holds stack
  | .or left right, stack => left.Holds stack ∨ right.Holds stack

attribute [grind =] evalInner Holds

variable {predicate : KeyBindingContextPredicate}

variable {stack : List KeyContext} (left right : KeyBindingContextPredicate)
  (contexts all : List KeyContext)

lemma Holds.ne_nil (h : predicate.Holds stack) : stack ≠ [] := by
  rintro rfl
  induction predicate with
  | identifier => simp [Holds] at h
  | equal => simp [Holds] at h
  | notEqual => simp [Holds] at h
  | descendant parent child ihp ihc =>
    obtain ⟨outer, inner, heq, houter, -⟩ := h
    exact houter (append_eq_nil_iff.mp heq.symm).1
  | not predicate ih => exact h.1 rfl
  | and left right ihl ihr => exact ihl h.1
  | or left right ihl ihr => exact h.elim ihl ihr

lemma Holds.below (hfree : predicate.NegationFree) (h : predicate.Holds stack)
    (outer : List KeyContext) : predicate.Holds (outer ++ stack) := by
  have hlast : (outer ++ stack).getLast? = stack.getLast? :=
    getLast?_append_of_ne_nil _ h.ne_nil
  induction predicate generalizing stack outer with
  | identifier => simpa only [Holds, hlast] using h
  | equal => simpa only [Holds, hlast] using h
  | notEqual => simpa only [Holds, hlast] using h
  | descendant parent child ihp ihc =>
    obtain ⟨o, i, rfl, ho, hi, hparent, hchild⟩ := h
    have holast : (outer ++ o).getLast? = o.getLast? := getLast?_append_of_ne_nil _ ho
    exact ⟨outer ++ o, i, (append_assoc ..).symm, by simp [ho], hi,
      ihp hfree.1 hparent outer holast, hchild⟩
  | not predicate ih => exact hfree.elim
  | and left right ihl ihr => exact ⟨ihl hfree.1 h.1 outer hlast, ihr hfree.2 h.2 outer hlast⟩
  | or left right ihl ihr =>
    exact h.imp (fun h => ihl hfree.1 h outer hlast) (fun h => ihr hfree.2 h outer hlast)

lemma evalInner_nil (predicate : KeyBindingContextPredicate) (all : List KeyContext) :
    predicate.evalInner [] all = false := by
  rw [evalInner]
  rfl

lemma ne_nil_of_evalInner {contexts all : List KeyContext}
    (h : predicate.evalInner contexts all = true) : contexts ≠ [] := by
  rintro rfl
  rw [evalInner_nil] at h
  cases h

lemma evalInner_and :
    (and left right).evalInner contexts all =
      (left.evalInner contexts all && right.evalInner contexts all) := by
  cases hlast : contexts.getLast? with
  | none => simp [getLast?_eq_none_iff.mp hlast, evalInner_nil]
  | some context => rw [evalInner, hlast]

lemma evalInner_or :
    (or left right).evalInner contexts all =
      (left.evalInner contexts all || right.evalInner contexts all) := by
  cases hlast : contexts.getLast? with
  | none => simp [getLast?_eq_none_iff.mp hlast, evalInner_nil]
  | some context => rw [evalInner, hlast]

lemma evalInner_descendant {parent child : KeyBindingContextPredicate}
    {contexts all : List KeyContext} :
    (descendant parent child).evalInner contexts all = true ↔
      ∃ i < contexts.length - 1, parent.evalInner (contexts.take (i + 1)) all = true ∧
        (∀ j < i, parent.evalInner (contexts.take (j + 1)) all = false) ∧
        child.evalInner (contexts.drop (i + 1)) (contexts.drop (i + 1)) = true := by
  cases hlast : contexts.getLast? with
  | none =>
    rw [getLast?_eq_none_iff.mp hlast, evalInner_nil]
    simp
  | some context =>
    rw [evalInner, hlast]
    simp only
    split
    · next i hi =>
      rw [find?_range_eq_some] at hi
      obtain ⟨hparent, hlt, hbefore⟩ := hi
      rw [mem_range] at hlt
      have hfirst : ∀ j < i, parent.evalInner (contexts.take (j + 1)) all = false :=
        fun j hj => by simpa using hbefore j hj
      refine ⟨fun hchild => ⟨i, hlt, hparent, hfirst, hchild⟩, ?_⟩
      rintro ⟨j, -, hparent', hbefore', hchild⟩
      have hij : i = j := by
        rcases Nat.lt_trichotomy i j with h | h | h
        · rw [hbefore' i h] at hparent
          cases hparent
        · exact h
        · rw [hfirst j h] at hparent'
          cases hparent'
      rw [hij]
      exact hchild
    · next hnone =>
      rw [find?_range_eq_none] at hnone
      refine ⟨fun h => (by cases h), ?_⟩
      rintro ⟨i, hlt, hparent, -⟩
      have := hnone i hlt
      rw [hparent] at this
      cases this

lemma evalInner_iff_holds (hfree : predicate.NegationFree) (contexts all : List KeyContext) :
    predicate.evalInner contexts all = true ↔ predicate.Holds contexts := by
  induction predicate generalizing contexts all with
  | identifier name =>
    rw [evalInner]
    cases hlast : contexts.getLast? <;> simp [Holds, hlast, KeyContext.contains]
  | equal left right =>
    rw [evalInner]
    cases hlast : contexts.getLast? with
    | none => simp [Holds, hlast]
    | some context => cases hget : context.get left <;> simp [Holds, hlast, hget]
  | notEqual left right =>
    rw [evalInner]
    cases hlast : contexts.getLast? with
    | none => simp [Holds, hlast]
    | some context => cases hget : context.get left <;> simp [Holds, hlast, hget]
  | descendant parent child ihp ihc =>
    rw [evalInner_descendant]
    constructor
    · rintro ⟨i, hlt, hparent, -, hchild⟩
      refine ⟨contexts.take (i + 1), contexts.drop (i + 1), (take_append_drop ..).symm, ?_,
        ne_nil_of_evalInner hchild, (ihp hfree.1 _ _).mp hparent, (ihc hfree.2 _ _).mp hchild⟩
      exact ne_nil_of_evalInner hparent
    · rintro ⟨outer, inner, rfl, houter, hinner, hparent, hchild⟩
      have hlength : 0 < outer.length := length_pos_iff.mpr houter
      have hex : ∃ i, parent.Holds ((outer ++ inner).take (i + 1)) :=
        ⟨outer.length - 1, by rwa [Nat.sub_add_cancel hlength, take_left]⟩
      classical
      have hle : Nat.find hex ≤ outer.length - 1 :=
        Nat.find_min' hex (by rwa [Nat.sub_add_cancel hlength, take_left])
      refine ⟨Nat.find hex, ?_, (ihp hfree.1 _ _).mpr (Nat.find_spec hex), fun j hj => ?_, ?_⟩
      · have := length_pos_iff.mpr hinner
        rw [length_append]
        omega
      · rw [← Bool.not_eq_true, ihp hfree.1]
        exact Nat.find_min hex hj
      · -- the outer part found first may be shorter, and leaves more outer contexts to the child
        rw [drop_append_of_le_length (by omega)]
        exact (ihc hfree.2 _ _).mpr (hchild.below hfree.2 _)
  | not predicate ih => exact hfree.elim
  | and left right ihl ihr =>
    rw [evalInner_and, Bool.and_eq_true]
    exact and_congr (ihl hfree.1 _ _) (ihr hfree.2 _ _)
  | or left right ihl ihr =>
    rw [evalInner_or, Bool.or_eq_true]
    exact or_congr (ihl hfree.1 _ _) (ihr hfree.2 _ _)

lemma eval_iff_holds (hfree : predicate.NegationFree) (stack : List KeyContext) :
    predicate.eval stack = true ↔ predicate.Holds stack :=
  evalInner_iff_holds hfree stack stack

lemma holds_descendant_assoc (a b c : KeyBindingContextPredicate) (stack : List KeyContext) :
    (descendant (descendant a b) c).Holds stack ↔ (descendant a (descendant b c)).Holds stack := by
  constructor
  · rintro ⟨_, inner, rfl, -, hinner, ⟨outer, middle, rfl, houter, hmiddle, ha, hb⟩, hc⟩
    exact ⟨outer, middle ++ inner, append_assoc .., houter, by simp [hinner], ha,
      middle, inner, rfl, hmiddle, hinner, hb, hc⟩
  · rintro ⟨outer, _, rfl, houter, -, ha, middle, inner, rfl, hmiddle, hinner, hb, hc⟩
    exact ⟨outer ++ middle, inner, (append_assoc ..).symm, by simp [houter], hinner,
      ⟨outer, middle, rfl, houter, hmiddle, ha, hb⟩, hc⟩

/-- A predicate without negation is evaluated as it reads, though `>` commits to the first outer
part that matches; more outer contexts turn no match off, and `>` is associative. -/
theorem eval_somewhereBelow (predicate : KeyBindingContextPredicate)
    (hfree : predicate.NegationFree) :
    (∀ stack, predicate.eval stack = true ↔ predicate.Holds stack) ∧
      (∀ outer stack, predicate.eval stack = true → predicate.eval (outer ++ stack) = true) ∧
      ∀ parent child : KeyBindingContextPredicate, parent.NegationFree → child.NegationFree →
        ∀ stack, (descendant (descendant parent predicate) child).eval stack =
          (descendant parent (descendant predicate child)).eval stack := by
  refine ⟨eval_iff_holds hfree, fun outer stack h => ?_, fun parent child hp hc stack => ?_⟩
  · rw [eval_iff_holds hfree] at h ⊢
    exact h.below hfree outer
  · have hleft : (descendant (descendant parent predicate) child).NegationFree := ⟨⟨hp, hfree⟩, hc⟩
    have hright : (descendant parent (descendant predicate child)).NegationFree :=
      ⟨hp, hfree, hc⟩
    rw [Bool.eq_iff_iff, eval_iff_holds hleft, eval_iff_holds hright]
    exact holds_descendant_assoc parent predicate child stack

/-- An editor in a pane in a pane: the first pane found is not the one around the editor. -/
theorem eval_somewhereBelow_panes :
    let pane := identifier "Pane"
    let stack : List KeyContext := [[⟨"Pane", none⟩], [⟨"Pane", none⟩], [⟨"Editor", none⟩]]
    (pane.eval stack = true ↔ pane.Holds stack) ∧
      (descendant (descendant pane pane) (.identifier "Editor")).eval stack =
        (descendant pane (descendant pane (.identifier "Editor"))).eval stack :=
  ⟨(eval_somewhereBelow (identifier "Pane") (by decide)).1 _,
    (eval_somewhereBelow (identifier "Pane") (by decide)).2.2 (identifier "Pane")
      (identifier "Editor") (by decide) (by decide) _⟩

end KeyBindingContextPredicate

end GpuiFast
