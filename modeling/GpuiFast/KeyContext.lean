import Mathlib.Tactic.Common

/-! The contexts of the elements from the window's root to the focused one, and the predicates over
them that key bindings carry. -/

namespace GpuiFast

structure ContextEntry where
  key : String
  value : Option String

abbrev KeyContext := List ContextEntry

namespace KeyContext

def contains (context : KeyContext) (key : String) : Bool :=
  context.any (fun entry => entry.key = key)

def get (context : KeyContext) (key : String) : Option String :=
  (context.find? (fun entry => entry.key = key)).bind ContextEntry.value

end KeyContext

inductive KeyBindingContextPredicate where
  | identifier (name : String)
  | equal (left right : String)
  | notEqual (left right : String)
  /-- Matches a predicate below another in the element tree. -/
  | descendant (parent child : KeyBindingContextPredicate)
  | not (predicate : KeyBindingContextPredicate)
  | and (left right : KeyBindingContextPredicate)
  | or (left right : KeyBindingContextPredicate)
  deriving DecidableEq

namespace KeyBindingContextPredicate

/-- Evaluates a predicate at the end of `contexts`, arranged from lowest to highest. -/
def evalInner : KeyBindingContextPredicate → (contexts allContexts : List KeyContext) → Bool
  | predicate, contexts, allContexts =>
    match contexts.getLast? with
    | none => false
    | some context =>
      match predicate with
      | .identifier name => context.contains name
      | .equal left right => ((context.get left).map (fun value => decide (value = right))).getD false
      | .notEqual left right =>
        ((context.get left).map (fun value => decide (value ≠ right))).getD true
      | .not predicate =>
        !(List.range allContexts.length).any (fun i =>
          predicate.evalInner (allContexts.take (i + 1)) allContexts)
      | .descendant parent child =>
        -- the first ancestor that matches decides
        match (List.range (contexts.length - 1)).find? (fun i =>
            parent.evalInner (contexts.take (i + 1)) allContexts) with
        | some i => child.evalInner (contexts.drop (i + 1)) (contexts.drop (i + 1))
        | none => false
      | .and left right => left.evalInner contexts allContexts && right.evalInner contexts allContexts
      | .or left right => left.evalInner contexts allContexts || right.evalInner contexts allContexts

def eval (predicate : KeyBindingContextPredicate) (contexts : List KeyContext) : Bool :=
  predicate.evalInner contexts contexts

def depthOf (predicate : KeyBindingContextPredicate) (contexts : List KeyContext) : Option ℕ :=
  (List.range (contexts.length + 1)).reverse.find? (fun depth =>
    predicate.evalInner (contexts.take depth) contexts)

end KeyBindingContextPredicate

end GpuiFast
