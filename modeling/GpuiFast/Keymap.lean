import GpuiFast.KeyContext
import Mathlib.Data.List.Sort

/-! Key bindings in the order they were added, and how typed keystrokes are resolved against them in a
stack of key contexts. What a typed keystroke matches depends on the platform only in which
modifiers an input method leaves on the character it produced. -/

namespace GpuiFast

structure Modifiers where
  control : Bool
  alt : Bool
  shift : Bool
  platform : Bool
  function : Bool
  deriving DecidableEq

def Modifiers.none : Modifiers := ⟨false, false, false, false, false⟩

structure Keystroke where
  modifiers : Modifiers
  key : String
  /-- The character that could have been typed with it. -/
  keyChar : Option String
  deriving DecidableEq

structure KeybindingKeystroke where
  inner : Keystroke
  display : Option (Modifiers × String)
  deriving DecidableEq

/-- Whether `typed` may be meant for `target`, by its key or by the character it produced. -/
def Keystroke.shouldMatch (windows : Bool) (typed : Keystroke) (target : KeybindingKeystroke) :
    Bool :=
  let imeModifiers := if windows then Modifiers.none else
    { Modifiers.none with control := typed.modifiers.control, platform := typed.modifiers.platform }
  (typed.keyChar.filter (fun keyChar => keyChar ≠ typed.key)).any (fun keyChar =>
      target.inner.key = keyChar && target.inner.modifiers = imeModifiers) ||
    (target.inner.modifiers = typed.modifiers && target.inner.key = typed.key)

inductive Action where
  | noAction
  | unbind (name : String)
  | action (name : String) (arguments : String)
  deriving DecidableEq

namespace Action

def name : Action → String
  | .noAction => "zed::NoAction"
  | .unbind _ => "zed::Unbind"
  | .action name _ => name

def isNoAction : Action → Bool
  | .noAction => true
  | _ => false

def isUnbind : Action → Bool
  | .unbind _ => true
  | _ => false

end Action

structure KeyBinding where
  action : Action
  keystrokes : List KeybindingKeystroke
  contextPredicate : Option KeyBindingContextPredicate
  /-- Where the binding comes from; a smaller one is stronger. -/
  metaIndex : Option ℕ
  deriving DecidableEq

namespace KeyBinding

def disables (binding : KeyBinding) : Bool :=
  binding.action.isNoAction || binding.action.isUnbind

/-- Whether `typed` matches the binding, and then whether keystrokes are still missing. -/
def matchKeystrokes (windows : Bool) (binding : KeyBinding) (typed : List Keystroke) :
    Option Bool :=
  if binding.keystrokes.length < typed.length then none
  else if (binding.keystrokes.zip typed).all (fun pair => pair.2.shouldMatch windows pair.1) then
    some (decide (typed.length < binding.keystrokes.length))
  else none

def source (binding : KeyBinding) : ℕ := binding.metaIndex.getD 0

/-- `binding_is_unbound`. -/
def unbinds (disabled binding : KeyBinding) : Bool :=
  decide (disabled.keystrokes = binding.keystrokes) &&
    match disabled.action with
    | .unbind name => decide (name = binding.action.name)
    | _ => false

def enabled (binding : KeyBinding) (contexts : List KeyContext) : Option ℕ :=
  match binding.contextPredicate with
  | some predicate => predicate.depthOf contexts
  | none => some contexts.length

end KeyBinding

structure Keymap where
  bindings : List KeyBinding

namespace Keymap

structure Matched where
  depth : ℕ
  index : ℕ
  binding : KeyBinding
  deriving DecidableEq

/-- `a` comes before `b`: it is deeper, or as deep and added later. -/
def Matched.Before (a b : Matched) : Prop :=
  b.depth < a.depth ∨ a.depth = b.depth ∧ b.index ≤ a.index

instance : DecidableRel Matched.Before := fun a b =>
  inferInstanceAs (Decidable (b.depth < a.depth ∨ a.depth = b.depth ∧ b.index ≤ a.index))

/-- What has been found while matched bindings are gone through in precedence order. -/
structure Resolving where
  bindings : List (ℕ × KeyBinding)
  firstBindingIndex : Option ℕ
  unboundBindings : List KeyBinding
  /-- The strongest source of a `NoAction` passed. -/
  noActionMeta : Option ℕ

def resolveNext (found : Resolving) (matched : Matched) : Resolving :=
  let binding := matched.binding
  if binding.action.isNoAction then
    { found with
      noActionMeta := some (found.noActionMeta.elim binding.source (min · binding.source)) }
  else if found.noActionMeta.any (fun noActionMeta => noActionMeta ≤ binding.source) then found
  else if binding.action.isUnbind then
    { found with unboundBindings := found.unboundBindings ++ [binding] }
  else if found.unboundBindings.any (fun disabled => disabled.unbinds binding) then found
  else
    { found with
      bindings := found.bindings ++ [(matched.index, binding)]
      firstBindingIndex := some (found.firstBindingIndex.getD matched.index) }

def pendNext (pending : List (List KeybindingKeystroke)) (binding : KeyBinding) :
    List (List KeybindingKeystroke) :=
  if binding.disables then pending.filter (· ≠ binding.keystrokes)
  else pending.insert binding.keystrokes

def matchedBindings (windows : Bool) (input : List Keystroke) (contexts : List KeyContext)
    (keymapBindings : List (ℕ × KeyBinding)) : List Matched :=
  keymapBindings.filterMap (fun entry =>
    (entry.2.enabled contexts).bind (fun depth =>
      if entry.2.matchKeystrokes windows input = some false then some ⟨depth, entry.1, entry.2⟩
      else none))

def pendingBindings (windows : Bool) (input : List Keystroke) (contexts : List KeyContext)
    (keymapBindings : List (ℕ × KeyBinding)) : List (ℕ × KeyBinding) :=
  keymapBindings.filter (fun entry => (entry.2.enabled contexts).isSome &&
    entry.2.matchKeystrokes windows input = some true)

/-- The bindings of `keymapBindings`, in reverse keymap order, that `input` runs, in precedence
order, and whether more might match if the input was longer. -/
def resolveBindingsForInput (windows : Bool) (input : List Keystroke) (contexts : List KeyContext)
    (keymapBindings : List (ℕ × KeyBinding)) : List (ℕ × KeyBinding) × Bool :=
  let found := ((matchedBindings windows input contexts keymapBindings).insertionSort
    Matched.Before).foldl resolveNext ⟨[], none, [], none⟩
  let pending := (pendingBindings windows input contexts keymapBindings).reverse.foldl
    (fun pending entry =>
      if found.firstBindingIndex.any (fun first => entry.1 < first) then pending
      else pendNext pending entry.2) []
  (found.bindings, !pending.isEmpty)

def reversed (keymap : Keymap) : List (ℕ × KeyBinding) :=
  (keymap.bindings.zipIdx.map Prod.swap).reverse

def bindingsForInput (keymap : Keymap) (windows : Bool) (input : List Keystroke)
    (contexts : List KeyContext) : List KeyBinding × Bool :=
  let resolved := resolveBindingsForInput windows input contexts keymap.reversed
  (resolved.1.map Prod.snd, resolved.2)

/-- The typed input with the keystrokes that `binding` still misses. -/
def fullInput (input : List Keystroke) (binding : KeyBinding) : List Keystroke :=
  input ++ (binding.keystrokes.drop input.length).map KeybindingKeystroke.inner

/-- The bindings that can follow `input`, in precedence order. -/
def possibleNextBindingsForInput (keymap : Keymap) (windows : Bool) (input : List Keystroke)
    (contexts : List KeyContext) : List KeyBinding :=
  let extending := keymap.reversed.filter (fun entry =>
    entry.2.matchKeystrokes windows input = some true)
  let candidates := (extending.filter (fun entry => !entry.2.disables)).filterMap (fun entry =>
    (entry.2.enabled contexts).bind (fun depth =>
      let dispatched := (resolveBindingsForInput windows (fullInput input entry.2) contexts
        extending).1
      if dispatched.any (fun d => d.1 = entry.1) then some (⟨depth, entry.1, entry.2⟩ : Matched)
      else none))
  (candidates.insertionSort Matched.Before).map Matched.binding

end Keymap

end GpuiFast
