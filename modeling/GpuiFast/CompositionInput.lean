import GpuiFast.CompositionTree

/-! A cooperating producer can register a handler for the input of its platform surface, which forwards
its input from then on. Registering hands the platform the order again and undoes itself if the
platform refuses, as the changes of the tree do; a removed surface loses its handler. -/

namespace GpuiFast

structure InputCompositionState (S H : Type*) where
  composition : WindowCompositionState S
  /-- The flag of each platform surface. The surface keeps it while it is out of the map of platform
  surfaces, and starts without. -/
  inputForwarding : S → Bool
  inputHandlers : KeyMap S H

inductive InputCompositionAction (S H : Type*) where
  | change (action : CompositionAction S)
  | onInput (surface : S) (handler : H) (answers : PlatformAnswers)

namespace InputCompositionState

variable {S H : Type*} [DecidableEq S]

def requiresNative : String := "input consumer requires a native surface"

def new (base overlay : S) : InputCompositionState S H where
  composition := .new base overlay
  inputForwarding := fun _ => false
  inputHandlers := .empty

def onInput (state : InputCompositionState S H) (surface : S) (handler : H)
    (answers : PlatformAnswers) : Option (InputCompositionState S H × Except String Unit) :=
  if (state.composition.platformSurfaces.get? surface).isSome then
    let previous := state.inputHandlers.get? surface
    let inputForwarding := Function.update state.inputForwarding surface true
    let inputHandlers := state.inputHandlers.insert surface handler
    (state.composition.synchronizePlatformOrder answers.orders).bind fun
      | (composition, .ok ()) => some (⟨composition, inputForwarding, inputHandlers⟩, .ok ())
      | (composition, .error error) =>
        let inputForwarding := Function.update inputForwarding surface previous.isSome
        let inputHandlers :=
          match previous with
          | some previous => inputHandlers.insert surface previous
          | none => inputHandlers.filter (fun s _ => s ≠ surface)
        (composition.synchronizePlatformOrder answers.ordersBack).map fun undone =>
          (⟨undone.1, inputForwarding, inputHandlers⟩, .error error)
  else some (state, .error requiresNative)

def changed (state : InputCompositionState S H)
    (outcome : Option (WindowCompositionState S × Except String Unit)) :
    Option (InputCompositionState S H × Except String Unit) :=
  outcome.map fun (composition, result) => ({ state with composition := composition }, result)

def newPlatformSurface (state : InputCompositionState S H) (id : S) : InputCompositionState S H :=
  { state with inputForwarding := Function.update state.inputForwarding id false }

def createNativeSurface (state : InputCompositionState S H) (id : S) (answers : PlatformAnswers) :
    Option (InputCompositionState S H × Except String Unit) :=
  (if answers.creates then state.newPlatformSurface id else state).changed
    (state.composition.createNativeSurface id answers)

def createExternalGpuSurface (state : InputCompositionState S H) (id : S)
    (answers : PlatformAnswers) : Option (InputCompositionState S H × Except String Unit) :=
  (state.newPlatformSurface id).changed (state.composition.createExternalGpuSurface id answers)

def removeSurface (state : InputCompositionState S H) (surface : S) (answers : PlatformAnswers) :
    Option (InputCompositionState S H × Except String Unit) :=
  (state.composition.removeSurface surface answers).map fun
    | (composition, .ok ()) =>
      ({ state with
          composition := composition
          inputHandlers := state.inputHandlers.filter (fun s _ => s ≠ surface) }, .ok ())
    | (composition, .error error) => ({ state with composition := composition }, .error error)

/-- What an action does and returns; `none` if it does not return. The synchronizations, whose
failures are logged, and what is done to a platform surface's own state return nothing. -/
def attempt (state : InputCompositionState S H) :
    InputCompositionAction S H → Option (InputCompositionState S H × Except String Unit)
  | .onInput surface handler answers => state.onInput surface handler answers
  | .change action =>
    match action with
    | .createNativeSurface id answers =>
      if state.composition.isFresh id then state.createNativeSurface id answers
      else some (state, .ok ())
    | .createExternalGpuSurface id answers =>
      if state.composition.isFresh id then state.createExternalGpuSurface id answers
      else some (state, .ok ())
    | .createGpuiSurface id parent answers =>
      if state.composition.isFresh id then
        state.changed (state.composition.createGpuiSurface id parent answers)
      else some (state, .ok ())
    | .placeAbove surface sibling answers =>
      state.changed (state.composition.placeAbove surface sibling answers)
    | .placeBelow surface sibling answers =>
      state.changed (state.composition.placeBelow surface sibling answers)
    | .reparent surface parent answers =>
      state.changed (state.composition.reparent surface parent answers)
    | .removeSurface surface answers => state.removeSurface surface answers
    | action => state.changed ((state.composition.step action).map (·, .ok ()))

def run (base overlay : S) (actions : List (InputCompositionAction S H)) :
    Option (InputCompositionState S H) :=
  actions.foldlM (fun state action => (state.attempt action).map Prod.fst) (new base overlay)

structure Unchanged (before after : InputCompositionState S H) : Prop where
  roots : after.composition.tree.roots = before.composition.tree.roots
  surfaces : ∀ x, after.composition.tree.surfaces.get? x = before.composition.tree.surfaces.get? x
  platformSurfaces : ∀ x,
    after.composition.platformSurfaces.get? x = before.composition.platformSurfaces.get? x
  inputForwarding : ∀ x, (before.composition.platformSurfaces.get? x).isSome →
    after.inputForwarding x = before.inputForwarding x
  inputHandlers : ∀ x, after.inputHandlers.get? x = before.inputHandlers.get? x

/-- Whether what an action changes before it fails is undone: a platform surface is registered while
the overlay surface is a root, and a removed surface that was visible is shown again if the order
without it is refused. -/
def undoes (state : InputCompositionState S H) : InputCompositionAction S H → Bool
  | .change (.createNativeSurface _ answers) =>
    !answers.creates ||
      decide (state.composition.tree.parent state.composition.overlaySurface = none)
  | .change (.createExternalGpuSurface _ _) =>
    decide (state.composition.tree.parent state.composition.overlaySurface = none)
  | .change (.removeSurface surface answers) =>
    !answers.hides || answers.orders || answers.shows ||
      !(state.composition.platformSurfaces.get? surface).any (·.visible)
  | _ => true

def undoesAll (state : InputCompositionState S H) : List (InputCompositionAction S H) → Bool
  | [] => true
  | action :: actions =>
    state.undoes action &&
      match state.attempt action with
      | none => true
      | some (state, _) => undoesAll state actions

end InputCompositionState

end GpuiFast
