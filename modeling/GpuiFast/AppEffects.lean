import GpuiFast.DispatchTree
import GpuiFast.SubscribersRuns

/-! Observers and event listeners, and the queue of effects that is flushed when an update ends.
Registering a callback defers its activation to the end of the queue; a notification of what is
already waiting to be notified is folded into the effect that waits. Code that an update or a
callback runs is any sequence of the operations below; drawing is left out. -/

namespace GpuiFast

inductive Notified where
  | entity (id : EntityId)
  | global (globalType : ℕ)
  deriving DecidableEq

/-- What a callback is registered with. Observers of entities, observers of globals and event
listeners are in a subscriber set each, told apart here by what they are registered with. -/
inductive Emitter where
  | observed (notified : Notified)
  | listened (entity : EntityId)
  deriving DecidableEq

inductive Effect where
  /-- `Notify` of an entity, or `NotifyGlobalObservers`. -/
  | notify (notified : Notified)
  | emit (emitter : EntityId) (eventType event : ℕ)
  | activate (id : ℕ)
  | defer
  deriving DecidableEq

/-- What runs: nothing, code of an update or of a deferred callback, the flush between effects, or
the callbacks an effect is for. -/
inductive Phase where
  | idle
  | running
  | flushing
  | applying (effect : Effect)
  deriving DecidableEq

inductive AppObservation where
  | registered (id : ℕ) (emitter : Emitter)
  | notified (notified : Notified)
  | emitted (emitter : EntityId) (eventType event : ℕ)
  | called (id : ℕ) (event : Option ℕ)
  deriving DecidableEq

structure App where
  subscribers : SubscriberSet Emitter
  listenerTypes : ℕ → ℕ
  pendingEffects : List Effect
  pendingNotifications : List Notified
  droppedEntities : List EntityId
  phase : Phase
  log : List AppObservation

namespace App

def new : App := ⟨.new, fun _ => 0, [], [], [], .idle, []⟩

def pushEffect (app : App) (effect : Effect) : App :=
  match effect with
  | .notify n =>
    if n ∈ app.pendingNotifications then app
    else
      { app with
        pendingNotifications := app.pendingNotifications ++ [n]
        pendingEffects := app.pendingEffects ++ [effect] }
  | _ => { app with pendingEffects := app.pendingEffects ++ [effect] }

def register (app : App) (emitter : Emitter) (eventType : ℕ) : App :=
  let id := app.subscribers.nextSubscriberId
  App.pushEffect
    { app with
      subscribers := app.subscribers.insertPending emitter
      listenerTypes := Function.update app.listenerTypes id eventType
      log := app.log ++ [.registered id emitter] }
    (.activate id)

def notify (app : App) (n : Notified) : App :=
  App.pushEffect { app with log := app.log ++ [.notified n] } (.notify n)

def emit (app : App) (emitter : EntityId) (eventType event : ℕ) : App :=
  App.pushEffect { app with log := app.log ++ [.emitted emitter eventType event] }
    (.emit emitter eventType event)

def dropSubscription (app : App) (id : ℕ) : App :=
  { app with subscribers := app.subscribers.drop id }

def release (app : App) (entity : EntityId) : App :=
  { app with
    subscribers :=
      (app.subscribers.remove (.observed (.entity entity))).remove (.listened entity)
    phase := .running }

def applyNext (app : App) : App :=
  match app.pendingEffects with
  | [] => { app with phase := .idle }
  | .notify n :: effects =>
    { app with
      pendingEffects := effects
      pendingNotifications := app.pendingNotifications.filter (· ≠ n)
      subscribers := app.subscribers.retain (.observed n)
      phase := .applying (.notify n) }
  | .emit emitter eventType event :: effects =>
    { app with
      pendingEffects := effects
      subscribers := app.subscribers.retain (.listened emitter)
      phase := .applying (.emit emitter eventType event) }
  | .activate id :: effects =>
    { app with pendingEffects := effects, subscribers := app.subscribers.activate id }
  | .defer :: effects => { app with pendingEffects := effects, phase := .running }

def calling (set : SubscriberSet Emitter) : Option ℕ := set.retaining.head?.bind (·.calling)

def isDropped (app : App) : Notified → Bool
  | .entity e => decide (e ∈ app.droppedEntities)
  | .global _ => false

/-- A callback's turn came: it runs, unless it listens for other events, or the entity's handle it
holds weakly cannot be upgraded. -/
def call (app : App) (set : SubscriberSet Emitter) (id : ℕ) : Effect → App
  | .notify n =>
    if app.isDropped n then { app with subscribers := set.callbackReturns false }
    else { app with subscribers := set, log := app.log ++ [.called id none] }
  | .emit emitter eventType event =>
    if app.listenerTypes id ≠ eventType then { app with subscribers := set.callbackReturns true }
    else if emitter ∈ app.droppedEntities then
      { app with subscribers := set.callbackReturns false }
    else { app with subscribers := set, log := app.log ++ [.called id (some event)] }
  | .activate _ | .defer => app

/-- Goes on with the callbacks of `effect`, or ends it. -/
def proceed (app : App) (effect : Effect) : App :=
  if app.subscribers.retaining.isEmpty then { app with phase := .flushing }
  else
    let set := app.subscribers.proceed
    match calling set with
    | none => { app with subscribers := set }
    | some id => app.call set id effect

inductive Event where
  | update
  | observe (notified : Notified)
  | subscribe (entity : EntityId) (eventType : ℕ)
  | notify (notified : Notified)
  | emit (emitter : EntityId) (eventType event : ℕ)
  | defer
  | drop (id : ℕ)
  | dropEntity (entity : EntityId)
  /-- The code that runs ends. -/
  | finish
  | release (entity : EntityId)
  | applyNext
  | proceed
  | callbackReturns (keep : Bool)

def code (app : App) : Event → App
  | .observe n => app.register (.observed n) 0
  | .subscribe e eventType => app.register (.listened e) eventType
  | .notify n => app.notify n
  | .emit e eventType event => app.emit e eventType event
  | .defer => app.pushEffect .defer
  | .drop id => app.dropSubscription id
  | .dropEntity e => { app with droppedEntities := app.droppedEntities ++ [e] }
  | _ => app

/-- One step; what cannot happen now changes nothing. -/
def step (app : App) (event : Event) : App :=
  match app.phase with
  | .idle =>
    match event with
    | .update => { app with phase := .running }
    | _ => app
  | .running =>
    match event with
    | .finish => { app with phase := .flushing }
    | _ => app.code event
  | .flushing =>
    match event with
    | .release e => if e ∈ app.droppedEntities then app.release e else app
    | .applyNext => app.applyNext
    | _ => app
  | .applying effect =>
    if (calling app.subscribers).isSome then
      match event with
      | .callbackReturns keep => { app with subscribers := app.subscribers.callbackReturns keep }
      | _ => app.code event
    else
      match event with
      | .proceed => app.proceed effect
      | _ => app

def run (events : List Event) : App := events.foldl step new

def delivered (id : ℕ) (log : List AppObservation) : List ℕ :=
  log.filterMap (fun
    | .called i (some event) => if i = id then some event else none
    | _ => none)

def emittedBy (emitter : EntityId) (eventType : ℕ) (log : List AppObservation) : List ℕ :=
  log.filterMap (fun
    | .emitted e t event => if e = emitter ∧ t = eventType then some event else none
    | _ => none)

def alive (app : App) (id : ℕ) (emitter : Emitter) : Prop :=
  (id, emitter) ∈ SubscriberSet.existing app.subscribers.log ∧
    match emitter with
    | .observed n => app.isDropped n = false
    | .listened e => e ∉ app.droppedEntities

end App

end GpuiFast
