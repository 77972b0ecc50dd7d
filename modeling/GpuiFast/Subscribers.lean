import GpuiFast.KeyMap
import Mathlib.Data.List.Sort

/-! The callbacks subscribed to each emitter. A retain takes an emitter's callbacks out of the set,
goes through them in the order they were registered in, and merges those left back; while a callback
runs, code outside the set may subscribe, activate, drop subscriptions and retain other emitters.
What happens is logged, for what a subscriber may expect to be said of the log. -/

namespace GpuiFast

inductive SubscriberState where
  | pending | active | dropped
  deriving DecidableEq

/-- What can be seen of a subscriber set. -/
inductive Observation (κ : Type*) where
  | subscribed (id : ℕ) (emitter : κ)
  | activated (id : ℕ)
  | dropped (id : ℕ)
  | removed (emitter : κ) (callbacks : List ℕ)
  | retain (emitter : κ)
  | turn (emitter : κ) (id : ℕ) (called : Bool)
  /-- A callback returned false. -/
  | rejected (id : ℕ)
  | retained (emitter : κ)
  deriving DecidableEq

/-- A retain that has begun: the subscribers kept, the one whose callback runs, and those whose
turn is to come. -/
structure Retaining (κ : Type*) where
  emitter : κ
  kept : List ℕ
  calling : Option ℕ
  waiting : List ℕ

/-- A subscriber set, the state cell of each subscriber, and the subscriptions handed out with
their emitter. Callbacks are known by their subscriber's id. -/
structure SubscriberSet (κ : Type*) where
  subscribers : KeyMap κ (List ℕ)
  nextSubscriberId : ℕ
  states : ℕ → SubscriberState
  subscriptions : KeyMap ℕ κ
  retaining : List (Retaining κ)
  log : List (Observation κ)

namespace SubscriberSet

variable {κ : Type*} [DecidableEq κ]

def new : SubscriberSet κ := ⟨.empty, 0, fun _ => .pending, .empty, [], []⟩

def insertId (id : ℕ) (ids : List ℕ) : List ℕ :=
  if id ∈ ids then ids else ids.orderedInsert (· ≤ ·) id

def ids (set : SubscriberSet κ) (emitter : κ) : List ℕ := (set.subscribers.get? emitter).getD []

def insertPending (set : SubscriberSet κ) (emitter : κ) : SubscriberSet κ :=
  { set with
    subscribers :=
      set.subscribers.insert emitter (insertId set.nextSubscriberId (set.ids emitter))
    nextSubscriberId := set.nextSubscriberId + 1
    states := Function.update set.states set.nextSubscriberId .pending
    subscriptions := set.subscriptions.insert set.nextSubscriberId emitter
    log := set.log ++ [.subscribed set.nextSubscriberId emitter] }

def activate (set : SubscriberSet κ) (id : ℕ) : SubscriberSet κ :=
  { set with
    states := if set.states id = .pending then Function.update set.states id .active else set.states
    log := set.log ++ [.activated id] }

/-- A subscription dropped. Nothing is left of the emitter if it was its last one in the set. -/
def drop (set : SubscriberSet κ) (id : ℕ) : SubscriberSet κ :=
  match set.subscriptions.get? id with
  | none => set
  | some emitter =>
    { set with
      subscribers :=
        match set.subscribers.get? emitter with
        | none => set.subscribers
        | some ids =>
          if (ids.filter (· ≠ id)).isEmpty then set.subscribers.filter (fun e _ => e ≠ emitter)
          else set.subscribers.insert emitter (ids.filter (· ≠ id))
      states := Function.update set.states id .dropped
      subscriptions := set.subscriptions.filter (fun i _ => i ≠ id)
      log := set.log ++ [.dropped id] }

def remove (set : SubscriberSet κ) (emitter : κ) : SubscriberSet κ :=
  { set with
    subscribers := set.subscribers.filter (fun e _ => e ≠ emitter)
    log := set.log ++
      [.removed emitter ((set.ids emitter).filter (fun id => set.states id = .active))] }

def retain (set : SubscriberSet κ) (emitter : κ) : SubscriberSet κ :=
  match set.subscribers.get? emitter with
  | none => { set with log := set.log ++ [.retain emitter, .retained emitter] }
  | some ids =>
    { set with
      subscribers := set.subscribers.insert emitter []
      retaining := ⟨emitter, [], none, ids⟩ :: set.retaining
      log := set.log ++ [.retain emitter] }

def mergeBack (set : SubscriberSet κ) (emitter : κ) (kept : List ℕ) : KeyMap κ (List ℕ) :=
  if kept.isEmpty then
    if set.subscribers.get? emitter = some [] then set.subscribers.filter (fun e _ => e ≠ emitter)
    else set.subscribers
  else set.subscribers.insert emitter (kept.foldr insertId (set.ids emitter))

def proceed (set : SubscriberSet κ) : SubscriberSet κ :=
  match set.retaining with
  | ⟨emitter, kept, none, id :: waiting⟩ :: outer =>
    match set.states id with
    | .pending =>
      { set with
        retaining := ⟨emitter, kept ++ [id], none, waiting⟩ :: outer
        log := set.log ++ [.turn emitter id false] }
    | .dropped =>
      { set with
        retaining := ⟨emitter, kept, none, waiting⟩ :: outer
        log := set.log ++ [.turn emitter id false] }
    | .active =>
      { set with
        retaining := ⟨emitter, kept, some id, waiting⟩ :: outer
        log := set.log ++ [.turn emitter id true] }
  | ⟨emitter, kept, none, []⟩ :: outer =>
    { set with
      subscribers := set.mergeBack emitter kept
      retaining := outer
      log := set.log ++ [.retained emitter] }
  | _ => set

def callbackReturns (set : SubscriberSet κ) (keep : Bool) : SubscriberSet κ :=
  match set.retaining with
  | ⟨emitter, kept, some id, waiting⟩ :: outer =>
    { set with
      retaining :=
        ⟨emitter, if keep && set.states id ≠ .dropped then kept ++ [id] else kept, none,
          waiting⟩ :: outer
      log := if keep then set.log else set.log ++ [.rejected id] }
  | _ => set

inductive Event (κ : Type*) where
  | insert (emitter : κ)
  | insertPending (emitter : κ)
  | activate (id : ℕ)
  | drop (id : ℕ)
  | remove (emitter : κ)
  | retain (emitter : κ)
  | proceed
  | callbackReturns (keep : Bool)

/-- Whether code outside the set runs: no retain does, or the innermost one runs a callback. -/
def outside (set : SubscriberSet κ) : Bool :=
  match set.retaining with
  | [] => true
  | retaining :: _ => retaining.calling.isSome

/-- Whether a retain of `emitter` has begun and not ended. -/
def retains (set : SubscriberSet κ) (emitter : κ) : Bool :=
  set.retaining.any (fun retaining => retaining.emitter = emitter)

/-- One step; what cannot happen now changes nothing. Emitters being retained are neither retained
again nor removed. -/
def step (set : SubscriberSet κ) : Event κ → SubscriberSet κ
  | .insert emitter =>
    if set.outside then (set.insertPending emitter).activate set.nextSubscriberId else set
  | .insertPending emitter => if set.outside then set.insertPending emitter else set
  | .activate id => if set.outside ∧ id < set.nextSubscriberId then set.activate id else set
  | .drop id => if set.outside then set.drop id else set
  | .remove emitter => if set.outside ∧ ¬ set.retains emitter then set.remove emitter else set
  | .retain emitter => if set.outside ∧ ¬ set.retains emitter then set.retain emitter else set
  | .proceed => set.proceed
  | .callbackReturns keep => set.callbackReturns keep

def run (events : List (Event κ)) : SubscriberSet κ := events.foldl step new

def existingStep (existing : List (ℕ × κ)) : Observation κ → List (ℕ × κ)
  | .subscribed id emitter => existing ++ [(id, emitter)]
  | .dropped id | .rejected id => existing.filter (fun s => s.1 ≠ id)
  | .removed emitter _ => existing.filter (fun s => s.2 ≠ emitter)
  | _ => existing

/-- The subscribers neither dropped, removed nor rejected by their callback, with their emitter,
in the order they were registered in. -/
def existing (log : List (Observation κ)) : List (ℕ × κ) := log.foldl existingStep []

def isActive (log : List (Observation κ)) (id : ℕ) : Prop := .activated id ∈ log ∧ .dropped id ∉ log

def turns (emitter : κ) (log : List (Observation κ)) : List (ℕ × Bool) :=
  log.filterMap (fun
    | .turn e id called => if e = emitter then some (id, called) else none
    | _ => none)

end SubscriberSet

end GpuiFast
