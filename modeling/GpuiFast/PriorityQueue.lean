import Mathlib.Data.List.Basic

/-! A queue of three priorities under one lock, with one sender that threads share and receivers that
are cloned. A pop chooses among the priorities by weighted coins. The steps of all threads are
interleaved: the counts of the sender and the receivers are read apart from the lock, and a blocked
pop gives the lock up while it waits. -/

namespace GpuiFast

inductive Priority where
  | realtimeAudio
  | high
  | medium
  | low
  deriving DecidableEq

def Priority.weight : Priority → ℕ
  | realtimeAudio => 0
  | high => 60
  | medium => 30
  | low => 10

structure PriorityQueues (T : Type*) where
  highPriority : List T
  mediumPriority : List T
  lowPriority : List T

def randomRatio (numerator denominator : ℕ) (lands : Bool) : Option Bool :=
  if denominator = 0 ∨ denominator < numerator then none
  else if numerator = denominator then some true
  else if numerator = 0 then some false
  else some lands

namespace PriorityQueues

variable {T : Type*}

def empty : PriorityQueues T := ⟨[], [], []⟩

def queue (queues : PriorityQueues T) : Priority → List T
  | .realtimeAudio => []
  | .high => queues.highPriority
  | .medium => queues.mediumPriority
  | .low => queues.lowPriority

def setQueue (queues : PriorityQueues T) (priority : Priority) (items : List T) :
    PriorityQueues T :=
  match priority with
  | .realtimeAudio => queues
  | .high => { queues with highPriority := items }
  | .medium => { queues with mediumPriority := items }
  | .low => { queues with lowPriority := items }

def isEmpty (queues : PriorityQueues T) : Bool :=
  queues.highPriority.isEmpty && queues.mediumPriority.isEmpty && queues.lowPriority.isEmpty

def push (queues : PriorityQueues T) (priority : Priority) (item : T) : Option (PriorityQueues T) :=
  if priority = .realtimeAudio then none
  else some (queues.setQueue priority (queues.queue priority ++ [item]))

def mass (queues : PriorityQueues T) (priority : Priority) : ℕ :=
  if (queues.queue priority).isEmpty then 0 else priority.weight

/-- A pop from some priorities of a mass, one coin for each that has items; nothing where a coin
would panic. -/
def popFrom (coins : Priority → Bool) (queues : PriorityQueues T) :
    List Priority → ℕ → Option (Option (Priority × T) × PriorityQueues T)
  | [], _ => some (none, queues)
  | priority :: priorities, mass =>
    match queues.queue priority with
    | [] => popFrom coins queues priorities mass
    | item :: items =>
      match randomRatio priority.weight mass (coins priority) with
      | some true => some (some (priority, item), queues.setQueue priority items)
      | some false => popFrom coins queues priorities (mass - priority.weight)
      | none => none

def pop (coins : Priority → Bool) (queues : PriorityQueues T) :
    Option (Option (Priority × T) × PriorityQueues T) :=
  queues.popFrom coins [.high, .medium, .low]
    (queues.mass .high + queues.mass .medium + queues.mass .low)

end PriorityQueues

inductive PopMode where
  | pop
  | tryPop
  | spinTryPop
  deriving DecidableEq

/-- What a thread that shares the sender or has a receiver is doing. One that is pushing, receiving,
parking or choosing holds the lock; one that is parking has found the queue empty and the sender
there, and one that is choosing has found items. -/
inductive QueueThread (T : Type*) where
  | sender
  | sending (priority : Priority) (item : T)
  | pushing (priority : Priority) (item : T)
  | receiver
  | popping (mode : PopMode)
  | receiving (mode : PopMode)
  | parking
  | waiting
  | choosing (mode : PopMode)
  | dropped

inductive SenderDrop where
  | live
  | locking
  | notifying
  | done
  deriving DecidableEq

inductive QueueEvent (T : Type*) where
  | accepted (priority : Priority) (item : T)
  | refused (thread : ℕ) (item : T)
  | unreachable (thread : ℕ)
  | received (thread : ℕ) (priority : Priority) (item : T)
  | nothing (thread : ℕ)
  | disconnected (thread : ℕ)
  | panicked (thread : ℕ)

structure PriorityQueueState (T : Type*) where
  queues : PriorityQueues T
  lockedBy : Option ℕ
  receiverCount : ℕ
  senderCount : ℕ
  threads : List (QueueThread T)
  senderDrop : SenderDrop
  log : List (QueueEvent T)

inductive QueueAction (T : Type*) where
  | share
  | send (thread : ℕ) (priority : Priority) (item : T)
  | lock (thread : ℕ)
  | push (thread woken : ℕ)
  | clone (thread : ℕ)
  | dropReceiver (thread : ℕ)
  | pop (thread : ℕ) (mode : PopMode)
  | recv (thread : ℕ)
  | wait (thread : ℕ)
  | wake (thread : ℕ)
  | choose (thread : ℕ) (coins : Priority → Bool)
  | dropSender
  | lockDropped
  | notifyAll

namespace QueueThread

variable {T : Type*}

def isWaiting : QueueThread T → Bool
  | waiting => true
  | _ => false

def isSending : QueueThread T → Bool
  | sending _ _ => true
  | pushing _ _ => true
  | _ => false

def woken : QueueThread T → QueueThread T
  | waiting => popping .pop
  | thread => thread

end QueueThread

namespace PriorityQueueState

variable {T : Type*}

def new : PriorityQueueState T := ⟨.empty, none, 1, 1, [.sender, .receiver], .live, []⟩

def setThread (state : PriorityQueueState T) (i : ℕ) (thread : QueueThread T) :
    PriorityQueueState T := { state with threads := state.threads.set i thread }

def finish (state : PriorityQueueState T) (i : ℕ) (thread : QueueThread T) (event : QueueEvent T) :
    PriorityQueueState T :=
  { state.setThread i thread with
    lockedBy := if state.lockedBy = some i then none else state.lockedBy
    log := state.log ++ [event] }

def notifyOne (threads : List (QueueThread T)) (i : ℕ) : List (QueueThread T) :=
  if (threads[i]?).any (·.isWaiting) then threads.modify i (·.woken)
  else
    match threads.findIdx? (·.isWaiting) with
    | some j => threads.modify j (·.woken)
    | none => threads

def lock (state : PriorityQueueState T) (i : ℕ) : PriorityQueueState T :=
  if state.lockedBy = none then
    match state.threads[i]? with
    | some (.sending priority item) =>
      { state.setThread i (.pushing priority item) with lockedBy := some i }
    | some (.popping mode) => { state.setThread i (.receiving mode) with lockedBy := some i }
    | _ => state
  else state

def push (state : PriorityQueueState T) (i woken : ℕ) : PriorityQueueState T :=
  match state.threads[i]? with
  | some (.pushing priority item) =>
    match state.queues.push priority item with
    | some queues =>
      { state.finish i .sender (.accepted priority item) with
        queues := queues
        threads := notifyOne (state.threads.set i .sender) woken }
    | none => state.finish i .sender (.unreachable i)
  | _ => state

def recv (state : PriorityQueueState T) (i : ℕ) : PriorityQueueState T :=
  match state.threads[i]? with
  | some (.receiving mode) =>
    if state.queues.isEmpty then
      if state.senderCount = 0 then state.finish i .receiver (.disconnected i)
      else if mode = .pop then state.setThread i .parking
      else state.finish i .receiver (.nothing i)
    else state.setThread i (.choosing mode)
  | _ => state

def choose (state : PriorityQueueState T) (i : ℕ) (coins : Priority → Bool) :
    PriorityQueueState T :=
  match state.threads[i]? with
  | some (.choosing mode) =>
    match state.queues.pop coins with
    | some (some (priority, item), queues) =>
      { state.finish i .receiver (.received i priority item) with queues := queues }
    | some (none, _) =>
      state.finish i .receiver (if mode = .pop then .panicked i else .nothing i)
    | none => state.finish i .receiver (.panicked i)
  | _ => state

/-- One step; what cannot happen now changes nothing. -/
def step (state : PriorityQueueState T) : QueueAction T → PriorityQueueState T
  | .share =>
    if state.senderDrop = .live then { state with threads := state.threads ++ [.sender] } else state
  | .send i priority item =>
    if state.senderDrop = .live then
      match state.threads[i]? with
      | some .sender =>
        if state.receiverCount = 0 then state.finish i .sender (.refused i item)
        else state.setThread i (.sending priority item)
      | _ => state
    else state
  | .lock i => state.lock i
  | .push i woken => state.push i woken
  | .clone i =>
    match state.threads[i]? with
    | some .receiver =>
      { state with
        threads := state.threads ++ [.receiver]
        receiverCount := state.receiverCount + 1 }
    | _ => state
  | .dropReceiver i =>
    match state.threads[i]? with
    | some .receiver =>
      { state.setThread i .dropped with receiverCount := state.receiverCount - 1 }
    | _ => state
  | .pop i mode =>
    match state.threads[i]? with
    | some .receiver => state.setThread i (.popping mode)
    | _ => state
  | .recv i => state.recv i
  | .wait i =>
    match state.threads[i]? with
    | some .parking => { state.setThread i .waiting with lockedBy := none }
    | _ => state
  | .wake i => { state with threads := state.threads.modify i (·.woken) }
  | .choose i coins => state.choose i coins
  | .dropSender =>
    if state.senderDrop = .live ∧ state.threads.all (fun thread => !thread.isSending) then
      { state with senderDrop := .locking, senderCount := state.senderCount - 1 }
    else state
  | .lockDropped =>
    if state.senderDrop = .locking ∧ state.lockedBy = none then
      { state with senderDrop := .notifying }
    else state
  | .notifyAll =>
    if state.senderDrop = .notifying then
      { state with threads := state.threads.map (·.woken), senderDrop := .done }
    else state

def run (actions : List (QueueAction T)) : PriorityQueueState T := actions.foldl step new

end PriorityQueueState

namespace QueueEvent

variable {T : Type*}

def accepts (priority : Priority) (log : List (QueueEvent T)) : List T :=
  log.filterMap (fun event =>
    match event with
    | accepted p item => if p = priority then some item else none
    | _ => none)

def receives (priority : Priority) (log : List (QueueEvent T)) : List T :=
  log.filterMap (fun event =>
    match event with
    | received _ p item => if p = priority then some item else none
    | _ => none)

end QueueEvent

end GpuiFast
