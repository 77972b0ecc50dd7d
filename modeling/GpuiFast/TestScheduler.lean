import GpuiFast.PriorityQueue
import Mathlib

/-! A queue of runnables that code on one thread schedules and that ticks run one at a time. What runs
may schedule, tick and block again, so that calls are nested: a tick is left while the timers that
it drained are dropped or its runnable runs, and a call that blocks polls its future and ticks until
that is ready. The random numbers are part of the actions, within the range that is asked for. -/

namespace GpuiFast

abbrev SessionId := ℕ

structure ScheduledRunnable (R : Type*) where
  sessionId : Option SessionId
  priority : Priority
  runnable : R

structure ScheduledTimer where
  expiration : ℕ

/-- Where a call that blocks is: it polls, it ticks and has seen what its ticks did, or its thread
is parked. -/
inductive BlockPhase where
  | polling
  | stepping (stepped : Option Bool)
  | parked
  deriving DecidableEq

structure BlockUntil where
  sessionId : Option SessionId
  hasDeadline : Bool
  ticks : ℕ
  awoken : Bool
  phase : BlockPhase

inductive SchedulerCall where
  /-- A tick drops the timers it drained, which wakes what waits for them. -/
  | dropping (backgroundOnly : Bool)
  | running (backgroundOnly wasMainThread : Bool)
  | blocking (call : BlockUntil)

inductive SchedulerEvent (R : Type*) where
  | scheduled (runnable : ScheduledRunnable R)
  | ran (runnable : ScheduledRunnable R) (backgroundOnly : Bool)
  | stepped (backgroundOnly result : Bool)

structure SchedulerState (R : Type*) where
  now : ℕ
  runnables : List (ScheduledRunnable R)
  timers : List ScheduledTimer
  blockedSessions : List SessionId
  randomizeOrder : Bool
  allowParking : Bool
  timeoutTicks : ℕ × ℕ
  isMainThread : Bool
  calls : List SchedulerCall
  panicked : Bool
  log : List (SchedulerEvent R)

inductive SchedulerAction (R : Type*) where
  | scheduleLocal (session : SessionId) (runnable : R) (choice : ℕ)
  | scheduleBackgroundWithPriority (runnable : R) (priority : Priority) (choice : ℕ)
  | timer (duration : ℕ)
  | advance (duration : ℕ)
  | setParking (allowed : Bool)
  | wake (depth : ℕ)
  | tick (backgroundOnly : Bool) (choice : ℕ)
  | blockUntil (session : Option SessionId) (hasDeadline : Bool) (ticks : ℕ)
  | finish
  | polled (ready : Bool)
  | stepAgain (choice : ℕ)
  | stepEnough
  | unpark (elapsed : ℕ) (progress : Bool)

structure SchedulerConfig where
  randomizeOrder : Bool
  allowParking : Bool
  timeoutTicks : ℕ × ℕ
  start : ℕ

def SchedulerCall.blocks : SchedulerCall → Option SessionId
  | blocking call => call.sessionId
  | _ => none

/-- Whether a call is a tick that drained timers or runs a runnable. -/
def SchedulerCall.ticks (backgroundOnly : Bool) : SchedulerCall → Prop
  | dropping filtered => filtered = backgroundOnly
  | running filtered _ => filtered = backgroundOnly
  | blocking _ => False

section Candidates

variable {R : Type*}

def isOf (session : SessionId) (runnable : ScheduledRunnable R) : Bool :=
  runnable.sessionId = some session

def startIx (session : SessionId) (runnables : List (ScheduledRunnable R)) : ℕ :=
  match runnables.reverse.findIdx? (isOf session) with
  | some i => runnables.length - 1 - i + 1
  | none => 0

/-- The places of the runnables that may be run: all of the background, and the first of each
session that is neither blocked nor left out. -/
def candidateIndices (blocked : List SessionId) (backgroundOnly : Bool) :
    (seen : List SessionId) → (ix : ℕ) → List (ScheduledRunnable R) → List ℕ
  | _, _, [] => []
  | seen, ix, runnable :: runnables =>
    match runnable.sessionId with
    | none => ix :: candidateIndices blocked backgroundOnly seen (ix + 1) runnables
    | some session =>
      if backgroundOnly || blocked.contains session || seen.contains session then
        candidateIndices blocked backgroundOnly seen (ix + 1) runnables
      else ix :: candidateIndices blocked backgroundOnly (session :: seen) (ix + 1) runnables

def weightedIndex : List ℕ → (target i : ℕ) → ℕ
  | [], _, _ => 0
  | weight :: weights, target, i =>
    if target < weight then i else weightedIndex weights (target - weight) (i + 1)

def pickCandidate (randomizeOrder : Bool) (weights : List ℕ) (choice : ℕ) : Option ℕ :=
  if randomizeOrder then
    -- the sum is one of 32 bits
    let totalWeight := weights.sum % 2 ^ 32
    if totalWeight = 0 then if choice < weights.length then some choice else none
    else if choice < totalWeight then some (weightedIndex weights choice 0) else none
  else some 0

end Candidates

namespace SchedulerState

variable {R : Type*}

def new (config : SchedulerConfig) : SchedulerState R where
  now := config.start
  runnables := []
  timers := []
  blockedSessions := []
  randomizeOrder := config.randomizeOrder
  allowParking := config.allowParking
  timeoutTicks := config.timeoutTicks
  isMainThread := true
  calls := []
  panicked := false
  log := []

def insert (state : SchedulerState R) (ix : ℕ) (runnable : ScheduledRunnable R) :
    SchedulerState R :=
  { state with runnables := state.runnables.insertIdx ix runnable }

def scheduleLocal (state : SchedulerState R) (session : SessionId) (runnable : R)
    (choice : ℕ) : SchedulerState R :=
  let runnable : ScheduledRunnable R := ⟨some session, .medium, runnable⟩
  let called := { state with log := state.log ++ [SchedulerEvent.scheduled runnable] }
  if state.randomizeOrder then
    if startIx session state.runnables ≤ choice ∧ choice ≤ state.runnables.length then
      called.insert choice runnable
    else state
  else called.insert state.runnables.length runnable

def scheduleBackgroundWithPriority (state : SchedulerState R) (runnable : R)
    (priority : Priority) (choice : ℕ) : SchedulerState R :=
  let runnable : ScheduledRunnable R := ⟨none, priority, runnable⟩
  let called := { state with log := state.log ++ [SchedulerEvent.scheduled runnable] }
  if state.randomizeOrder then
    if choice ≤ state.runnables.length then called.insert choice runnable else state
  else called.insert state.runnables.length runnable

def timer (state : SchedulerState R) (duration : ℕ) : SchedulerState R :=
  let timers : List ScheduledTimer := state.timers ++ [⟨state.now + duration⟩]
  { state with timers := timers.mergeSort (fun a b => a.expiration ≤ b.expiration) }

def endBlock (state : SchedulerState R) (call : BlockUntil) (calls : List SchedulerCall) :
    SchedulerState R :=
  { state with
    calls := calls
    blockedSessions :=
      if call.sessionId.isSome then state.blockedSessions.dropLast else state.blockedSessions }

def nextTick (state : SchedulerState R) (call : BlockUntil) (calls : List SchedulerCall) :
    SchedulerState R :=
  if call.ticks ≤ 1 then state.endBlock call calls
  else
    { state with
      calls := .blocking { call with ticks := call.ticks - 1, phase := .polling } :: calls }

/-- A call that blocks has ticked enough: where nothing happened, the clock is advanced to the next
timer, or the thread is parked if that is allowed. -/
def afterSteps (state : SchedulerState R) (call : BlockUntil) (calls : List SchedulerCall)
    (stepped : Bool) : SchedulerState R :=
  let call' := { call with awoken := false }
  if !stepped && !call.awoken then
    match state.allowParking, state.timers.head? with
    | false, some timer =>
      { state with now := state.now + (timer.expiration - state.now) }.nextTick call' calls
    | false, none =>
      if call.hasDeadline then state.endBlock call' calls
      -- parking is forbidden
      else { state with panicked := true }
    | true, _ => { state with calls := .blocking { call' with phase := .parked } :: calls }
  else state.nextTick call' calls

def returned (state : SchedulerState R) (backgroundOnly result : Bool) : SchedulerState R :=
  let state := { state with log := state.log ++ [SchedulerEvent.stepped backgroundOnly result] }
  match state.calls with
  | .blocking call :: calls =>
    match call.phase with
    | .stepping stepped =>
      if result then
        { state with calls := .blocking { call with phase := .stepping (some true) } :: calls }
      else state.afterSteps call calls (stepped.getD false)
    | _ => state
  | _ => state

def blockUntil (state : SchedulerState R) (session : Option SessionId) (hasDeadline : Bool)
    (ticks : ℕ) : SchedulerState R :=
  let maxTicks := if hasDeadline then ticks else 2 ^ 64 - 1
  if hasDeadline ∧ ¬ (state.timeoutTicks.1 ≤ ticks ∧ ticks ≤ state.timeoutTicks.2) then state
  else if maxTicks = 0 then state
  else
    { state with
      blockedSessions := state.blockedSessions ++ session.toList
      calls := .blocking ⟨session, hasDeadline, maxTicks, false, .polling⟩ :: state.calls }

def stepFiltered (state : SchedulerState R) (backgroundOnly : Bool) (choice : ℕ) :
    SchedulerState R :=
  let elapsed := state.timers.takeWhile (fun timer => timer.expiration ≤ state.now)
  if elapsed ≠ [] then
    { state with
      timers := state.timers.drop elapsed.length
      calls := .dropping backgroundOnly :: state.calls }
  else
    let candidates := candidateIndices state.blockedSessions backgroundOnly [] 0 state.runnables
    if candidates = [] then state.returned backgroundOnly false
    else
      let weights := candidates.map
        (fun ix => (state.runnables[ix]?.map (·.priority.weight)).getD 0)
      match (pickCandidate state.randomizeOrder weights choice).bind (candidates[·]?) with
      | none => state
      | some ix =>
        match state.runnables[ix]? with
        | none => state.returned backgroundOnly false
        | some runnable =>
          { state with
            runnables := state.runnables.eraseIdx ix
            isMainThread := runnable.sessionId.isSome
            calls := .running backgroundOnly state.isMainThread :: state.calls
            log := state.log ++ [.ran runnable backgroundOnly] }

def codeRuns (state : SchedulerState R) : Bool :=
  match state.calls with
  | .blocking call :: _ => call.phase = .polling
  | _ => true

def finish (state : SchedulerState R) : SchedulerState R :=
  match state.calls with
  | .dropping backgroundOnly :: calls =>
    { state with calls := calls }.returned backgroundOnly true
  | .running backgroundOnly wasMainThread :: calls =>
    { state with calls := calls, isMainThread := wasMainThread }.returned backgroundOnly true
  | _ => state

def polled (state : SchedulerState R) (ready : Bool) : SchedulerState R :=
  match state.calls with
  | .blocking call :: calls =>
    if call.phase = .polling then
      if ready then state.endBlock call calls
      else { state with calls := .blocking { call with phase := .stepping none } :: calls }
    else state
  | _ => state

def stepAgain (state : SchedulerState R) (choice : ℕ) : SchedulerState R :=
  match state.calls with
  | .blocking call :: _ =>
    match call.phase with
    | .stepping _ => state.stepFiltered false choice
    | _ => state
  | _ => state

def stepEnough (state : SchedulerState R) : SchedulerState R :=
  match state.calls with
  | .blocking call :: calls =>
    match call.phase with
    | .stepping stepped => state.afterSteps call calls (stepped.getD true)
    | _ => state
  | _ => state

def unpark (state : SchedulerState R) (elapsed : ℕ) (progress : Bool) : SchedulerState R :=
  match state.calls with
  | .blocking call :: calls =>
    if call.phase = .parked then
      let state := { state with now := state.now + elapsed }
      if progress then state.nextTick call calls
      else if call.hasDeadline then state.endBlock call calls
      -- parking timed out
      else { state with panicked := true }
    else state
  | _ => state

def wake (state : SchedulerState R) (depth : ℕ) : SchedulerState R :=
  { state with
    calls := state.calls.modify depth (fun call =>
      match call with
      | .blocking call => .blocking { call with awoken := true }
      | call => call) }

/-- One step; what cannot happen now changes nothing. -/
def step (state : SchedulerState R) (action : SchedulerAction R) : SchedulerState R :=
  if state.panicked then state
  else
    match action with
    | .scheduleLocal session runnable choice => state.scheduleLocal session runnable choice
    | .scheduleBackgroundWithPriority runnable priority choice =>
      state.scheduleBackgroundWithPriority runnable priority choice
    | .timer duration => state.timer duration
    | .advance duration => { state with now := state.now + duration }
    | .setParking allowed => { state with allowParking := allowed }
    | .wake depth => state.wake depth
    | .tick backgroundOnly choice =>
      if state.codeRuns then state.stepFiltered backgroundOnly choice else state
    | .blockUntil session hasDeadline ticks =>
      if state.codeRuns then state.blockUntil session hasDeadline ticks else state
    | .finish => state.finish
    | .polled ready => state.polled ready
    | .stepAgain choice => state.stepAgain choice
    | .stepEnough => state.stepEnough
    | .unpark elapsed progress => state.unpark elapsed progress

def run (config : SchedulerConfig) (actions : List (SchedulerAction R)) : SchedulerState R :=
  actions.foldl step (new config)

def blocked (state : SchedulerState R) : List SessionId := state.calls.filterMap (·.blocks)

end SchedulerState

namespace SchedulerEvent

variable {R : Type*}

def scheduledIn (log : List (SchedulerEvent R)) : List (ScheduledRunnable R) :=
  log.filterMap (fun event =>
    match event with
    | scheduled runnable => some runnable
    | _ => none)

def ranIn (log : List (SchedulerEvent R)) : List (ScheduledRunnable R) :=
  log.filterMap (fun event =>
    match event with
    | ran runnable _ => some runnable
    | _ => none)

end SchedulerEvent

end GpuiFast
