import GpuiFast.SharedLog
import Mathlib.Data.List.Sort

/-! The logs of entities, globals and versioned state read while a recording is open, the stamps of what
changed, and the sets of dependencies that recordings leave. Scroll offsets, which have a log of
their own, are left out. -/

namespace GpuiFast

section

variable {α : Type*} [LinearOrder α]

def dedupAdjacent : List α → List α
  | a :: b :: l => if a = b then dedupAdjacent (b :: l) else a :: dedupAdjacent (b :: l)
  | l => l

def sortUnique (items : List α) : List α := dedupAdjacent (items.insertionSort (· ≤ ·))

/-- Whether all of `some` are found in `all`, each after the one before. -/
def containsAll (all : List α) : List α → Bool
  | [] => true
  | item :: rest =>
    match all.idxOf? item with
    | some index => containsAll (all.drop (index + 1)) rest
    | none => false

def mergeLoop : List α → List α → List α
  | [], b => b
  | a, [] => a
  | x :: a, y :: b =>
    if x < y then x :: mergeLoop a (y :: b)
    else if y < x then y :: mergeLoop (x :: a) b
    else x :: mergeLoop a b

def mergeSorted (a b : List α) : List α :=
  if b.isEmpty || containsAll a b then a
  else if a.isEmpty || containsAll b a then b
  else mergeLoop a b

end

def uniqueStates {V : Type*} [DecidableEq V] (states : List (V × UInt64)) : List (V × UInt64) :=
  states.foldl (fun unique state => if unique.any (fun u => u.1 = state.1) then unique
    else unique ++ [state]) []

/-- Where in the write generation a subtree was built: writes after `since` change what it read,
but for those made while it was built, within one of the `own` stretches. -/
structure Writes where
  since : ℕ
  upTo : ℕ
  own : List (ℕ × ℕ)

namespace Writes

def isOwn (w : Writes) (writtenAt : ℕ) : Bool :=
  w.own.any (fun stretch => writtenAt > stretch.1 && writtenAt ≤ stretch.2)

def isForeign (w : Writes) (writtenAt : ℕ) : Bool := writtenAt > w.since && !w.isOwn writtenAt

def union (w other : Writes) : Writes where
  since := min w.since other.since
  upTo := max w.upTo other.upTo
  own := w.own ++ other.own

end Writes

variable {E G V : Type}

structure RenderDependencies (E G V : Type) where
  entities : List E
  globals : List G
  states : List (V × UInt64)
  generation : ℕ
  updates : ℕ
  writes : Writes

structure RecordedDependencies (E G V : Type) where
  all : RenderDependencies E G V
  own : RenderDependencies E G V
  render : Option (RenderDependencies E G V)

def RenderDependencies.union [LinearOrder E] [LinearOrder G] [DecidableEq V]
    (d other : RenderDependencies E G V) : RenderDependencies E G V :=
  if other.entities.isEmpty && other.globals.isEmpty && other.states.isEmpty then d
  else
    { entities := mergeSorted d.entities other.entities
      globals := mergeSorted d.globals other.globals
      states :=
        if other.states.isEmpty then d.states else uniqueStates (d.states ++ other.states)
      generation := min d.generation other.generation
      updates := min d.updates other.updates
      writes := d.writes.union other.writes }

structure LogRanges where
  entities : ℕ × ℕ
  globals : ℕ × ℕ
  states : ℕ × ℕ

structure DependencyRecording where
  entities : ℕ
  globals : ℕ
  states : ℕ
  generation : ℕ
  updates : ℕ
  writes : ℕ

structure EntityAccessLog (E : Type) where
  accessLog : List E := []
  /-- Where in the log the last recording, or replay, began or ended. -/
  boundary : ℕ := 0
  recordings : ℕ := 0
  updateGeneration : ℕ := 0
  updatedAt : E → Option ℕ := fun _ => none
  writeGeneration : ℕ := 0
  writtenAt : E → Option ℕ := fun _ => none
  rendering : Option E := none
  updatedUnnotified : E → Bool := fun _ => false
  changedAt : E → Option ℕ := fun _ => none
  queried : Option E := none

namespace EntityAccessLog

variable [DecidableEq E]

def changedSince (log : EntityAccessLog E) (entities : List E) (generation : ℕ) (updates : Bool) :
    Bool :=
  let after (stamps : E → Option ℕ) (entity : E) : Bool := (stamps entity).any (· > generation)
  generation ≠ log.updateGeneration &&
    entities.any (fun entity => after log.changedAt entity || (updates && after log.updatedAt entity))

def writtenSince (log : EntityAccessLog E) (entities : List E) (writes : Writes) : Bool :=
  log.writeGeneration ≠ writes.upTo &&
    entities.any (fun entity => (log.writtenAt entity).any writes.isForeign)

def stampChanged (log : EntityAccessLog E) (entity : E) : EntityAccessLog E :=
  { log with
    updateGeneration := log.updateGeneration + 1
    changedAt := Function.update log.changedAt entity (some (log.updateGeneration + 1)) }

def forget (log : EntityAccessLog E) (entity : E) : EntityAccessLog E :=
  { log with
    updatedAt := Function.update log.updatedAt entity none
    writtenAt := Function.update log.writtenAt entity none
    updatedUnnotified := Function.update log.updatedUnnotified entity false
    changedAt := Function.update log.changedAt entity none }

def isRecording (log : EntityAccessLog E) : Bool := log.recordings > 0

def markAccessBoundary (log : EntityAccessLog E) : EntityAccessLog E :=
  { log with boundary := log.accessLog.length }

def extendAccessedRecorded (log : EntityAccessLog E) (entities : List E) : EntityAccessLog E :=
  if log.isRecording then { log with accessLog := log.accessLog ++ entities } else log

def beginRecording (log : EntityAccessLog E) : EntityAccessLog E :=
  { log.markAccessBoundary with recordings := log.recordings + 1 }

def closeRecording (log : EntityAccessLog E) : EntityAccessLog E :=
  let recordings := log.recordings - 1
  markAccessBoundary
    { log with
      recordings
      accessLog := if recordings = 0 then [] else log.accessLog }

/-- An access repeating the one just before it is left out, but only after the boundary. -/
def noteAccess (log : EntityAccessLog E) (entity : E) : EntityAccessLog E :=
  if log.isRecording then
    if log.accessLog.length > log.boundary && log.accessLog.getLast? = some entity then log
    else { log with accessLog := log.accessLog ++ [entity] }
  else log

def noteNotify (log : EntityAccessLog E) (entity : E) : EntityAccessLog E :=
  let noted :=
    { log with updatedUnnotified := Function.update log.updatedUnnotified entity false }
  if log.updatedUnnotified entity || log.isRecording || log.queried.isSome then
    noted.stampChanged entity
  else noted

def stampUpdate (log : EntityAccessLog E) (entity : E) : EntityAccessLog E :=
  if log.queried = some entity then log
  else if log.recordings = 0 then
    { log with
      updateGeneration := log.updateGeneration + 1
      updatedAt := Function.update log.updatedAt entity (some (log.updateGeneration + 1))
      updatedUnnotified := Function.update log.updatedUnnotified entity true }
  else
    { log with
      writeGeneration := log.writeGeneration + 1
      writtenAt := Function.update log.writtenAt entity (some (log.writeGeneration + 1)) }

def noteUpdate (log : EntityAccessLog E) (entity : E) : EntityAccessLog E :=
  let log := log.noteAccess entity
  if log.rendering = some entity then
    let log := { log with rendering := none }
    -- the update that renders a view is not a write to it
    if log.isRecording then log else log.stampUpdate entity
  else log.stampUpdate entity

end EntityAccessLog

structure ReadingApp (E G V : Type) where
  access : EntityAccessLog E := {}
  globalGeneration : ℕ := 0
  globalChangedAt : G → Option ℕ := fun _ => none
  globalReadLog : List G := []
  stateReadLog : List (V × UInt64) := []
  /-- For each open recording, innermost first, the stretches of those nested in it. -/
  nested : List (List LogRanges) := []
  versions : V → UInt64 := fun _ => 0

namespace ReadingApp

variable [LinearOrder E] [LinearOrder G] [DecidableEq V]

def globalChanged (app : ReadingApp E G V) (global : G) : ReadingApp E G V :=
  { app with
    globalGeneration := app.globalGeneration + 1
    globalChangedAt := Function.update app.globalChangedAt global (some (app.globalGeneration + 1)) }

def noteGlobalRead (app : ReadingApp E G V) (global : G) : ReadingApp E G V :=
  if app.access.isRecording then { app with globalReadLog := app.globalReadLog ++ [global] }
  else app

def noteStateRead (app : ReadingApp E G V) (version : V) : ReadingApp E G V :=
  if app.access.isRecording then
    { app with stateReadLog := app.stateReadLog ++ [(version, app.versions version)] }
  else app

def bump (app : ReadingApp E G V) (version : V) : ReadingApp E G V :=
  { app with versions := Function.update app.versions version (app.versions version + 1) }

def beginRecordingDependencies (app : ReadingApp E G V) : ReadingApp E G V × DependencyRecording :=
  ({ app with nested := [] :: app.nested, access := app.access.beginRecording },
    { entities := app.access.accessLog.length
      globals := app.globalReadLog.length
      states := app.stateReadLog.length
      generation := app.globalGeneration
      updates := app.access.updateGeneration
      writes := app.access.writeGeneration })

def writesWhileOpen (recording : DependencyRecording) (log : EntityAccessLog E) : Writes where
  since := recording.writes
  upTo := log.writeGeneration
  own :=
    if log.writeGeneration > recording.writes then [(recording.writes, log.writeGeneration)] else []

def pushNested (nested : List (List LogRanges)) (ranges : LogRanges) : List (List LogRanges) :=
  match nested with
  | [] => []
  | parent :: rest => (parent ++ [ranges]) :: rest

def finishRecordingDependencies (app : ReadingApp E G V) (recording : DependencyRecording) :
    ReadingApp E G V × RecordedDependencies E G V :=
  let nested := app.nested.head?.getD []
  let ranges : LogRanges :=
    { entities := (recording.entities, app.access.accessLog.length)
      globals := (recording.globals, app.globalReadLog.length)
      states := (recording.states, app.stateReadLog.length) }
  let access := app.access.closeRecording
  let writes := writesWhileOpen recording access
  let dependencies (entities : List E) (globals : List G) (states : List (V × UInt64)) :
      RenderDependencies E G V :=
    -- as of when the recording began, so that a global written while it was open counts as changed
    { entities := sortUnique entities, globals := sortUnique globals
      states := uniqueStates states, generation := recording.generation
      updates := recording.updates, writes }
  ({ app with
      access
      nested := pushNested app.nested.tail ranges
      globalReadLog := if access.isRecording then app.globalReadLog else []
      stateReadLog := if access.isRecording then app.stateReadLog else [] },
    { all := dependencies (slice app.access.accessLog ranges.entities.1 ranges.entities.2)
        (slice app.globalReadLog ranges.globals.1 ranges.globals.2)
        (slice app.stateReadLog ranges.states.1 ranges.states.2)
      own := dependencies
        (outside app.access.accessLog ranges.entities.2 ranges.entities.1
          (nested.map LogRanges.entities))
        (outside app.globalReadLog ranges.globals.2 ranges.globals.1
          (nested.map LogRanges.globals))
        (outside app.stateReadLog ranges.states.2 ranges.states.1 (nested.map LogRanges.states))
      render := none })

def replayDependencies (app : ReadingApp E G V) (dependencies : RenderDependencies E G V) :
    ReadingApp E G V :=
  let access := ((app.access.markAccessBoundary).extendAccessedRecorded
    dependencies.entities).markAccessBoundary
  if access.isRecording then
    let globalReadLog := app.globalReadLog ++ dependencies.globals
    let stateReadLog := app.stateReadLog ++ dependencies.states
    { app with
      access, globalReadLog, stateReadLog
      -- read through the subtree being reused, not by the recording it is reused in
      nested := pushNested app.nested
        { entities := (app.access.accessLog.length, access.accessLog.length)
          globals := (app.globalReadLog.length, globalReadLog.length)
          states := (app.stateReadLog.length, stateReadLog.length) } }
  else { app with access }

def globalsChanged (app : ReadingApp E G V) (dependencies : RenderDependencies E G V) : Bool :=
  dependencies.globals.any (fun global =>
    (app.globalChangedAt global).any (· > dependencies.generation))

def statesChanged (app : ReadingApp E G V) (dependencies : RenderDependencies E G V) : Bool :=
  dependencies.states.any (fun state => app.versions state.1 ≠ state.2)

/-- Whether anything in `dependencies` may have changed since they were recorded. -/
def dependenciesChanged (app : ReadingApp E G V) (dependencies : RenderDependencies E G V)
    (insideNotified : Bool) : Bool :=
  app.access.changedSince dependencies.entities dependencies.updates insideNotified ||
    app.access.writtenSince dependencies.entities dependencies.writes ||
    (app.globalsChanged dependencies || app.statesChanged dependencies)

end ReadingApp

inductive ReadOp (E G V : Type) where
  | beginRecording
  | finishRecording
  | access (entity : E)
  | update (entity : E)
  | notify (entity : E)
  | renderNext (entity : E)
  | setQueried (entity : Option E)
  | forget (entity : E)
  | globalRead (global : G)
  | globalChanged (global : G)
  | stateRead (version : V) (readAt : UInt64)
  | bump (version : V)
  | replay (dependencies : RenderDependencies E G V)

structure Drawing (E G V : Type) where
  app : ReadingApp E G V := {}
  opened : List DependencyRecording := []

namespace Drawing

variable [LinearOrder E] [LinearOrder G] [DecidableEq V]

def modifyAccess (s : Drawing E G V) (f : EntityAccessLog E → EntityAccessLog E) : Drawing E G V :=
  { s with app := { s.app with access := f s.app.access } }

def step (s : Drawing E G V) :
    ReadOp E G V → Option (Drawing E G V × Option (RecordedDependencies E G V))
  | .beginRecording =>
    let (app, recording) := s.app.beginRecordingDependencies
    some ({ app, opened := recording :: s.opened }, none)
  | .finishRecording =>
    match s.opened with
    | [] => none
    | recording :: opened =>
      let (app, recorded) := s.app.finishRecordingDependencies recording
      some ({ app, opened }, some recorded)
  | .access entity => some (s.modifyAccess (·.noteAccess entity), none)
  | .update entity => some (s.modifyAccess (·.noteUpdate entity), none)
  | .notify entity => some (s.modifyAccess (·.noteNotify entity), none)
  | .renderNext entity => some (s.modifyAccess (fun log => { log with rendering := entity }), none)
  | .setQueried entity => some (s.modifyAccess (fun log => { log with queried := entity }), none)
  | .forget entity => some (s.modifyAccess (·.forget entity), none)
  | .globalRead global => some ({ s with app := s.app.noteGlobalRead global }, none)
  | .globalChanged global => some ({ s with app := s.app.globalChanged global }, none)
  | .stateRead version readAt =>
    if readAt = s.app.versions version then
      some ({ s with app := s.app.noteStateRead version }, none)
    else none
  | .bump version => some ({ s with app := s.app.bump version }, none)
  | .replay dependencies => some ({ s with app := s.app.replayDependencies dependencies }, none)

def run (s : Drawing E G V) :
    List (ReadOp E G V) → Option (Drawing E G V × List (RecordedDependencies E G V))
  | [] => some (s, [])
  | op :: ops => do
    let (s', recorded) ← s.step op
    let (s'', rest) ← s'.run ops
    return (s'', recorded.toList ++ rest)

end Drawing

end GpuiFast
