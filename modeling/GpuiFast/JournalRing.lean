import GpuiFast.JournalSealer

/-! One writer publishes entries into the slots of a ring while any number of collectors pin and read
them.  A step of the journal is one atomic operation of the writer or of one collector. -/

namespace GpuiFast.Journal

def slotWriter : ℕ := 2 ^ 63

def slotReaderMask : ℕ := 2 ^ 63 - 1

/-- `sequence` is `none` for `EMPTY_SEQUENCE`, and `entry` while uninitialised. -/
structure JournalSlot where
  users : ℕ := 0
  sequence : Option ℕ := none
  entry : Option JournalEntry := none

structure JournalRing where
  capacity : ℕ
  slots : ℕ → JournalSlot
  finalized : ℕ
  offered : ℕ

namespace JournalRing

def new (capacity : ℕ) : JournalRing := ⟨max capacity 1, fun _ => {}, 0, 0⟩

def index (r : JournalRing) (sequence : ℕ) : ℕ := sequence % r.capacity

def slot (r : JournalRing) (sequence : ℕ) : JournalSlot := r.slots (r.index sequence)

def setSlot (r : JournalRing) (sequence : ℕ) (slot : JournalSlot) : JournalRing :=
  { r with slots := Function.update r.slots (r.index sequence) slot }

end JournalRing

structure PendingJournalEntry where
  sequence : ℕ
  entry : JournalEntry
deriving DecidableEq

structure JournalPublisher where
  nextSequence : ℕ
  pending : List PendingJournalEntry
  droppedAfterPending : ℕ
  pendingCapacity : ℕ

def JournalPublisher.new (pendingCapacity : ℕ) : JournalPublisher := ⟨0, [], 0, pendingCapacity⟩

/-- How far `JournalSlot::try_publish` and the store of `finalized` after it have come. -/
inductive PublishStage where
  | locked
  | written
  | sequenced
  | released
deriving DecidableEq

/-- Where the writer stands in `publish`, with the entries it has not offered yet. -/
inductive WriterPc where
  | idle
  /-- At the head of the loop of `flush_pending`. -/
  | flushing (todo : List JournalEntry)
  /-- `flush_pending` has returned. -/
  | flushed (todo : List JournalEntry)
  /-- In `publish_one`, `offered` stored. -/
  | offered (item : PendingJournalEntry) (todo : List JournalEntry)
  /-- Owning the slot of `item`, which is the front of the pending queue when `queued`. -/
  | publishing (stage : PublishStage) (item : PendingJournalEntry) (queued : Bool)
      (todo : List JournalEntry)
deriving DecidableEq

inductive Unavailable where
  /-- It is not among the `capacity` positions before the `finalized` loaded. -/
  | beforeRetained (finish : ℕ)
  /-- `try_add_reader` saw a writer, or no room for a reader. -/
  | held (users : ℕ)
  | otherSequence (seen : Option ℕ)

/-- Where a collector stands in `collect_unseen`; `finish` is the `finalized` it loaded. -/
inductive ReaderPc where
  | idle
  | reading (finish : ℕ)
  | adding (finish users : ℕ)
  | pinned (finish : ℕ)
  | matched (finish : ℕ)
  | unpinning (finish : ℕ) (seen : Option ℕ) (found : Option JournalEntry)
deriving DecidableEq

structure DrainedEntries where
  entries : List JournalEntry
  lost : ℕ
deriving DecidableEq

/-- A collector with the drain under way.  What it has returned, where it was created, the last
`finalized` it loaded and the positions it lost are kept for the statements. -/
structure Collector where
  cursor : ℕ
  pc : ReaderPc
  entries : List JournalEntry
  lost : ℕ
  drained : List DrainedEntries
  created : ℕ
  loaded : ℕ
  missed : List (ℕ × Unavailable)

namespace Collector

def new (offered : ℕ) : Collector := ⟨offered, .idle, [], 0, [], offered, 0, []⟩

def pushLost (entries : List JournalEntry) : List JournalEntry :=
  match entries.getLast? with
  | some (.discontinuity lost) => entries.dropLast ++ [.discontinuity (lost + 1)]
  | _ => entries ++ [.discontinuity 1]

/-- `read` returned nothing. -/
def miss (c : Collector) (finish : ℕ) (reason : Unavailable) : Collector :=
  { c with
    pc := .reading finish
    entries := pushLost c.entries
    lost := c.lost + 1
    cursor := c.cursor + 1
    missed := c.missed ++ [(c.cursor, reason)] }

/-- `read` returned an entry. -/
def take (c : Collector) (finish : ℕ) (entry : JournalEntry) : Collector :=
  { c with
    pc := .reading finish
    entries := c.entries ++ [entry]
    cursor := c.cursor + 1 }

/-- The end of `collect_unseen`. -/
def finishDrain (c : Collector) : Collector :=
  { c with
    pc := .idle
    entries := []
    lost := 0
    drained := c.drained ++ [⟨c.entries, c.lost⟩] }

/-- `collect_unseen` up to its loop, `finish` being the `finalized` loaded. -/
def begin (c : Collector) (capacity finish : ℕ) : Collector :=
  if finish ≤ c.cursor then
    { c with loaded := finish, drained := c.drained ++ [⟨[], 0⟩] }
  else
    let retainedStart := finish - capacity
    let lost := retainedStart - c.cursor
    { c with
      loaded := finish
      pc := .reading finish
      cursor := max c.cursor retainedStart
      entries := if 0 < lost then [.discontinuity lost] else []
      lost := lost
      missed := c.missed ++
        (List.range' c.cursor lost).map (fun position => (position, .beforeRetained finish)) }

end Collector

def JournalEntry.isDiscontinuity : JournalEntry → Bool
  | .discontinuity _ => true
  | _ => false

/-- The journal with its parties; `log` holds the entries offered so far. -/
structure JournalState where
  ring : JournalRing
  publisher : JournalPublisher
  writer : WriterPc
  collectors : List Collector
  log : List JournalEntry

namespace JournalState

/-- `ForegroundJournal::new`. -/
def new (capacity pendingCapacity : ℕ) : JournalState :=
  ⟨.new capacity, .new pendingCapacity, .idle, [], []⟩

/-- `users.compare_exchange(0, SLOT_WRITER)` at the slot of `item`, where it succeeds. -/
def lock (st : JournalState) (item : PendingJournalEntry) (queued : Bool)
    (todo : List JournalEntry) : JournalState :=
  { st with
    ring := st.ring.setSlot item.sequence
      { st.ring.slot item.sequence with users := slotWriter }
    writer := .publishing .locked item queued todo }

def park (st : JournalState) (item : PendingJournalEntry) (todo : List JournalEntry) :
    JournalState :=
  if st.publisher.droppedAfterPending = 0 ∧
      st.publisher.pending.length < st.publisher.pendingCapacity then
    { st with
      publisher := { st.publisher with pending := st.publisher.pending ++ [item] }
      writer := .flushing todo }
  else
    { st with
      publisher := { st.publisher with
        droppedAfterPending := st.publisher.droppedAfterPending + 1 }
      writer := .flushing todo }

/-- The next operation of `try_publish`, or the store of `finalized` after it. -/
def publishNext (st : JournalState) (stage : PublishStage) (item : PendingJournalEntry)
    (queued : Bool) (todo : List JournalEntry) : JournalState :=
  match stage with
  | .locked =>
      { st with
        ring := st.ring.setSlot item.sequence
          { st.ring.slot item.sequence with entry := some item.entry }
        writer := .publishing .written item queued todo }
  | .written =>
      { st with
        ring := st.ring.setSlot item.sequence
          { st.ring.slot item.sequence with sequence := some item.sequence }
        writer := .publishing .sequenced item queued todo }
  | .sequenced =>
      { st with
        ring := st.ring.setSlot item.sequence { st.ring.slot item.sequence with users := 0 }
        writer := .publishing .released item queued todo }
  | .released =>
      { st with
        ring := { st.ring with finalized := item.sequence + 1 }
        publisher := { st.publisher with
          pending := if queued then st.publisher.pending.tail else st.publisher.pending }
        writer := .flushing todo }

def write (st : JournalState) : Option JournalState :=
  match st.writer with
  | .idle => none
  | .flushing todo =>
      match st.publisher.pending with
      | item :: _ =>
          if (st.ring.slot item.sequence).users = 0 then some (st.lock item true todo)
          else some { st with writer := .flushed todo }
      | [] =>
          if 0 < st.publisher.droppedAfterPending then
            some { st with
              ring := { st.ring with finalized := st.publisher.nextSequence }
              publisher := { st.publisher with droppedAfterPending := 0 }
              writer := .flushed todo }
          else some { st with writer := .flushed todo }
  | .flushed [] => some { st with writer := .idle }
  | .flushed (entry :: todo) =>
      some { st with
        publisher := { st.publisher with nextSequence := st.publisher.nextSequence + 1 }
        ring := { st.ring with offered := st.publisher.nextSequence + 1 }
        log := st.log ++ [entry]
        writer := .offered ⟨st.publisher.nextSequence, entry⟩ todo }
  | .offered item todo =>
      if st.publisher.pending ≠ [] ∨ 0 < st.publisher.droppedAfterPending then
        some (st.park item todo)
      else if (st.ring.slot item.sequence).users = 0 then some (st.lock item false todo)
      else if 0 < st.publisher.pendingCapacity then
        some { st with
          publisher := { st.publisher with pending := st.publisher.pending ++ [item] }
          writer := .flushing todo }
      else
        some { st with
          publisher := { st.publisher with droppedAfterPending := 1 }
          writer := .flushing todo }
  | .publishing stage item queued todo => some (st.publishNext stage item queued todo)

def readSlot (c : Collector) (slot : JournalSlot) : Option (Collector × ℕ) :=
  match c.pc with
  | .idle => none
  | .reading finish =>
      if c.cursor < finish then some ({ c with pc := .adding finish slot.users }, slot.users)
      else some (c.finishDrain, slot.users)
  | .adding finish users =>
      if users &&& slotWriter ≠ 0 ∨ users = slotReaderMask then
        some (c.miss finish (.held users), slot.users)
      else if slot.users = users then some ({ c with pc := .pinned finish }, users + 1)
      else some ({ c with pc := .adding finish slot.users }, slot.users)
  | .pinned finish =>
      if slot.sequence = some c.cursor then some ({ c with pc := .matched finish }, slot.users)
      else some ({ c with pc := .unpinning finish slot.sequence none }, slot.users)
  | .matched finish =>
      some ({ c with pc := .unpinning finish slot.sequence slot.entry }, slot.users)
  | .unpinning finish _ (some entry) => some (c.take finish entry, slot.users - 1)
  | .unpinning finish seen none => some (c.miss finish (.otherSequence seen), slot.users - 1)

/-- The `i`-th collector's next operation. -/
def read (st : JournalState) (i : ℕ) : Option JournalState := do
  let c ← st.collectors[i]?
  let (c', users) ← readSlot c (st.ring.slot c.cursor)
  return { st with
    ring := st.ring.setSlot c.cursor { st.ring.slot c.cursor with users := users }
    collectors := st.collectors.set i c' }

/-- `compare_exchange_weak` may fail although the slot's users are as expected. -/
def retry (st : JournalState) (i : ℕ) : Option JournalState := do
  let c ← st.collectors[i]?
  match c.pc with
  | .adding finish users =>
      if users &&& slotWriter ≠ 0 ∨ users = slotReaderMask then none
      else some { st with
        collectors := st.collectors.set i
          { c with pc := .adding finish (st.ring.slot c.cursor).users } }
  | _ => none

/-- `collect_unseen` loads `finalized`. -/
def collect (st : JournalState) (i : ℕ) : Option JournalState := do
  let c ← st.collectors[i]?
  if c.pc = .idle then
    some { st with
      collectors := st.collectors.set i (c.begin st.ring.capacity st.ring.finalized) }
  else none

def publish (st : JournalState) (entries : List JournalEntry) : Option JournalState :=
  if st.writer = .idle ∧ ∀ e ∈ entries, e.isDiscontinuity = false then
    some { st with writer := .flushing entries }
  else none

/-- `ForegroundJournal::collector`. -/
def collector (st : JournalState) : JournalState :=
  { st with collectors := st.collectors ++ [.new st.ring.offered] }

end JournalState

inductive JournalAction where
  | publish (entries : List JournalEntry)
  | write
  | collector
  | collect (i : ℕ)
  | read (i : ℕ)
  | retry (i : ℕ)

def JournalState.step (st : JournalState) : JournalAction → Option JournalState
  | .publish entries => st.publish entries
  | .write => st.write
  | .collector => some st.collector
  | .collect i => st.collect i
  | .read i => st.read i
  | .retry i => st.retry i

def JournalState.run (st : JournalState) : List JournalAction → Option JournalState
  | [] => some st
  | action :: actions => do (← st.step action).run actions

end GpuiFast.Journal
