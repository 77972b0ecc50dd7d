import Mathlib.Tactic

/-! The sealer groups the entries of a foreground stream into snapshots.  What a snapshot has to hold
is said by the stretches of the stream: the entries before each boundary, with that boundary. -/

namespace GpuiFast.Journal

open List

abbrev Instant := ℕ

abbrev Duration := ℕ

def maxIntervalEvents : ℕ := 16 * 1024

structure TaskTiming where
  start : Instant
  finish : Instant
deriving DecidableEq

structure ActionTiming where
  start : Instant
  finish : Instant
deriving DecidableEq

structure InputTiming where
  start : Instant
  finish : Instant
deriving DecidableEq

structure FrameTiming where
  drawStart : Instant
  drawEnd : Instant
deriving DecidableEq

structure ViewTiming where
  start : Instant
  finish : Instant
deriving DecidableEq

structure PresentTiming where
  presentStart : Instant
  presentEnd : Instant
deriving DecidableEq

structure PollSummary where
  count : ℕ
  total : Duration
deriving DecidableEq

def PollSummary.add (a b : PollSummary) : PollSummary :=
  ⟨a.count + b.count, a.total + b.total⟩

structure SmallPollFlush where
  summary : PollSummary
  since : Instant
  until' : Instant
deriving DecidableEq

inductive ForegroundEvent where
  | taskPoll (timing : TaskTiming)
  | action (timing : ActionTiming)
  | input (timing : InputTiming)
  | draw (timing : FrameTiming)
  | view (timing : ViewTiming)
  | present (timing : PresentTiming)
  | smallPolls (flush : SmallPollFlush)
deriving DecidableEq

def ForegroundEvent.startTime : ForegroundEvent → Instant
  | .taskPoll t => t.start
  | .action t => t.start
  | .input t => t.start
  | .draw t => t.drawStart
  | .view t => t.start
  | .present t => t.presentStart
  | .smallPolls flush => flush.since

structure PresentedFrame where
  frame : FrameTiming
  presentation : PresentTiming
deriving DecidableEq

structure FrameSkipped where
  windowId : ℕ
  at' : Instant
deriving DecidableEq

inductive IntervalBoundary where
  | presented (presented : PresentedFrame)
  | frameSkipped (skipped : FrameSkipped)
  | idle (endedAt : Instant)
  | powerTransition (endedAt : Instant)
deriving DecidableEq

def IntervalBoundary.endTime : IntervalBoundary → Instant
  | .presented p => p.presentation.presentEnd
  | .frameSkipped skipped => skipped.at'
  | .idle endedAt => endedAt
  | .powerTransition endedAt => endedAt

inductive FrameStateChange where
  | pending (windowId : ℕ) (dirtyAt : Instant)
  | closed (windowId : ℕ) (at' : Instant)
deriving DecidableEq

structure PlatformSignal where
  windowId : ℕ
  signalAt : Option Instant
  handledAt : Instant
deriving DecidableEq

inductive JournalEntry where
  | event (event : ForegroundEvent)
  | boundary (boundary : IntervalBoundary)
  | frameState (change : FrameStateChange)
  | platformSignal (signal : PlatformSignal)
  | reentrantFrameSkipped (windowId : ℕ) (at' : Instant)
  | discontinuity (lost : ℕ)
deriving DecidableEq

structure FrameSnapshot where
  intervalStart : Instant
  boundary : IntervalBoundary
  events : List ForegroundEvent
  smallPolls : List SmallPollFlush
  droppedEvents : ℕ
  journalDiscontinuous : Bool
deriving DecidableEq

structure IntervalSealer where
  intervalStart : Instant
  events : List ForegroundEvent
  smallPolls : List SmallPollFlush
  droppedEvents : ℕ
  journalDiscontinuous : Bool

namespace IntervalSealer

def new (start : Instant) : IntervalSealer := ⟨start, [], [], 0, false⟩

def noteLost (s : IntervalSealer) (lost : ℕ) : IntervalSealer :=
  { s with
    droppedEvents := s.droppedEvents + lost
    journalDiscontinuous := s.journalDiscontinuous || decide (0 < lost) }

def isEmpty (s : IntervalSealer) : Bool :=
  s.events.isEmpty && s.smallPolls.isEmpty && s.droppedEvents == 0 && !s.journalDiscontinuous

def anchor (s : IntervalSealer) (time : Instant) : IntervalSealer :=
  if s.isEmpty then { s with intervalStart := max s.intervalStart time } else s

def pushEvent (s : IntervalSealer) (event : ForegroundEvent) : IntervalSealer :=
  if maxIntervalEvents ≤ s.events.length then { s with droppedEvents := s.droppedEvents + 1 }
  else { s with events := s.events ++ [event] }

def foldFlush (last flush : SmallPollFlush) : SmallPollFlush :=
  ⟨last.summary.add flush.summary, min last.since flush.since, max last.until' flush.until'⟩

def pushSmallPolls (s : IntervalSealer) (flush : SmallPollFlush) : IntervalSealer :=
  if maxIntervalEvents ≤ s.smallPolls.length then
    match s.smallPolls.getLast? with
    | some last => { s with smallPolls := s.smallPolls.dropLast ++ [foldFlush last flush] }
    | none => { s with smallPolls := s.smallPolls ++ [flush] }
  else { s with smallPolls := s.smallPolls ++ [flush] }

/-- The source's `seal`. -/
def sealAt (s : IntervalSealer) (boundary : IntervalBoundary) : FrameSnapshot × IntervalSealer :=
  (⟨s.intervalStart, boundary, s.events, s.smallPolls, s.droppedEvents, s.journalDiscontinuous⟩,
    new boundary.endTime)

def pushPresented (s : IntervalSealer) : IntervalBoundary → IntervalSealer
  | .presented p =>
      (s.anchor p.presentation.presentStart).pushEvent (.present p.presentation)
  | _ => s

def pushEntry (s : IntervalSealer) : JournalEntry → IntervalSealer × List FrameSnapshot
  | .event (.smallPolls flush) => ((s.anchor flush.since).pushSmallPolls flush, [])
  | .event e => ((s.anchor e.startTime).pushEvent e, [])
  | .boundary b =>
      let s := s.pushPresented b
      if s.isEmpty then ({ s with intervalStart := max s.intervalStart b.endTime }, [])
      else ((s.sealAt b).2, [(s.sealAt b).1])
  | .frameState _ => (s, [])
  | .platformSignal _ => (s, [])
  | .reentrantFrameSkipped _ _ => (s, [])
  | .discontinuity lost => (s.noteLost lost, [])

def pushEntries (s : IntervalSealer) : List JournalEntry → IntervalSealer × List FrameSnapshot
  | [] => (s, [])
  | e :: es =>
      let r := (s.pushEntry e).1.pushEntries es
      (r.1, (s.pushEntry e).2 ++ r.2)

def feed (s : IntervalSealer) : List (List JournalEntry) → IntervalSealer × List FrameSnapshot
  | [] => (s, [])
  | batch :: batches =>
      let r := (s.pushEntries batch).1.feed batches
      (r.1, (s.pushEntries batch).2 ++ r.2)

variable (s : IntervalSealer)

lemma pushEntries_append (es fs : List JournalEntry) :
    s.pushEntries (es ++ fs) =
      (((s.pushEntries es).1.pushEntries fs).1,
        (s.pushEntries es).2 ++ ((s.pushEntries es).1.pushEntries fs).2) := by
  induction es generalizing s with
  | nil => rfl
  | cons e es ih => simp only [cons_append, pushEntries, ih, append_assoc]

theorem feed_eq (batches : List (List JournalEntry)) :
    s.feed batches = s.pushEntries batches.flatten := by
  induction batches generalizing s with
  | nil => rfl
  | cons batch batches ih =>
    simp only [feed, flatten_cons, pushEntries_append, ih]

end IntervalSealer

def stretchesFrom (acc : List JournalEntry) :
    List JournalEntry → List (List JournalEntry × IntervalBoundary) × List JournalEntry
  | [] => ([], acc)
  | .boundary b :: es =>
      let r := stretchesFrom [] es
      ((acc, b) :: r.1, r.2)
  | e :: es => stretchesFrom (acc ++ [e]) es

def stretches (es : List JournalEntry) : List (List JournalEntry × IntervalBoundary) × List JournalEntry :=
  stretchesFrom [] es

def JournalEntry.work : JournalEntry → Option ForegroundEvent
  | .event (.smallPolls _) => none
  | .event e => some e
  | _ => none

def JournalEntry.polls : JournalEntry → Option SmallPollFlush
  | .event (.smallPolls flush) => some flush
  | _ => none

def JournalEntry.losses : JournalEntry → ℕ
  | .discontinuity lost => lost
  | _ => 0

def IntervalBoundary.work : IntervalBoundary → List ForegroundEvent
  | .presented p => [.present p.presentation]
  | _ => []

def pollSum (flushes : List SmallPollFlush) : PollSummary :=
  ⟨(flushes.map (·.summary.count)).sum, (flushes.map (·.summary.total)).sum⟩

/-- The interval holds these pieces of work, polls and losses: the work up to the cap as it is,
the rest counted together with the losses. -/
structure Retains (events : List ForegroundEvent) (smallPolls : List SmallPollFlush)
    (droppedEvents : ℕ) (journalDiscontinuous : Bool)
    (work : List ForegroundEvent) (polls : List SmallPollFlush) (lost : ℕ) : Prop where
  events_eq : events = work.take maxIntervalEvents
  dropped_eq : droppedEvents = (work.length - maxIntervalEvents) + lost
  polls_eq : pollSum smallPolls = pollSum polls
  polls_nil : smallPolls = [] ↔ polls = []
  discontinuous_iff : journalDiscontinuous = true ↔ 0 < lost

def losses (acc : List JournalEntry) : ℕ := (acc.map JournalEntry.losses).sum

def FrameSnapshot.Accounts (snapshot : FrameSnapshot)
    (stretch : List JournalEntry × IntervalBoundary) : Prop :=
  snapshot.boundary = stretch.2 ∧
    Retains snapshot.events snapshot.smallPolls snapshot.droppedEvents
      snapshot.journalDiscontinuous (stretch.1.filterMap JournalEntry.work ++ stretch.2.work)
      (stretch.1.filterMap JournalEntry.polls) (losses stretch.1)

def IntervalSealer.Has (s : IntervalSealer) (work : List ForegroundEvent) (polls : List SmallPollFlush)
    (lost : ℕ) : Prop :=
  Retains s.events s.smallPolls s.droppedEvents s.journalDiscontinuous work polls lost

def IntervalSealer.Accounts (s : IntervalSealer) (acc : List JournalEntry) : Prop :=
  s.Has (acc.filterMap JournalEntry.work) (acc.filterMap JournalEntry.polls) (losses acc)

def JournalEntry.began : JournalEntry → Option Instant
  | .event e => some e.startTime
  | _ => none

/-- Boundary times do not decrease, none is before `start`, and no event starts after the
boundary that seals it. -/
structure Timely (start : Instant) (boundaries : List (List JournalEntry × IntervalBoundary)) :
    Prop where
  started : ∀ stretch ∈ boundaries, start ≤ stretch.2.endTime
  sorted : boundaries.Pairwise (fun a b => a.2.endTime ≤ b.2.endTime)
  events : ∀ stretch ∈ boundaries, ∀ e ∈ stretch.1, ∀ time ∈ e.began, time ≤ stretch.2.endTime
  presents : ∀ stretch ∈ boundaries, ∀ e ∈ stretch.2.work, e.startTime ≤ stretch.2.endTime

def Disjoint (snapshots : List FrameSnapshot) : Prop :=
  (∀ snapshot ∈ snapshots, snapshot.intervalStart ≤ snapshot.boundary.endTime) ∧
    snapshots.Pairwise (fun a b => a.boundary.endTime ≤ b.intervalStart)

def Vacant (stretch : List JournalEntry × IntervalBoundary) : Prop :=
  stretch.1.filterMap JournalEntry.work ++ stretch.2.work = [] ∧
    stretch.1.filterMap JournalEntry.polls = [] ∧ losses stretch.1 = 0

instance : DecidablePred Vacant := fun _ => inferInstanceAs (Decidable (_ ∧ _ ∧ _))

lemma PollSummary.add_assoc (a b c : PollSummary) : (a.add b).add c = a.add (b.add c) := by
  simp [PollSummary.add, Nat.add_assoc]

lemma pollSum_append (fs gs : List SmallPollFlush) :
    pollSum (fs ++ gs) = (pollSum fs).add (pollSum gs) := by
  simp [pollSum, PollSummary.add]

lemma losses_append (es fs : List JournalEntry) : losses (es ++ fs) = losses es + losses fs := by
  simp [losses]

variable {e : JournalEntry} {start time : Instant}

lemma stretchesFrom_open (he : ∀ b, e ≠ .boundary b) (acc es : List JournalEntry) :
    stretchesFrom acc (e :: es) = stretchesFrom (acc ++ [e]) es := by
  cases e with
  | boundary b => exact absurd rfl (he b)
  | event | frameState | platformSignal | reentrantFrameSkipped | discontinuity => rfl

lemma stretchesFrom_head (acc es : List JournalEntry) :
    (stretchesFrom acc es).1 = [] ∨
      ∃ more b rest, (stretchesFrom acc es).1 = (acc ++ more, b) :: rest := by
  induction es generalizing acc with
  | nil => exact .inl rfl
  | cons e es ih =>
    by_cases he : ∃ b, e = .boundary b
    · obtain ⟨b, rfl⟩ := he
      exact .inr ⟨[], b, (stretchesFrom [] es).1, by simp only [append_nil, stretchesFrom]⟩
    · rw [stretchesFrom_open (fun b hb => he ⟨b, hb⟩)]
      obtain hnil | ⟨more, b, rest, heq⟩ := ih (acc ++ [e])
      · exact .inl hnil
      · exact .inr ⟨e :: more, b, rest, by rw [heq, append_assoc, singleton_append]⟩

lemma Timely.began_le {acc es : List JournalEntry} (h : Timely start (stretchesFrom acc es).1)
    (he : e ∈ acc) (htime : time ∈ e.began) :
    ∀ stretch ∈ (stretchesFrom acc es).1, time ≤ stretch.2.endTime := by
  intro stretch hs
  obtain hnil | ⟨more, b, rest, heq⟩ := stretchesFrom_head acc es
  · simp [hnil] at hs
  · obtain ⟨-, hsorted, hevents, -⟩ := h
    rw [heq] at hs hsorted hevents
    have hfirst := hevents _ mem_cons_self e (mem_append_left _ he) time htime
    rcases mem_cons.1 hs with rfl | hrest
    · exact hfirst
    · exact hfirst.trans ((pairwise_cons.1 hsorted).1 stretch hrest)

lemma Timely.anchored {boundaries : List (List JournalEntry × IntervalBoundary)}
    (h : Timely start boundaries) (htime : ∀ stretch ∈ boundaries, time ≤ stretch.2.endTime) :
    Timely (max start time) boundaries :=
  ⟨fun stretch hs => max_le (h.started stretch hs) (htime stretch hs), h.sorted, h.events,
    h.presents⟩

namespace IntervalSealer

variable {s : IntervalSealer} {work : List ForegroundEvent} {polls : List SmallPollFlush} {lost : ℕ}

lemma has_new (start : Instant) : (new start).Has [] [] 0 := by
  constructor <;> simp [new, pollSum]

lemma anchor_fields (s : IntervalSealer) (time : Instant) :
    (s.anchor time).events = s.events ∧ (s.anchor time).smallPolls = s.smallPolls ∧
      (s.anchor time).droppedEvents = s.droppedEvents ∧
      (s.anchor time).journalDiscontinuous = s.journalDiscontinuous := by
  unfold anchor
  split <;> simp

lemma Has.anchor (h : s.Has work polls lost) (time : Instant) :
    (s.anchor time).Has work polls lost := by
  obtain ⟨he, hp, hd, hj⟩ := anchor_fields s time
  unfold Has at h ⊢
  rwa [he, hp, hd, hj]

lemma Has.pushEvent (h : s.Has work polls lost) (event : ForegroundEvent) :
    (s.pushEvent event).Has (work ++ [event]) polls lost := by
  obtain ⟨he, hd, hp, hn, hj⟩ := h
  have hlen : s.events.length = min maxIntervalEvents work.length := by
    rw [he, length_take]
  unfold IntervalSealer.pushEvent
  split_ifs with hcap
  · have hfull : maxIntervalEvents ≤ work.length := by omega
    refine ⟨?_, ?_, hp, hn, hj⟩
    · simp only [he]
      rw [take_append_of_le_length hfull]
    · simp only [hd, length_append, length_singleton]
      omega
  · have hroom : work.length < maxIntervalEvents := by omega
    refine ⟨?_, ?_, hp, hn, hj⟩
    · simp only [he]
      rw [take_of_length_le hroom.le, take_of_length_le]
      simp only [length_append, length_singleton]
      omega
    · simp only [hd, length_append, length_singleton]
      omega

lemma pollSum_foldFlush (last flush : SmallPollFlush) :
    pollSum [foldFlush last flush] = (pollSum [last]).add (pollSum [flush]) := by
  simp [pollSum, foldFlush, PollSummary.add]

lemma pollSum_pushSmallPolls (s : IntervalSealer) (flush : SmallPollFlush) :
    pollSum (s.pushSmallPolls flush).smallPolls = (pollSum s.smallPolls).add (pollSum [flush]) := by
  unfold pushSmallPolls
  split_ifs with hcap
  · cases hlast : s.smallPolls.getLast? with
    | none => exact pollSum_append _ _
    | some last =>
      have hsplit := dropLast_append_getLast? last hlast
      calc pollSum (s.smallPolls.dropLast ++ [foldFlush last flush])
          = ((pollSum s.smallPolls.dropLast).add (pollSum [last])).add (pollSum [flush]) := by
            rw [pollSum_append, pollSum_foldFlush, PollSummary.add_assoc]
        _ = (pollSum s.smallPolls).add (pollSum [flush]) := by
            rw [← pollSum_append, hsplit]
  · exact pollSum_append _ _

lemma Has.pushSmallPolls (h : s.Has work polls lost) (flush : SmallPollFlush) :
    (s.pushSmallPolls flush).Has work (polls ++ [flush]) lost := by
  obtain ⟨he, hd, hp, hn, hj⟩ := h
  have hsum := pollSum_pushSmallPolls s flush
  rw [hp, ← pollSum_append] at hsum
  have hnil : (s.pushSmallPolls flush).smallPolls ≠ [] := by
    unfold IntervalSealer.pushSmallPolls
    split_ifs
    · split <;> simp
    · simp
  have hrest : (s.pushSmallPolls flush).events = s.events ∧
      (s.pushSmallPolls flush).droppedEvents = s.droppedEvents ∧
      (s.pushSmallPolls flush).journalDiscontinuous = s.journalDiscontinuous := by
    unfold IntervalSealer.pushSmallPolls
    split_ifs
    · split <;> simp
    · simp
  refine ⟨hrest.1 ▸ he, hrest.2.1 ▸ hd, hsum, ?_, hrest.2.2 ▸ hj⟩
  simp [hnil]

lemma Has.noteLost (h : s.Has work polls lost) (more : ℕ) :
    (s.noteLost more).Has work polls (lost + more) := by
  obtain ⟨he, hd, hp, hn, hj⟩ := h
  refine ⟨he, ?_, hp, hn, ?_⟩
  · simp only [IntervalSealer.noteLost, hd, Nat.add_assoc]
  · simp only [IntervalSealer.noteLost, Bool.or_eq_true, hj, decide_eq_true_eq]
    omega

lemma Has.pushPresented (h : s.Has work polls lost) (b : IntervalBoundary) :
    (s.pushPresented b).Has (work ++ b.work) polls lost := by
  cases b with
  | presented p => exact (h.anchor _).pushEvent _
  | frameSkipped | idle | powerTransition =>
    simpa only [IntervalSealer.pushPresented, IntervalBoundary.work, append_nil] using h

lemma Has.isEmpty_iff (h : s.Has work polls lost) :
    s.isEmpty = true ↔ work = [] ∧ polls = [] ∧ lost = 0 := by
  obtain ⟨he, hd, hp, hn, hj⟩ := h
  have hwork : s.events = [] ↔ work = [] := by
    rw [he, take_eq_nil_iff]
    simp [maxIntervalEvents]
  have hdisc : s.journalDiscontinuous = false ↔ lost = 0 := by
    rw [← Bool.not_eq_true, hj]
    omega
  simp only [IntervalSealer.isEmpty, Bool.and_eq_true, List.isEmpty_iff, beq_iff_eq,
    Bool.not_eq_true', hwork, hn, hdisc, hd]
  constructor
  · rintro ⟨⟨⟨hw, hps⟩, -⟩, hl⟩
    exact ⟨hw, hps, hl⟩
  · rintro ⟨hw, hps, hl⟩
    refine ⟨⟨⟨hw, hps⟩, ?_⟩, hl⟩
    simp [hw, hl]

variable {acc : List JournalEntry}

variable {e : JournalEntry}

lemma pushEntry_open (he : ∀ b, e ≠ .boundary b) (h : s.Accounts acc) :
    (s.pushEntry e).1.Accounts (acc ++ [e]) ∧ (s.pushEntry e).2 = [] := by
  unfold Accounts at h ⊢
  simp only [filterMap_append, losses_append]
  cases e with
  | boundary b => exact absurd rfl (he b)
  | discontinuity n =>
    refine ⟨?_, rfl⟩
    simpa [filterMap_cons, JournalEntry.work, JournalEntry.polls, losses,
      JournalEntry.losses, pushEntry] using h.noteLost n
  | frameState | platformSignal | reentrantFrameSkipped =>
    refine ⟨?_, rfl⟩
    simpa [filterMap_cons, JournalEntry.work, JournalEntry.polls, losses,
      JournalEntry.losses, pushEntry] using h
  | event event =>
    cases event with
    | smallPolls flush =>
      refine ⟨?_, rfl⟩
      simpa [filterMap_cons, JournalEntry.work, JournalEntry.polls, losses,
        JournalEntry.losses, pushEntry] using (h.anchor flush.since).pushSmallPolls flush
    | taskPoll | action | input | draw | view | present =>
      refine ⟨?_, rfl⟩
      simpa [filterMap_cons, JournalEntry.work, JournalEntry.polls, losses,
        JournalEntry.losses, pushEntry] using (h.anchor _).pushEvent _

lemma pushEntry_boundary {b : IntervalBoundary} (h : s.Accounts acc) :
    (s.pushEntry (.boundary b)).1.Accounts [] ∧
      (Vacant (acc, b) → (s.pushEntry (.boundary b)).2 = []) ∧
      (¬Vacant (acc, b) → ∃ snapshot, (s.pushEntry (.boundary b)).2 = [snapshot] ∧
        snapshot.Accounts (acc, b)) := by
  have hp := Has.pushPresented h b
  have hempty := hp.isEmpty_iff
  simp only [pushEntry]
  split_ifs with hs
  · have hvacant := hempty.1 hs
    refine ⟨?_, fun _ => rfl, fun hn => absurd hvacant hn⟩
    rw [hvacant.1, hvacant.2.1, hvacant.2.2] at hp
    exact hp
  · have hfull : ¬Vacant (acc, b) := fun hn => hs (hempty.2 hn)
    exact ⟨has_new _, fun hn => absurd hn hfull, fun _ => ⟨_, rfl, rfl, hp⟩⟩

theorem pushEntries_accounts (h : s.Accounts acc) (es : List JournalEntry) :
    Forall₂ FrameSnapshot.Accounts (s.pushEntries es).2
        ((stretchesFrom acc es).1.filter (fun stretch => ¬Vacant stretch)) ∧
      (s.pushEntries es).1.Accounts (stretchesFrom acc es).2 := by
  induction es generalizing s acc with
  | nil => exact ⟨.nil, h⟩
  | cons e es ih =>
    by_cases he : ∃ b, e = .boundary b
    · obtain ⟨b, rfl⟩ := he
      obtain ⟨hnext, hvacant, hseals⟩ := pushEntry_boundary (b := b) h
      obtain ⟨hsnapshots, hopen⟩ := ih hnext
      refine ⟨?_, hopen⟩
      simp only [pushEntries, stretchesFrom, filter_cons]
      by_cases hv : Vacant (acc, b)
      · simpa [hv, hvacant hv] using hsnapshots
      · obtain ⟨snapshot, hone, haccounts⟩ := hseals hv
        simpa [hv, hone] using And.intro haccounts hsnapshots
    · have he' : ∀ b, e ≠ .boundary b := fun b hb => he ⟨b, hb⟩
      obtain ⟨hnext, hnone⟩ := pushEntry_open he' h
      obtain ⟨hsnapshots, hopen⟩ := ih hnext
      rw [stretchesFrom_open he']
      simp only [pushEntries, hnone, nil_append]
      exact ⟨hsnapshots, hopen⟩

lemma anchor_intervalStart (s : IntervalSealer) (time : Instant) :
    (s.anchor time).intervalStart = s.intervalStart ∨
      (s.anchor time).intervalStart = max s.intervalStart time := by
  unfold anchor
  split <;> simp

lemma pushEvent_intervalStart (s : IntervalSealer) (event : ForegroundEvent) :
    (s.pushEvent event).intervalStart = s.intervalStart := by
  unfold pushEvent
  split_ifs <;> rfl

lemma pushSmallPolls_intervalStart (s : IntervalSealer) (flush : SmallPollFlush) :
    (s.pushSmallPolls flush).intervalStart = s.intervalStart := by
  unfold pushSmallPolls
  split_ifs
  · split <;> rfl
  · rfl

lemma pushEntry_intervalStart (he : ∀ b, e ≠ .boundary b) :
    (s.pushEntry e).1.intervalStart = s.intervalStart ∨
      ∃ time ∈ e.began, (s.pushEntry e).1.intervalStart = max s.intervalStart time := by
  cases e with
  | boundary b => exact absurd rfl (he b)
  | discontinuity | frameState | platformSignal | reentrantFrameSkipped => exact .inl rfl
  | event event =>
    have hanchor : (s.pushEntry (.event event)).1.intervalStart =
        (s.anchor event.startTime).intervalStart := by
      cases event with
      | smallPolls flush => exact pushSmallPolls_intervalStart _ _
      | taskPoll | action | input | draw | view | present => exact pushEvent_intervalStart _ _
    rw [hanchor]
    exact (anchor_intervalStart s event.startTime).imp_right (fun h => ⟨_, rfl, h⟩)

lemma pushPresented_intervalStart (s : IntervalSealer) (b : IntervalBoundary) :
    s.intervalStart ≤ (s.pushPresented b).intervalStart ∧
      ∀ time, s.intervalStart ≤ time → (∀ e ∈ b.work, e.startTime ≤ time) →
        (s.pushPresented b).intervalStart ≤ time := by
  cases b with
  | frameSkipped | idle | powerTransition => exact ⟨le_rfl, fun time h _ => h⟩
  | presented p =>
    simp only [pushPresented, pushEvent_intervalStart]
    rcases anchor_intervalStart s p.presentation.presentStart with h | h
    · rw [h]
      exact ⟨le_rfl, fun time h _ => h⟩
    · rw [h]
      exact ⟨le_max_left _ _, fun time hs hw => max_le hs (hw _ mem_cons_self)⟩

lemma pushEntry_boundary_times {b : IntervalBoundary} (hstart : s.intervalStart ≤ b.endTime)
    (hwork : ∀ e ∈ b.work, e.startTime ≤ b.endTime) :
    (s.pushEntry (.boundary b)).1.intervalStart = b.endTime ∧
      ∀ snapshot ∈ (s.pushEntry (.boundary b)).2, s.intervalStart ≤ snapshot.intervalStart ∧
        snapshot.intervalStart ≤ b.endTime ∧ snapshot.boundary = b := by
  obtain ⟨hge, hle⟩ := pushPresented_intervalStart s b
  have hle := hle b.endTime hstart hwork
  simp only [pushEntry]
  split_ifs with hs
  · exact ⟨max_eq_right hle, by simp⟩
  · refine ⟨rfl, fun snapshot hsnapshot => ?_⟩
    obtain rfl := mem_singleton.1 hsnapshot
    exact ⟨hge, hle, rfl⟩

theorem pushEntries_disjoint {es : List JournalEntry}
    (h : Timely s.intervalStart (stretchesFrom acc es).1) :
    (∀ snapshot ∈ (s.pushEntries es).2, s.intervalStart ≤ snapshot.intervalStart) ∧
      Disjoint (s.pushEntries es).2 := by
  induction es generalizing s acc with
  | nil => exact ⟨by simp [pushEntries], by simp [pushEntries, Disjoint]⟩
  | cons e es ih =>
    by_cases he : ∃ b, e = .boundary b
    · obtain ⟨b, rfl⟩ := he
      obtain ⟨hstarted, hsorted, hevents, hpresents⟩ := h
      simp only [stretchesFrom, forall_mem_cons] at hstarted hevents hpresents
      rw [stretchesFrom, pairwise_cons] at hsorted
      obtain ⟨hnext, hsealed⟩ := pushEntry_boundary_times hstarted.1 hpresents.1
      obtain ⟨hlater, hdisjoint⟩ := @ih (s.pushEntry (.boundary b)).1 []
        ⟨by rw [hnext]; exact hsorted.1, hsorted.2, hevents.2, hpresents.2⟩
      rw [hnext] at hlater
      refine ⟨fun snapshot hs => ?_, fun snapshot hs => ?_, ?_⟩
      · rcases mem_append.1 hs with hs | hs
        · exact (hsealed snapshot hs).1
        · exact hstarted.1.trans (hlater snapshot hs)
      · rcases mem_append.1 hs with hs | hs
        · obtain ⟨-, hle, hb⟩ := hsealed snapshot hs
          rwa [hb]
        · exact hdisjoint.1 snapshot hs
      · refine pairwise_append.2 ⟨?_, hdisjoint.2, fun a ha c hc => ?_⟩
        · simp only [pushEntry]
          split_ifs <;> simp
        · rw [(hsealed a ha).2.2]
          exact hlater c hc
    · have he' : ∀ b, e ≠ .boundary b := fun b hb => he ⟨b, hb⟩
      rw [stretchesFrom_open he'] at h
      have hnone : (s.pushEntry e).2 = [] := by
        cases e with
        | boundary b => exact absurd rfl (he' b)
        | discontinuity | frameState | platformSignal | reentrantFrameSkipped => rfl
        | event event => cases event <;> rfl
      have hmoved : s.intervalStart ≤ (s.pushEntry e).1.intervalStart ∧
          Timely (s.pushEntry e).1.intervalStart (stretchesFrom (acc ++ [e]) es).1 := by
        rcases pushEntry_intervalStart he' with hsame | ⟨time, htime, hmax⟩
        · rw [hsame]
          exact ⟨le_rfl, h⟩
        · rw [hmax]
          exact ⟨le_max_left _ _,
            h.anchored (h.began_le (mem_append_right _ mem_cons_self) htime)⟩
      obtain ⟨hlater, hdisjoint⟩ := ih hmoved.2
      simp only [pushEntries, hnone, nil_append]
      exact ⟨fun snapshot hs => hmoved.1.trans (hlater snapshot hs), hdisjoint⟩

end IntervalSealer

end GpuiFast.Journal
