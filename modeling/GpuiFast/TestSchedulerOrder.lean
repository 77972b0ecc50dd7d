import GpuiFast.TestScheduler

namespace GpuiFast

open List

section Queue

variable {R : Type*}

variable {runnables : List (ScheduledRunnable R)} {ix : ℕ}

variable {session : SessionId} {runnable : ScheduledRunnable R} {blocked seen : List SessionId}
  {backgroundOnly : Bool} {base : ℕ}

lemma isOf_drop_startIx (h : runnable ∈ runnables.drop (startIx session runnables)) :
    isOf session runnable = false := by
  unfold startIx at h
  cases hfind : runnables.reverse.findIdx? (isOf session) with
  | none =>
    rw [hfind, drop_zero] at h
    exact findIdx?_eq_none_iff.mp hfind runnable (mem_reverse.mpr h)
  | some i =>
    rw [hfind] at h
    obtain ⟨hi, -, hbefore⟩ := findIdx?_eq_some_iff_getElem.mp hfind
    rw [length_reverse] at hi
    have hstart : runnables.length - 1 - i + 1 = runnables.length - i := by omega
    simp only [hstart] at h
    rw [← mem_reverse, ← take_reverse, mem_take_iff_getElem] at h
    obtain ⟨j, hj, rfl⟩ := h
    simpa using hbefore j (by omega)

lemma insertIdx_eq_take (runnable : ScheduledRunnable R) (hix : ix ≤ runnables.length) :
    runnables.insertIdx ix runnable = runnables.take ix ++ runnable :: runnables.drop ix := by
  induction ix generalizing runnables with
  | zero => simp
  | succ ix ih =>
    cases runnables with
    | nil => simp at hix
    | cons r runnables =>
      rw [length_cons] at hix
      simp [ih (show ix ≤ runnables.length by omega)]

lemma filter_insertIdx (hix : ix ≤ runnables.length)
    (hsession : isOf session runnable = true → startIx session runnables ≤ ix) :
    (runnables.insertIdx ix runnable).filter (isOf session) =
      runnables.filter (isOf session) ++ [runnable].filter (isOf session) := by
  rw [insertIdx_eq_take runnable hix, filter_append, filter_cons]
  cases hof : isOf session runnable with
  | false =>
    rw [if_neg (by simp), ← filter_append, take_append_drop]
    simp [hof]
  | true =>
    have hnone : (runnables.drop ix).filter (isOf session) = [] := by
      rw [filter_eq_nil_iff]
      intro r hr
      have hdrop := drop_subset_drop_left runnables (hsession hof) hr
      simp [isOf_drop_startIx hdrop]
    have hall : runnables.filter (isOf session) = (runnables.take ix).filter (isOf session) := by
      conv_lhs => rw [← take_append_drop ix runnables, filter_append, hnone]
      rw [append_nil]
    simp [hnone, hall, hof]

lemma candidateIndices_spec (h : ix ∈ candidateIndices blocked backgroundOnly seen base runnables) :
    ∃ before runnable after, runnables = before ++ runnable :: after ∧
      ix = base + before.length ∧ ∀ session, runnable.sessionId = some session →
        backgroundOnly = false ∧ session ∉ blocked ∧ session ∉ seen ∧
          ∀ r ∈ before, isOf session r = false := by
  induction runnables generalizing seen base with
  | nil => simp [candidateIndices] at h
  | cons r runnables ih =>
    -- what is known of a candidate behind the first runnable
    have hbehind : ∀ seen', ix ∈ candidateIndices blocked backgroundOnly seen' (base + 1) runnables →
        (∀ session, session ∉ seen' → session ∉ seen) →
        (∀ session, backgroundOnly = false → session ∉ blocked → session ∉ seen' →
          isOf session r = false) →
        ∃ before runnable after, r :: runnables = before ++ runnable :: after ∧
          ix = base + before.length ∧ ∀ session, runnable.sessionId = some session →
            backgroundOnly = false ∧ session ∉ blocked ∧ session ∉ seen ∧
              ∀ r' ∈ before, isOf session r' = false := by
      intro seen' hix hseen hfirst
      obtain ⟨before, runnable, after, rfl, rfl, hall⟩ := ih hix
      refine ⟨r :: before, runnable, after, rfl, by simp; omega, ?_⟩
      intro session hsession
      obtain ⟨hforeground, hblocked, hnotSeen, hbefore⟩ := hall session hsession
      refine ⟨hforeground, hblocked, hseen session hnotSeen, ?_⟩
      intro r' hr'
      rcases mem_cons.mp hr' with rfl | hr'
      · exact hfirst session hforeground hblocked hnotSeen
      · exact hbefore r' hr'
    cases hr : r.sessionId with
    | none =>
      simp only [candidateIndices, hr, mem_cons] at h
      rcases h with rfl | h
      · exact ⟨[], r, runnables, rfl, by simp, by simp [hr]⟩
      · exact hbehind seen h (fun _ hs => hs) (by simp [isOf, hr])
    | some session =>
      simp only [candidateIndices, hr] at h
      split at h
      · rename_i hskip
        simp only [Bool.or_eq_true, contains_iff_mem] at hskip
        apply hbehind seen h (fun _ hs => hs)
        intro x hforeground hblocked hnotSeen
        have hne : session ≠ x := by
          rintro rfl
          simp [hforeground, hblocked, hnotSeen] at hskip
        simpa [isOf, hr] using hne
      · rename_i hskip
        simp only [Bool.or_eq_true, contains_iff_mem, not_or, Bool.not_eq_true] at hskip
        rcases mem_cons.mp h with rfl | h
        · refine ⟨[], r, runnables, rfl, by simp, ?_⟩
          intro x hx
          obtain rfl : session = x := by simpa [hr] using hx
          exact ⟨hskip.1.1, hskip.1.2, hskip.2, by simp⟩
        · apply hbehind (session :: seen) h (fun x hx => fun hs => hx (by simp [hs]))
          intro x _ _ hnotSeen
          have hne : session ≠ x := by
            rintro rfl
            simp at hnotSeen
          simpa [isOf, hr] using hne

lemma candidateIndices_nil (h : candidateIndices blocked backgroundOnly seen base runnables = []) :
    ∀ runnable ∈ runnables, ∃ session, runnable.sessionId = some session ∧
      (session ∈ blocked ∨ backgroundOnly = true ∨ session ∈ seen) := by
  induction runnables generalizing base with
  | nil => simp
  | cons r runnables ih =>
    cases hr : r.sessionId with
    | none => simp [candidateIndices, hr] at h
    | some session =>
      simp only [candidateIndices, hr] at h
      split at h
      · rename_i hskip
        intro runnable hmem
        rcases mem_cons.mp hmem with rfl | hmem
        · refine ⟨session, hr, ?_⟩
          simp only [Bool.or_eq_true, contains_iff_mem] at hskip
          tauto
        · exact ih h runnable hmem
      · exact absurd h (by simp)

end Queue

namespace SchedulerState

open SchedulerEvent

variable {R : Type*}

/-- The runnables of each session are run in the order in which they were scheduled, and every one
that is scheduled is run once or still queued. -/
structure KeepsSessionOrder (state : SchedulerState R) : Prop where
  inOrder : ∀ session, (scheduledIn state.log).filter (isOf session) =
    (ranIn state.log).filter (isOf session) ++ state.runnables.filter (isOf session)
  once : (ranIn state.log ++ state.runnables).Perm (scheduledIn state.log)

/-- A runnable of a session is run while no call blocks the session, and not by a tick for the
background; a tick says it did nothing only where no timer has expired and every runnable in the
queue is of a session that is blocked or left out, and says it did something only after draining
timers or running a runnable. -/
def Allows (state : SchedulerState R) : SchedulerEvent R → Prop
  | .ran runnable backgroundOnly => ∀ session, runnable.sessionId = some session →
    session ∉ state.blocked ∧ backgroundOnly = false
  | .stepped backgroundOnly false =>
    (∀ timer ∈ state.timers, state.now < timer.expiration) ∧
      ∀ runnable ∈ state.runnables, ∃ session, runnable.sessionId = some session ∧
        (session ∈ state.blocked ∨ backgroundOnly = true)
  | .stepped backgroundOnly true => ∃ call ∈ state.calls.head?, call.ticks backgroundOnly
  | .scheduled _ => True

structure Holds (state : SchedulerState R) : Prop where
  timers : state.timers.Pairwise (fun a b => a.expiration ≤ b.expiration)
  blockedSessions : state.blockedSessions = state.blocked.reverse
  order : KeepsSessionOrder state

variable (config : SchedulerConfig) (log log' : List (SchedulerEvent R))
  {runnable : ScheduledRunnable R}

lemma holds_new : Holds (new config : SchedulerState R) :=
  ⟨.nil, rfl, fun _ => rfl, .refl _⟩

structure Keeps (state state' : SchedulerState R) : Prop where
  runnables : state'.runnables = state.runnables
  timers : state'.timers = state.timers
  log : state'.log = state.log

variable {state state' : SchedulerState R} {call : BlockUntil} {calls : List SchedulerCall}

lemma Holds.keeps (h : Holds state) (hkeeps : Keeps state state')
    (hblocked : state'.blockedSessions = state'.blocked.reverse) : Holds state' := by
  refine ⟨?_, hblocked, ?_, ?_⟩
  · rw [hkeeps.timers]
    exact h.timers
  · rw [hkeeps.log, hkeeps.runnables]
    exact h.order.inOrder
  · rw [hkeeps.log, hkeeps.runnables]
    exact h.order.once

def Below (state : SchedulerState R) (call : BlockUntil) (calls : List SchedulerCall) : Prop :=
  state.blocked = call.sessionId.toList ++ calls.filterMap (·.blocks)

lemma below_of_calls (h : state.calls = .blocking call :: calls) : state.Below call calls := by
  unfold Below blocked
  rw [h, filterMap_cons]
  cases hsession : call.sessionId <;> simp [SchedulerCall.blocks, hsession]

lemma endBlock_keeps (state : SchedulerState R) (call : BlockUntil) (calls : List SchedulerCall) :
    Keeps state (state.endBlock call calls) := ⟨rfl, rfl, rfl⟩

lemma Holds.endBlock (h : Holds state) (hbelow : state.Below call calls) :
    Holds (state.endBlock call calls) := by
  apply h.keeps (endBlock_keeps state call calls)
  have hblocked := h.blockedSessions
  unfold Below at hbelow
  rw [hbelow] at hblocked
  unfold SchedulerState.endBlock
  cases hsession : call.sessionId with
  | none =>
    rw [hsession] at hblocked
    simpa [blocked] using hblocked
  | some session =>
    rw [hsession] at hblocked
    simp [hblocked, blocked]

lemma Holds.setBlocking (h : Holds state) {call' : BlockUntil} (hbelow : state.Below call calls)
    (hsession : call'.sessionId = call.sessionId) :
    Holds { state with calls := .blocking call' :: calls } := by
  have hbelow' : Below { state with calls := .blocking call' :: calls } call' calls :=
    below_of_calls rfl
  unfold Below at hbelow hbelow'
  rw [hsession, ← hbelow] at hbelow'
  exact h.keeps ⟨rfl, rfl, rfl⟩ (by rw [hbelow']; exact h.blockedSessions)

lemma nextTick_keeps (state : SchedulerState R) (call : BlockUntil) (calls : List SchedulerCall) :
    Keeps state (state.nextTick call calls) := by
  unfold nextTick
  split
  · exact endBlock_keeps state call calls
  · exact ⟨rfl, rfl, rfl⟩

lemma Holds.nextTick (h : Holds state) (hbelow : state.Below call calls) :
    Holds (state.nextTick call calls) := by
  unfold SchedulerState.nextTick
  split
  · exact h.endBlock hbelow
  · exact h.setBlocking hbelow rfl

lemma afterSteps_keeps (state : SchedulerState R) (call : BlockUntil) (calls : List SchedulerCall)
    (stepped : Bool) : Keeps state (state.afterSteps call calls stepped) := by
  unfold afterSteps
  dsimp only
  split
  · split
    · obtain ⟨hrunnables, htimers, hlog⟩ := nextTick_keeps { state with now := _ } _ calls
      exact ⟨hrunnables, htimers, hlog⟩
    · split
      · exact endBlock_keeps state _ calls
      · exact ⟨rfl, rfl, rfl⟩
    · exact ⟨rfl, rfl, rfl⟩
  · exact nextTick_keeps state _ calls

lemma Holds.advance (h : Holds state) (now : ℕ) :
    Holds { state with now := now } := h.keeps ⟨rfl, rfl, rfl⟩ h.blockedSessions

lemma Holds.afterSteps (h : Holds state) (hbelow : state.Below call calls) (stepped : Bool) :
    Holds (state.afterSteps call calls stepped) := by
  unfold SchedulerState.afterSteps
  dsimp only
  split
  · split
    · exact (h.advance _).nextTick hbelow
    · split
      · exact h.endBlock hbelow
      · exact h.keeps ⟨rfl, rfl, rfl⟩ h.blockedSessions
    · exact h.setBlocking hbelow rfl
  · exact h.nextTick hbelow

structure Moves (state state' : SchedulerState R) : Prop where
  holds : Holds state'
  events : ∃ events, state'.log = state.log ++ events ∧ ∀ event ∈ events, state.Allows event

lemma Moves.of_keeps (h : Holds state') (hlog : state'.log = state.log) :
    Moves state state' := ⟨h, [], by simp [hlog], by simp⟩

lemma holds_stepped (h : Holds state) (backgroundOnly result : Bool) :
    Holds { state with log := state.log ++ [.stepped backgroundOnly result] } := by
  refine ⟨h.timers, h.blockedSessions, ?_, ?_⟩
  · simpa [scheduledIn, ranIn] using h.order.inOrder
  · simpa [scheduledIn, ranIn] using h.order.once

lemma returned_moves {before : SchedulerState R} (h : Holds state) {backgroundOnly result : Bool}
    (hallows : before.Allows (.stepped backgroundOnly result)) (hlog : state.log = before.log) :
    Moves before (state.returned backgroundOnly result) := by
  have hholds := holds_stepped h backgroundOnly result
  have hmoves : ∀ state', Holds state' →
      state'.log = state.log ++ [.stepped backgroundOnly result] → Moves before state' :=
    fun state' hstate' hlog' => ⟨hstate', _, by rw [hlog', hlog], by simpa using hallows⟩
  unfold returned
  dsimp only
  split
  · rename_i call calls hcalls
    have hbelow := below_of_calls hcalls
    split
    · split
      · exact hmoves _ (hholds.setBlocking hbelow rfl) rfl
      · exact hmoves _ (hholds.afterSteps hbelow _) (afterSteps_keeps _ call calls _).log
    · exact hmoves _ hholds rfl
  · exact hmoves _ hholds rfl

lemma scheduledIn_append :
    scheduledIn (log ++ log') = scheduledIn log ++ scheduledIn log' := filterMap_append

lemma ranIn_append : ranIn (log ++ log') = ranIn log ++ ranIn log' := filterMap_append

lemma insert_moves (h : Holds state) {ix : ℕ} (hix : ix ≤ state.runnables.length)
    (hsession : ∀ session, runnable.sessionId = some session →
      startIx session state.runnables ≤ ix) :
    Moves state ({ state with
      log := state.log ++ [SchedulerEvent.scheduled runnable] }.insert ix runnable) := by
  refine ⟨⟨h.timers, h.blockedSessions, ?_, ?_⟩, _, rfl, by simp [Allows]⟩
  · intro session
    have hfilter := @filter_insertIdx R _ ix session runnable hix
      (fun hof => hsession session (by simpa [isOf] using hof))
    unfold SchedulerState.insert
    rw [scheduledIn_append, ranIn_append, filter_append, filter_append, hfilter,
      h.order.inOrder session]
    simp [scheduledIn, ranIn]
  · have hperm := perm_insertIdx runnable state.runnables hix
    unfold SchedulerState.insert
    rw [scheduledIn_append, ranIn_append]
    have hqueue : (ranIn state.log ++ state.runnables.insertIdx ix runnable).Perm
        (runnable :: (ranIn state.log ++ state.runnables)) :=
      (hperm.append_left _).trans perm_middle
    have hall : (runnable :: (ranIn state.log ++ state.runnables)).Perm
        (scheduledIn state.log ++ [runnable]) :=
      (h.order.once.cons runnable).trans (perm_append_singleton _ _).symm
    simpa [scheduledIn, ranIn] using hqueue.trans hall

lemma startIx_le (session : SessionId) (runnables : List (ScheduledRunnable R)) :
    startIx session runnables ≤ runnables.length := by
  unfold startIx
  cases hfind : runnables.reverse.findIdx? (isOf session) with
  | none => simp
  | some i =>
    have hi := (findIdx?_eq_some_iff_getElem.mp hfind).1
    rw [length_reverse] at hi
    simp only
    omega

section

variable (h : Holds state)
include h

lemma moves_refl : Moves state state :=
  .of_keeps h rfl

lemma scheduleLocal_moves (session : SessionId) (runnable : R) (choice : ℕ) :
    Moves state (state.scheduleLocal session runnable choice) := by
  unfold scheduleLocal
  split
  · split
    · rename_i hchoice
      apply insert_moves h hchoice.2
      intro x hx
      obtain rfl : session = x := by simpa using hx
      exact hchoice.1
    · exact moves_refl h
  · exact insert_moves h le_rfl (fun x _ => startIx_le x _)

lemma scheduleBackground_moves (runnable : R) (priority : Priority) (choice : ℕ) :
    Moves state (state.scheduleBackgroundWithPriority runnable priority choice) := by
  unfold scheduleBackgroundWithPriority
  split
  · split
    · rename_i hchoice
      exact insert_moves h hchoice (by simp)
    · exact moves_refl h
  · exact insert_moves h le_rfl (by simp)

lemma timer_moves (duration : ℕ) : Moves state (state.timer duration) := by
  refine .of_keeps ⟨?_, h.blockedSessions, h.order.inOrder, h.order.once⟩ rfl
  have hsorted := @pairwise_mergeSort _ (fun a b : ScheduledTimer =>
    decide (a.expiration ≤ b.expiration)) (by simp; omega) (by simp; omega)
    (state.timers ++ [⟨state.now + duration⟩])
  simpa [SchedulerState.timer] using hsorted

lemma blockUntil_moves (session : Option SessionId) (hasDeadline : Bool) (ticks : ℕ) :
    Moves state (state.blockUntil session hasDeadline ticks) := by
  unfold blockUntil
  extract_lets maxTicks
  split
  · exact moves_refl h
  · split
    · exact moves_refl h
    · refine .of_keeps (h.keeps ⟨rfl, rfl, rfl⟩ ?_) rfl
      have hblocked := h.blockedSessions
      unfold blocked at hblocked ⊢
      cases session <;> simp [hblocked, SchedulerCall.blocks]

end

lemma run_order (h : Holds state) {before after : List (ScheduledRunnable R)}
    (backgroundOnly : Bool) (hrunnables : state.runnables = before ++ runnable :: after)
    (hfirst : ∀ session, runnable.sessionId = some session →
      ∀ r ∈ before, isOf session r = false) (hqueue : state'.runnables = before ++ after)
    (hlog : state'.log = state.log ++ [.ran runnable backgroundOnly]) :
    KeepsSessionOrder state' := by
  have hscheduled : scheduledIn state'.log = scheduledIn state.log := by
    rw [hlog, scheduledIn_append]
    simp [scheduledIn]
  have hran : ranIn state'.log = ranIn state.log ++ [runnable] := by
    rw [hlog, ranIn_append]
    simp [ranIn]
  constructor
  · intro session
    have hinOrder := h.order.inOrder session
    rw [hrunnables] at hinOrder
    rw [hscheduled, hran, hqueue, hinOrder]
    cases hof : isOf session runnable with
    | false => simp [hof]
    | true =>
      have hnone : before.filter (isOf session) = [] := by
        rw [filter_eq_nil_iff]
        intro r hr
        simp [hfirst session (by simpa [isOf] using hof) r hr]
      simp [hof, hnone]
  · have honce := h.order.once
    rw [hrunnables] at honce
    rw [hscheduled, hran, hqueue, append_assoc]
    have hmiddle : (runnable :: (before ++ after)).Perm (before ++ runnable :: after) :=
      perm_middle.symm
    exact (hmiddle.append_left _).trans honce

lemma not_expired {timers : List ScheduledTimer} {now : ℕ}
    (hsorted : timers.Pairwise (fun a b => a.expiration ≤ b.expiration))
    (hnone : timers.takeWhile (fun timer => timer.expiration ≤ now) = []) :
    ∀ timer ∈ timers, now < timer.expiration := by
  cases timers with
  | nil => simp
  | cons first timers =>
    have hfirst : now < first.expiration := by simpa [takeWhile_cons] using hnone
    intro timer htimer
    rcases mem_cons.mp htimer with rfl | htimer
    · exact hfirst
    · exact lt_of_lt_of_le hfirst ((pairwise_cons.mp hsorted).1 timer htimer)

lemma stepFiltered_moves (h : Holds state) (backgroundOnly : Bool) (choice : ℕ) :
    Moves state (state.stepFiltered backgroundOnly choice) := by
  have hmem : ∀ session, session ∈ state.blockedSessions ↔ session ∈ state.blocked := by
    intro session
    rw [h.blockedSessions, mem_reverse]
  unfold stepFiltered
  dsimp only
  split
  · exact .of_keeps ⟨h.timers.drop, h.blockedSessions, h.order.inOrder, h.order.once⟩ rfl
  · rename_i helapsed
    have htimers : ∀ timer ∈ state.timers, state.now < timer.expiration := by
      have hnone : state.timers.takeWhile (fun timer => timer.expiration ≤ state.now) = [] := by
        simpa using helapsed
      exact not_expired h.timers hnone
    split
    · rename_i hnil
      refine returned_moves h ⟨htimers, ?_⟩ rfl
      intro runnable hrunnable
      obtain ⟨session, hsession, hexcluded⟩ := candidateIndices_nil hnil runnable hrunnable
      refine ⟨session, hsession, ?_⟩
      rw [hmem] at hexcluded
      simpa using hexcluded
    · split
      · exact moves_refl h
      · rename_i ix hpick
        obtain ⟨i, -, hcandidate⟩ := Option.bind_eq_some_iff.mp hpick
        obtain ⟨before, runnable, after, hrunnables, hix, hfirst⟩ :=
          candidateIndices_spec (mem_of_getElem? hcandidate)
        rw [Nat.zero_add] at hix
        have hget : state.runnables[ix]? = some runnable := by
          rw [hrunnables, hix]
          simp
        have herase : state.runnables.eraseIdx ix = before ++ after := by
          rw [hrunnables, hix, eraseIdx_append_of_length_le le_rfl]
          simp
        rw [hget]
        refine ⟨⟨h.timers, h.blockedSessions, ?_⟩, _, rfl, ?_⟩
        · exact run_order h backgroundOnly hrunnables
            (fun session hsession => (hfirst session hsession).2.2.2) herase rfl
        · intro event hevent
          obtain rfl := mem_singleton.mp hevent
          intro session hsession
          obtain ⟨hforeground, hblocked, -⟩ := hfirst session hsession
          exact ⟨fun hsession' => hblocked ((hmem session).mpr hsession'), hforeground⟩

section

variable (h : Holds state)
include h

lemma finish_moves : Moves state state.finish := by
  unfold finish
  split
  · rename_i backgroundOnly calls hcalls
    have hallows : state.Allows (.stepped backgroundOnly true) := by
      refine ⟨_, Option.mem_def.mpr (congrArg List.head? hcalls), ?_⟩
      rfl
    have hblocked := h.blockedSessions
    unfold blocked at hblocked
    rw [hcalls] at hblocked
    have hpopped : Holds { state with calls := calls } := h.keeps ⟨rfl, rfl, rfl⟩ hblocked
    exact returned_moves hpopped hallows rfl
  · rename_i backgroundOnly wasMainThread calls hcalls
    have hallows : state.Allows (.stepped backgroundOnly true) := by
      refine ⟨_, Option.mem_def.mpr (congrArg List.head? hcalls), ?_⟩
      rfl
    have hblocked := h.blockedSessions
    unfold blocked at hblocked
    rw [hcalls] at hblocked
    have hpopped : Holds { state with calls := calls, isMainThread := wasMainThread } :=
      h.keeps ⟨rfl, rfl, rfl⟩ hblocked
    exact returned_moves hpopped hallows rfl
  · exact moves_refl h

lemma polled_moves (ready : Bool) : Moves state (state.polled ready) := by
  unfold polled
  split
  · rename_i call calls hcalls
    have hbelow := below_of_calls hcalls
    split
    · split
      · exact .of_keeps (h.endBlock hbelow) rfl
      · exact .of_keeps (h.setBlocking hbelow rfl) rfl
    · exact moves_refl h
  · exact moves_refl h

lemma stepAgain_moves (choice : ℕ) : Moves state (state.stepAgain choice) := by
  unfold stepAgain
  split
  · split
    · exact stepFiltered_moves h false choice
    · exact moves_refl h
  · exact moves_refl h

lemma stepEnough_moves : Moves state state.stepEnough := by
  unfold stepEnough
  split
  · rename_i call calls hcalls
    split
    · exact .of_keeps (h.afterSteps (below_of_calls hcalls) _) (afterSteps_keeps state _ _ _).log
    · exact moves_refl h
  · exact moves_refl h

lemma unpark_moves (elapsed : ℕ) (progress : Bool) :
    Moves state (state.unpark elapsed progress) := by
  unfold unpark
  split
  · rename_i call calls hcalls
    have hadvanced := h.advance (state.now + elapsed)
    have hbelow := below_of_calls hcalls
    split
    · dsimp only
      split
      · exact .of_keeps (hadvanced.nextTick hbelow) (nextTick_keeps _ _ _).log
      · split
        · exact .of_keeps (hadvanced.endBlock hbelow) rfl
        · exact .of_keeps (hadvanced.keeps ⟨rfl, rfl, rfl⟩ hadvanced.blockedSessions) rfl
    · exact moves_refl h
  · exact moves_refl h

lemma wake_moves (depth : ℕ) : Moves state (state.wake depth) := by
  have hsame : (state.wake depth).blocked = state.blocked := by
    unfold wake blocked
    generalize state.calls = calls
    induction calls generalizing depth with
    | nil => cases depth <;> rfl
    | cons call calls ih =>
      cases depth with
      | zero => cases call <;> rfl
      | succ depth =>
        have htail := ih depth
        simp only [modify_succ_cons, filterMap_cons] at htail ⊢
        rw [htail]
  exact .of_keeps (h.keeps ⟨rfl, rfl, rfl⟩ (by rw [hsame]; exact h.blockedSessions)) rfl

lemma step_moves (action : SchedulerAction R) : Moves state (state.step action) := by
  unfold step
  split
  · exact moves_refl h
  · cases action with
    | scheduleLocal session runnable choice => exact scheduleLocal_moves h session runnable choice
    | scheduleBackgroundWithPriority runnable priority choice =>
      exact scheduleBackground_moves h runnable priority choice
    | timer duration => exact timer_moves h duration
    | advance duration => exact .of_keeps (h.advance _) rfl
    | setParking allowed => exact .of_keeps (h.keeps ⟨rfl, rfl, rfl⟩ h.blockedSessions) rfl
    | wake depth => exact wake_moves h depth
    | tick backgroundOnly choice =>
      dsimp only
      split
      · exact stepFiltered_moves h backgroundOnly choice
      · exact moves_refl h
    | blockUntil session hasDeadline ticks =>
      dsimp only
      split
      · exact blockUntil_moves h session hasDeadline ticks
      · exact moves_refl h
    | finish => exact finish_moves h
    | polled ready => exact polled_moves h ready
    | stepAgain choice => exact stepAgain_moves h choice
    | stepEnough => exact stepEnough_moves h
    | unpark elapsed progress => exact unpark_moves h elapsed progress

end

lemma holds_run (actions : List (SchedulerAction R)) : Holds (run config actions) := by
  have hall : ∀ (actions : List (SchedulerAction R)) (state : SchedulerState R), Holds state →
      Holds (actions.foldl step state) := by
    intro actions
    induction actions with
    | nil => exact fun _ h => h
    | cons action actions ih => exact fun state h => ih _ (step_moves h action).holds
  exact hall actions _ (holds_new config)

/-- In every run the runnables of a session are run in the order in which they were scheduled, each
once or still queued; and in every step that a run goes on with, a session is left alone while it is
blocked and by ticks for the background, and a tick says what it did. -/
theorem run_keepsSessionOrder (config : SchedulerConfig) (actions : List (SchedulerAction R))
    (action : SchedulerAction R) :
    KeepsSessionOrder (run config actions) ∧
      ∃ events, ((run config actions).step action).log = (run config actions).log ++ events ∧
        ∀ event ∈ events, (run config actions).Allows event :=
  have holds := holds_run config actions
  ⟨holds.order, (step_moves holds action).events⟩

end SchedulerState

end GpuiFast
