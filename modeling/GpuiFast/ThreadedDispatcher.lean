import Mathlib.Data.Int.Notation
import Mathlib.Data.Nat.Notation
import Mathlib.Logic.Function.Basic
import Mathlib.Tactic.Common
import Mathlib.Tactic.Lemma

/-! A dispatcher's threads, each section under a lock one step: the main thread in
`run_until_idle`, the workers and the timer thread. Runnables are only counted; while one runs it
dispatches what it likes. A step that a thread cannot take now changes nothing. -/

namespace GpuiFast

/-- Where code that dispatches stands: `dispatch` counts a runnable and then sends it,
`dispatch_on_main_thread` sends one and then notifies. -/
inductive DispatchStage where
  | code
  | sending
  | notifying
  deriving DecidableEq

inductive DispatchSection where
  | increment
  | send
  | sendToMain
  | notifyUnderLock
  | dispatchAfter (duration : ℕ)

/-- `code` is a runnable's, or its caller's `outside` of `run_until_idle`. -/
inductive MainThread where
  | code (outside : Bool) (stage : DispatchStage)
  | draining (ranAny : Bool)
  | looking
  | polling
  | settling
  | waiting

structure TimerEntry where
  due : ℕ
  seq : ℕ

/-- `threads` counts those that run a background or timer runnable. `lookedAt` and `lookedSeq` record
the time and `nextSeq` when the main thread last looked for a due timer. -/
structure ThreadedDispatcher where
  background : ℕ
  mainQueue : ℕ
  heap : List TimerEntry
  nextSeq : ℕ
  now : ℕ
  inflight : ℤ
  threads : DispatchStage → ℕ
  main : MainThread
  lookedAt : ℕ
  lookedSeq : ℕ

inductive ThreadStep where
  | main
  | mainDispatch (act : DispatchSection)
  | threadDispatch (stage : DispatchStage) (act : DispatchSection)
  | workerPop
  | timerPop (i : ℕ)
  | finish
  | tick

def DispatchStage.owed (stage : DispatchStage) : ℕ := if stage = .sending then 1 else 0

def MainThread.owed : MainThread → ℕ
  | code _ stage => stage.owed
  | _ => 0

namespace ThreadedDispatcher

def new : ThreadedDispatcher := ⟨0, 0, [], 0, 0, 0, fun _ => 0, .code true .code, 0, 0⟩

variable (d : ThreadedDispatcher)

def notifyAll : ThreadedDispatcher :=
  match d.main with
  | .polling | .waiting => { d with main := .draining false }
  | _ => d

/-- One section of a dispatch, and the stage it leads to. -/
def dispatchSection : DispatchStage → DispatchSection → Option (DispatchStage × ThreadedDispatcher)
  | .code, .increment => some (.sending, { d with inflight := d.inflight + 1 })
  | .sending, .send => some (.code, { d with background := d.background + 1 })
  | .code, .sendToMain => some (.notifying, { d with mainQueue := d.mainQueue + 1 })
  | .notifying, .notifyUnderLock => some (.code, d.notifyAll)
  | .code, .dispatchAfter duration =>
    some (.code, { d with heap := ⟨d.now + duration, d.nextSeq⟩ :: d.heap, nextSeq := d.nextSeq + 1 })
  | _, _ => none

/-- The main thread's next section, apart from dispatches. -/
def mainStep : ThreadedDispatcher :=
  match d.main with
  | .code outside .code => { d with main := .draining (!outside) }
  | .draining ranAny =>
    if 0 < d.mainQueue then { d with mainQueue := d.mainQueue - 1, main := .code false .code }
    else { d with main := if ranAny then .draining false else .looking }
  | .looking =>
    { d with main := if d.heap.any (·.due ≤ d.now) then .polling else .settling,
             lookedAt := d.now, lookedSeq := d.nextSeq }
  | .polling => { d with main := .draining false }
  | .settling =>
    { d with main := if 0 < d.mainQueue then .draining false
                     else if d.inflight = 0 then .code true .code else .waiting }
  | _ => d

def step : ThreadStep → ThreadedDispatcher
  | .main => d.mainStep
  | .mainDispatch act =>
    match d.main with
    | .code outside stage =>
      match d.dispatchSection stage act with
      | some (next, d') => { d' with main := .code outside next }
      | none => d
    | _ => d
  | .threadDispatch stage act =>
    match d.dispatchSection stage act with
    | some (next, d') =>
      if 0 < d.threads stage then
        let left := Function.update d.threads stage (d.threads stage - 1)
        { d' with threads := Function.update left next (left next + 1) }
      else d
    | none => d
  | .workerPop =>
    if 0 < d.background then
      { d with background := d.background - 1,
               threads := Function.update d.threads .code (d.threads .code + 1) }
    else d
  | .timerPop i =>
    match d.heap[i]? with
    | some entry =>
      if entry.due ≤ d.now ∧ ∀ e ∈ d.heap,
          entry.due < e.due ∨ entry.due = e.due ∧ entry.seq ≤ e.seq then
        { d with heap := d.heap.eraseIdx i, inflight := d.inflight + 1,
                 threads := Function.update d.threads .code (d.threads .code + 1) }
      else d
    | none => d
  | .finish =>
    if 0 < d.threads .code then
      let d := { d with inflight := d.inflight - 1,
                        threads := Function.update d.threads .code (d.threads .code - 1) }
      if d.inflight = 0 then d.notifyAll else d
    else d
  | .tick => { d with now := d.now + 1 }

/-- What is counted is what is sent or to be sent and what runs; work waits in the main queue of a
thread that waits only while a notification of it is to come. -/
structure Holds : Prop where
  counted : d.inflight = d.background + d.threads .code + 2 * d.threads .sending +
    d.threads .notifying + d.main.owed
  waits : d.main = .waiting → 0 < d.inflight ∧ (0 < d.mainQueue → 0 < d.threads .notifying)
  looked : d.lookedSeq ≤ d.nextSeq ∧ (d.main = .settling →
    ∀ e ∈ d.heap, d.lookedSeq ≤ e.seq ∨ d.lookedAt < e.due)

variable {d : ThreadedDispatcher}

lemma Holds.goTo (h : d.Holds) {main : MainThread} (howed : main.owed = d.main.owed)
    (hmain : main ≠ .waiting ∧ main ≠ .settling) : Holds { d with main } :=
  ⟨by rw [h.counted, ← howed], fun hw => absurd hw hmain.1, h.looked.1,
    fun hs => absurd hs hmain.2⟩

lemma notifyAll_cases (d : ThreadedDispatcher) : d.notifyAll = d ∧ d.main ≠ .waiting ∨
    d.notifyAll = { d with main := .draining false } ∧ d.main.owed = 0 := by
  rw [notifyAll]
  split <;> simp_all [MainThread.owed]

/-- What is counted moves from the stage to the queue, and work for the main queue is notified of. -/
lemma dispatchSection_spec {d' : ThreadedDispatcher} {stage next : DispatchStage}
    {act : DispatchSection} (h : d.dispatchSection stage act = some (next, d')) :
    d'.threads = d.threads ∧ d'.inflight + stage.owed + d.background =
        d.inflight + next.owed + d'.background ∧ d.inflight ≤ d'.inflight ∧
      d'.lookedAt = d.lookedAt ∧ d'.lookedSeq = d.lookedSeq ∧ d.nextSeq ≤ d'.nextSeq ∧
      (∀ e ∈ d'.heap, e ∈ d.heap ∨ d.nextSeq ≤ e.seq) ∧
      (d'.main = d.main ∧ (d.main = .waiting → stage ≠ .notifying) ∧
          (next = .notifying ∨ d'.mainQueue = d.mainQueue) ∨
        d'.main = .draining false ∧ d.main.owed = 0) := by
  cases stage <;> cases act <;> simp only [dispatchSection, Option.some.injEq, Prod.mk.injEq,
    reduceCtorEq] at h
  all_goals obtain ⟨rfl, rfl⟩ := h
  case notifying.notifyUnderLock =>
    obtain ⟨heq, hw⟩ | ⟨heq, hw⟩ := notifyAll_cases d <;>
      simp +contextual [heq, hw, DispatchStage.owed]
  all_goals simp +contextual [DispatchStage.owed] <;> omega

lemma Holds.mainStep (h : d.Holds) : d.mainStep.Holds := by
  rw [ThreadedDispatcher.mainStep]
  split
  case h_1 hmain | h_4 hmain => exact h.goTo (by rw [hmain]; rfl) ⟨nofun, nofun⟩
  case h_2 hmain =>
    split_ifs
    · have h' : Holds { d with main := .code false .code } :=
        h.goTo (by rw [hmain]; rfl) ⟨nofun, nofun⟩
      exact ⟨h'.counted, nofun, h.looked.1, nofun⟩
    all_goals exact h.goTo (by rw [hmain]; rfl) ⟨nofun, nofun⟩
  case h_3 hmain =>
    have hcounted := h.counted
    rw [hmain] at hcounted
    refine ⟨by split_ifs <;> exact hcounted, fun hw => ?_, d.nextSeq.le_refl, fun hs e he => .inr ?_⟩
    · split_ifs at hw
    · refine Nat.lt_of_not_le fun hle => ?_
      rw [if_pos (List.any_eq_true.mpr ⟨e, he, decide_eq_true hle⟩)] at hs
      contradiction
  case h_5 hmain =>
    have hcounted := h.counted
    rw [hmain] at hcounted
    split_ifs with hqueue hzero
    · exact h.goTo (by rw [hmain]; rfl) ⟨nofun, nofun⟩
    · exact h.goTo (by rw [hmain]; rfl) ⟨nofun, nofun⟩
    · have hpos : 0 < d.inflight := by omega
      exact ⟨hcounted, fun _ => ⟨hpos, fun hq => absurd hq hqueue⟩, h.looked.1, nofun⟩
  case h_6 => exact h

lemma Holds.step (h : d.Holds) (step : ThreadStep) : (d.step step).Holds := by
  obtain ⟨hcounted, hwaits, hseq, hlooked⟩ := id h
  cases step with
  | main => exact h.mainStep
  | mainDispatch act =>
    simp only [ThreadedDispatcher.step]
    split
    case h_2 => exact h
    rename_i outside stage hmain
    split
    case h_2 => exact h
    rename_i next d' hact
    obtain ⟨hthreads, hcount, -, -, hlseq, hnext, -, -⟩ := dispatchSection_spec hact
    rw [hmain] at hcounted
    simp only [MainThread.owed] at hcounted
    refine ⟨?_, nofun, ?_, nofun⟩
    · simp only [hthreads, MainThread.owed]
      omega
    · dsimp only
      omega
  | threadDispatch stage act =>
    simp only [ThreadedDispatcher.step]
    split
    case h_2 => exact h
    rename_i next d' hact
    split_ifs with hpos
    case neg => exact h
    obtain ⟨hthreads, hcount, hle, hat, hlseq, hnext, hheap, hgo⟩ := dispatchSection_spec hact
    have howed : d'.main.owed = d.main.owed := by
      obtain ⟨hgo, -⟩ | ⟨hgo, howed⟩ := hgo
      · rw [hgo]
      · rw [hgo, howed]; rfl
    refine ⟨?_, fun hw => ?_, ?_, fun hs e he => ?_⟩
    · simp only [howed]
      cases stage <;> cases next <;> simp_all [Function.update, DispatchStage.owed] <;> omega
    · obtain ⟨hgo, hstage, hqueue⟩ | ⟨hgo, -⟩ := hgo
      · obtain ⟨hinflight, hnotifying⟩ := hwaits (hgo.symm.trans hw)
        refine ⟨by dsimp only; omega, fun hq => ?_⟩
        have := hstage (hgo.symm.trans hw)
        cases stage <;> cases next <;> simp_all [Function.update]
      · simp [hgo] at hw
    · dsimp only
      omega
    · obtain ⟨hgo, -⟩ | ⟨hgo, -⟩ := hgo
      · have := hlooked (hgo.symm.trans hs) e
        have := hheap e he
        simp only [hat, hlseq]
        grind
      · simp [hgo] at hs
  | workerPop =>
    simp only [ThreadedDispatcher.step]
    split_ifs
    · refine ⟨?_, fun hw => by simpa using hwaits hw, hseq, hlooked⟩
      simp [hcounted]
      omega
    · exact ⟨hcounted, hwaits, hseq, hlooked⟩
  | timerPop i =>
    simp only [ThreadedDispatcher.step]
    split
    · split_ifs
      · refine ⟨?_, fun hw => ?_, hseq, fun hs e he => hlooked hs e (List.mem_of_mem_eraseIdx he)⟩
        · simp_all; omega
        · have := hwaits hw
          simp_all; omega
      · exact ⟨hcounted, hwaits, hseq, hlooked⟩
    · exact ⟨hcounted, hwaits, hseq, hlooked⟩
  | finish =>
    have hleft : 0 < d.threads .code → d.inflight - 1 = d.background +
        (Function.update d.threads .code (d.threads .code - 1)) .code +
        2 * (Function.update d.threads .code (d.threads .code - 1)) .sending +
        (Function.update d.threads .code (d.threads .code - 1)) .notifying + d.main.owed := by
      intro hpos
      simp only [Function.update_self, ne_eq, reduceCtorEq, not_false_eq_true,
        Function.update_of_ne, hcounted]
      omega
    simp only [ThreadedDispatcher.step]
    split_ifs with hpos hzero
    · obtain ⟨heq, hw⟩ | ⟨heq, howed⟩ := notifyAll_cases { d with
        inflight := d.inflight - 1,
        threads := Function.update d.threads .code (d.threads .code - 1) } <;> rw [heq]
      · exact ⟨hleft hpos, fun hw' => absurd hw' hw, hseq, hlooked⟩
      · exact ⟨by rw [hleft hpos, howed]; rfl, nofun, hseq, nofun⟩
    · refine ⟨hleft hpos, fun hw => ?_, hseq, hlooked⟩
      obtain ⟨hinflight, hnotifying⟩ := hwaits hw
      refine ⟨by dsimp only; omega, fun hq => ?_⟩
      simpa using hnotifying hq
    · exact h
  | tick => exact ⟨hcounted, hwaits, hseq, hlooked⟩

lemma Holds.run (h : d.Holds) (steps : List ThreadStep) :
    (steps.foldl ThreadedDispatcher.step d).Holds := by
  induction steps generalizing d with
  | nil => exact h
  | cons step steps ih => exact ih (h.step step)

/-- In every run: the count of what is in flight is never below zero; the main thread waits without a
timeout only while something is in flight, with work in its queue only if a notification of it is to
come; and where `run_until_idle` returns nothing is queued or runs, and the timers left were armed
since the main thread last looked or were not due then. -/
theorem run_until_idle_returns_idle (steps : List ThreadStep) :
    let d := steps.foldl step new
    0 ≤ d.inflight ∧
      (d.main = .waiting → 0 < d.inflight ∧ (0 < d.mainQueue → 0 < d.threads .notifying)) ∧
      (d.main = .settling → d.mainStep.main = .code true .code → d.mainStep.mainQueue = 0 ∧
        d.mainStep.background = 0 ∧ (∀ stage, d.mainStep.threads stage = 0) ∧
        d.mainStep.inflight = 0 ∧
        ∀ e ∈ d.mainStep.heap, d.mainStep.lookedSeq ≤ e.seq ∨ d.mainStep.lookedAt < e.due) := by
  intro d
  have h : d.Holds :=
    Holds.run (d := new)
      ⟨by simp [new, MainThread.owed, DispatchStage.owed], nofun, by simp [new], nofun⟩ steps
  have hcounted := h.counted
  refine ⟨by omega, h.waits, fun hs hreturns => ?_⟩
  simp only [mainStep, hs] at hreturns ⊢
  split_ifs at hreturns with hqueue hzero
  refine ⟨by omega, by omega, fun stage => ?_, hzero, h.looked.2 hs⟩
  cases stage <;> omega

end ThreadedDispatcher

end GpuiFast
