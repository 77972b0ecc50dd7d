import GpuiFast.PriorityQueue
import Mathlib

namespace GpuiFast

open List Option QueueEvent

variable {T : Type*}

namespace PriorityQueues

variable {queues : PriorityQueues T} {priority : Priority}

lemma queue_setQueue (hpriority : priority ≠ .realtimeAudio) (items : List T) (p : Priority) :
    (queues.setQueue priority items).queue p = if p = priority then items else queues.queue p := by
  cases priority <;> cases p <;> first | rfl | exact absurd rfl hpriority

lemma ne_realtimeAudio {item : T} {items : List T} (h : queues.queue priority = item :: items) :
    priority ≠ .realtimeAudio := by
  rintro rfl
  cases h

lemma weight_pos (h : priority ≠ .realtimeAudio) : 0 < priority.weight := by
  cases priority with
  | realtimeAudio => exact absurd rfl h
  | high => decide
  | medium => decide
  | low => decide

variable (coins : Priority → Bool)

lemma popFrom_yields (queues : PriorityQueues T) {priorities : List Priority} {mass : ℕ}
    (hmass : mass = (priorities.map queues.mass).sum) (hpos : 0 < mass) :
    ∃ priority item items, queues.queue priority = item :: items ∧
      queues.popFrom coins priorities mass =
        some (some (priority, item), queues.setQueue priority items) := by
  induction priorities generalizing mass with
  | nil =>
    rw [hmass] at hpos
    exact absurd hpos (Nat.lt_irrefl 0)
  | cons priority priorities ih =>
    rw [map_cons, sum_cons] at hmass
    rw [popFrom]
    cases hqueue : queues.queue priority with
    | nil =>
      have hzero : queues.mass priority = 0 := by rw [PriorityQueues.mass, hqueue]; rfl
      exact ih (by omega) hpos
    | cons item items =>
      have hweight : queues.mass priority = priority.weight := by
        rw [PriorityQueues.mass, hqueue]
        rfl
      have hweightPos := weight_pos (ne_realtimeAudio hqueue)
      dsimp only
      rw [randomRatio, if_neg (by omega)]
      by_cases hlast : priority.weight = mass
      · -- the coin of the last priority with items always lands true
        rw [if_pos hlast]
        exact ⟨priority, item, items, hqueue, rfl⟩
      · rw [if_neg hlast, if_neg (by omega)]
        cases coins priority with
        | true => exact ⟨priority, item, items, hqueue, rfl⟩
        | false => exact ih (by omega) (by omega)

lemma isEmpty_eq_true : queues.isEmpty = true ↔ ∀ priority, queues.queue priority = [] := by
  rw [isEmpty, Bool.and_eq_true, Bool.and_eq_true, List.isEmpty_iff, List.isEmpty_iff,
    List.isEmpty_iff]
  constructor
  · rintro ⟨⟨hhigh, hmedium⟩, hlow⟩ priority
    cases priority with
    | realtimeAudio => rfl
    | high => exact hhigh
    | medium => exact hmedium
    | low => exact hlow
  · intro h
    exact ⟨⟨h .high, h .medium⟩, h .low⟩

lemma pop_yields (h : queues.isEmpty = false) :
    ∃ priority item items, queues.queue priority = item :: items ∧
      queues.pop coins = some (some (priority, item), queues.setQueue priority items) := by
  refine queues.popFrom_yields coins ?_ ?_
  · simp only [map_cons, map_nil, sum_cons, sum_nil]
    omega
  · by_contra hzero
    have hqueue : ∀ priority, queues.mass priority = 0 → queues.queue priority = [] := by
      intro priority hmass
      cases hqueue : queues.queue priority with
      | nil => rfl
      | cons item items =>
        rw [mass, hqueue] at hmass
        exact absurd hmass (Nat.ne_of_gt (weight_pos (ne_realtimeAudio hqueue)))
    have hempty : queues.isEmpty = true := by
      refine isEmpty_eq_true.mpr (fun priority => ?_)
      cases priority with
      | realtimeAudio => rfl
      | high => exact hqueue _ (by omega)
      | medium => exact hqueue _ (by omega)
      | low => exact hqueue _ (by omega)
    rw [h] at hempty
    cases hempty

end PriorityQueues

namespace QueueThread

def holdsLock : QueueThread T → Bool
  | pushing _ _ => true
  | receiving _ => true
  | parking => true
  | choosing _ => true
  | _ => false

end QueueThread

namespace PriorityQueueState

structure Fits (state : PriorityQueueState T) (i : ℕ) (thread : QueueThread T) : Prop where
  holdsLock : thread.holdsLock = true → state.lockedBy = some i
  choosing : ∀ mode, thread = .choosing mode → state.queues.isEmpty = false
  parking : thread = .parking → state.senderDrop = .live ∨ state.senderDrop = .locking
  waiting : thread = .waiting → state.senderDrop ≠ .done
  sending : thread.isSending = true → state.senderDrop = .live

variable {thread : QueueThread T} {state : PriorityQueueState T} {i : ℕ}
  {state' : PriorityQueueState T} {event : QueueEvent T}

lemma fits_idle (state : PriorityQueueState T) (i : ℕ) (hlock : thread.holdsLock = false)
    (hwaiting : thread.isWaiting = false) (hsending : thread.isSending = false) :
    Fits state i thread := by
  refine ⟨fun h => ?_, ?_, ?_, ?_, fun h => ?_⟩
  · rw [hlock] at h
    cases h
  · rintro mode rfl
    cases hlock
  · rintro rfl
    cases hlock
  · rintro rfl
    cases hwaiting
  · rw [hsending] at h
    cases h

lemma Fits.woken (h : Fits state i thread) : Fits state i thread.woken := by
  cases thread with
  | waiting => exact fits_idle state i rfl rfl rfl
  | _ => exact h

lemma Fits.other {j : ℕ} (h : Fits state j thread) (hdrop : state'.senderDrop = state.senderDrop)
    (hlock : state.lockedBy = some j → state'.lockedBy = some j)
    (hqueues : state'.queues = state.queues ∨ state.lockedBy = some i) (hij : j ≠ i) :
    Fits state' j thread := by
  refine ⟨fun hholds => hlock (h.holdsLock hholds), fun mode hmode => ?_, ?_, ?_, ?_⟩
  · rcases hqueues with hqueues | hqueues
    · rw [hqueues]
      exact h.choosing mode hmode
    · have hheld := h.holdsLock (by rw [hmode]; rfl)
      rw [hqueues] at hheld
      exact absurd (some.inj hheld).symm hij
  · rw [hdrop]
    exact h.parking
  · rw [hdrop]
    exact h.waiting
  · rw [hdrop]
    exact h.sending

structure Holds (state : PriorityQueueState T) : Prop where
  fifo : ∀ priority, accepts priority state.log =
    receives priority state.log ++ state.queues.queue priority
  fits : ∀ i thread, state.threads[i]? = some thread → Fits state i thread
  senderCount : state.senderCount = if state.senderDrop = .live then 1 else 0
  notPanicked : ∀ i, .panicked i ∉ state.log

lemma holds_new : Holds (new : PriorityQueueState T) where
  fifo := fun priority => by cases priority <;> rfl
  fits := fun i thread hthread => by
    match i, hthread with
    | 0, hthread =>
      obtain rfl : QueueThread.sender = thread := some.inj hthread
      exact fits_idle _ _ rfl rfl rfl
    | 1, hthread =>
      obtain rfl : QueueThread.receiver = thread := some.inj hthread
      exact fits_idle _ _ rfl rfl rfl
    | i + 2, hthread => cases hthread
  senderCount := rfl
  notPanicked := fun i h => by cases h

lemma Holds.move (h : Holds state) (i : ℕ)
    (hthreads : ∀ j thread, state'.threads[j]? = some thread →
      j = i ∧ Fits state' i thread ∨ j ≠ i ∧ ∃ before, state.threads[j]? = some before ∧
        (thread = before ∨ thread = before.woken)) (hdrop : state'.senderDrop = state.senderDrop)
    (hcount : state'.senderCount = state.senderCount)
    (hlock : ∀ j, j ≠ i → state.lockedBy = some j → state'.lockedBy = some j)
    (hqueues : state'.queues = state.queues ∨ state.lockedBy = some i)
    (hfifo : ∀ priority, accepts priority state'.log =
      receives priority state'.log ++ state'.queues.queue priority)
    (hpanicked : ∀ j, .panicked j ∈ state'.log → .panicked j ∈ state.log) : Holds state' := by
  refine ⟨hfifo, fun j thread hthread => ?_, ?_, fun j hj => h.notPanicked j (hpanicked j hj)⟩
  · rcases hthreads j thread hthread with ⟨rfl, hfits⟩ | ⟨hji, before, hbefore, hthread⟩
    · exact hfits
    · have hfits := (h.fits j before hbefore).other hdrop (hlock j hji) hqueues hji
      rcases hthread with rfl | rfl
      · exact hfits
      · exact hfits.woken
  · rw [hcount, hdrop]
    exact h.senderCount

lemma threads_set (hfits : Fits state' i thread) (j : ℕ) (thread' : QueueThread T)
    (hthread : (state.threads.set i thread)[j]? = some thread') :
    j = i ∧ Fits state' i thread' ∨ j ≠ i ∧ ∃ before, state.threads[j]? = some before ∧
      (thread' = before ∨ thread' = before.woken) := by
  rw [getElem?_set] at hthread
  split at hthread
  · next hij =>
    split at hthread
    · obtain rfl := some.inj hthread
      exact .inl ⟨hij.symm, hfits⟩
    · cases hthread
  · next hij => exact .inr ⟨Ne.symm hij, thread', hthread, .inl rfl⟩

lemma threads_append (hfits : Fits state' state.threads.length thread) (j : ℕ)
    (thread' : QueueThread T) (hthread : (state.threads ++ [thread])[j]? = some thread') :
    j = state.threads.length ∧ Fits state' state.threads.length thread' ∨
      j ≠ state.threads.length ∧ ∃ before, state.threads[j]? = some before ∧
        (thread' = before ∨ thread' = before.woken) := by
  rcases Nat.lt_trichotomy j state.threads.length with hj | rfl | hj
  · rw [getElem?_append_left hj] at hthread
    exact .inr ⟨Nat.ne_of_lt hj, thread', hthread, .inl rfl⟩
  · rw [getElem?_concat_length] at hthread
    obtain rfl := some.inj hthread
    exact .inl ⟨rfl, hfits⟩
  · rw [getElem?_eq_none (by rw [length_append, length_singleton]; omega)] at hthread
    cases hthread

lemma Holds.setThread (h : Holds state) (hfits : Fits state i thread) :
    Holds (state.setThread i thread) :=
  h.move i (threads_set ⟨hfits.holdsLock, hfits.choosing, hfits.parking, hfits.waiting,
    hfits.sending⟩) rfl rfl (fun _ _ hlock => hlock) (.inl rfl) h.fifo (fun _ hj => hj)

lemma finish_lock (thread : QueueThread T) (event : QueueEvent T) (j : ℕ) (hji : j ≠ i)
    (hlock : state.lockedBy = some j) : (state.finish i thread event).lockedBy = some j := by
  rw [finish]
  dsimp only
  rw [if_neg (fun heq => hji (some.inj (hlock.symm.trans heq))), hlock]

/-- Events that neither accept an item nor receive one, nor tell of a panic. -/
def isQuiet : QueueEvent T → Bool
  | .refused _ _ => true
  | .unreachable _ => true
  | .nothing _ => true
  | .disconnected _ => true
  | _ => false

variable (priority : Priority) (log log' : List (QueueEvent T)) {mode : PopMode}

lemma accepts_append :
    accepts priority (log ++ log') = accepts priority log ++ accepts priority log' :=
  filterMap_append ..

lemma receives_append :
    receives priority (log ++ log') = receives priority log ++ receives priority log' :=
  filterMap_append ..

lemma Holds.finish (h : Holds state) (hlock : thread.holdsLock = false)
    (hwaiting : thread.isWaiting = false) (hsending : thread.isSending = false)
    (hquiet : isQuiet event = true) : Holds (state.finish i thread event) := by
  refine h.move i (threads_set (fits_idle _ i hlock hwaiting hsending)) rfl rfl
    (finish_lock thread event) (.inl rfl) (fun priority => ?_) (fun j hj => ?_)
  · have hnone : accepts priority [event] = [] ∧
        receives priority [event] = [] := by
      cases event with
      | accepted => cases hquiet
      | received => cases hquiet
      | _ => exact ⟨rfl, rfl⟩
    rw [PriorityQueueState.finish]
    dsimp only
    rw [accepts_append, receives_append, hnone.1, hnone.2, append_nil, append_nil]
    exact h.fifo priority
  · rcases mem_append.mp hj with hj | hj
    · exact hj
    · rw [← mem_singleton.mp hj] at hquiet
      cases hquiet

lemma holdsLock_of (h : Holds state) (hthread : state.threads[i]? = some thread)
    (hlock : thread.holdsLock = true) : state.lockedBy = some i :=
  (h.fits i thread hthread).holdsLock hlock

lemma Holds.lock (h : Holds state) (i : ℕ) : Holds (state.lock i) := by
  rw [PriorityQueueState.lock]
  split
  · next hfree =>
    have hother : ∀ j, j ≠ i → state.lockedBy = some j → some i = some j := by
      intro j _ hj
      rw [hfree] at hj
      cases hj
    split
    · next priority item hthread =>
      have hlive := (h.fits i _ hthread).sending rfl
      exact h.move i (threads_set ⟨fun _ => rfl, fun _ hmode => (by cases hmode),
        fun hpark => (by cases hpark), fun hwait => (by cases hwait), fun _ => hlive⟩) rfl rfl hother
        (.inl rfl) h.fifo (fun _ hj => hj)
    · exact h.move i (threads_set ⟨fun _ => rfl, fun _ hmode => (by cases hmode),
        fun hpark => (by cases hpark), fun hwait => (by cases hwait),
        fun hsend => (by cases hsend)⟩) rfl rfl hother (.inl rfl) h.fifo (fun _ hj => hj)
    · exact h
  · exact h

lemma notifyOne_threads (threads : List (QueueThread T)) (i j : ℕ) (thread : QueueThread T)
    (h : (notifyOne threads i)[j]? = some thread) :
    ∃ before, threads[j]? = some before ∧ (thread = before ∨ thread = before.woken) := by
  have hmodify : ∀ k, (threads.modify k (·.woken))[j]? = some thread →
      ∃ before, threads[j]? = some before ∧ (thread = before ∨ thread = before.woken) := by
    intro k hk
    rw [getElem?_modify] at hk
    obtain ⟨before, hbefore, hthread⟩ := map_eq_some_iff.mp hk
    refine ⟨before, hbefore, ?_⟩
    split at hthread
    · exact .inr hthread.symm
    · exact .inl hthread.symm
  rw [notifyOne] at h
  split at h
  · exact hmodify _ h
  · split at h
    · exact hmodify _ h
    · exact ⟨thread, h, .inl rfl⟩

lemma Holds.push (h : Holds state) (i woken : ℕ) : Holds (state.push i woken) := by
  rw [PriorityQueueState.push]
  split
  · next priority item hthread =>
    have hheld := holdsLock_of h hthread rfl
    split
    · next queues hqueues =>
      have hpriority : priority ≠ .realtimeAudio := by
        rintro rfl
        cases hqueues
      rw [PriorityQueues.push, if_neg hpriority] at hqueues
      obtain rfl := some.inj hqueues
      refine h.move i (fun j thread hj => ?_) rfl rfl (finish_lock .sender (.accepted priority item))
        (.inr hheld) (fun p => ?_) (fun j hj => ?_)
      · obtain ⟨before, hbefore, hwoken⟩ := notifyOne_threads _ _ _ _ hj
        rw [getElem?_set] at hbefore
        split at hbefore
        · next hij =>
          split at hbefore
          · obtain rfl := some.inj hbefore
            have hsender : thread = .sender := by
              rcases hwoken with rfl | rfl <;> rfl
            rw [hsender]
            exact .inl ⟨hij.symm, fits_idle _ _ rfl rfl rfl⟩
          · cases hbefore
        · next hij => exact .inr ⟨Ne.symm hij, before, hbefore, hwoken⟩
      · have hfifo := h.fifo p
        rw [PriorityQueueState.finish]
        dsimp only
        rw [accepts_append, receives_append, PriorityQueues.queue_setQueue hpriority, hfifo]
        by_cases hp : p = priority
        · subst hp
          simp [accepts, receives]
        · simp [accepts, receives, hp, Ne.symm hp]
      · rcases mem_append.mp hj with hj | hj
        · exact hj
        · cases mem_singleton.mp hj
    · exact h.finish rfl rfl rfl rfl
  · exact h

lemma Holds.recv (h : Holds state) (i : ℕ) : Holds (state.recv i) := by
  rw [PriorityQueueState.recv]
  split
  · next mode hthread =>
    have hheld := holdsLock_of h hthread rfl
    split
    · split
      · exact h.finish rfl rfl rfl rfl
      · next hsender =>
        split
        · -- the sender was there when its count was read
          have hlive : state.senderDrop = .live := by
            by_contra hdropped
            rw [h.senderCount, if_neg hdropped] at hsender
            exact hsender rfl
          exact h.setThread ⟨fun _ => hheld, fun _ hmode => (by cases hmode), fun _ => .inl hlive,
            fun hwait => (by cases hwait), fun hsend => (by cases hsend)⟩
        · exact h.finish rfl rfl rfl rfl
    · next hempty =>
      exact h.setThread ⟨fun _ => hheld, fun _ _ => by simpa using hempty,
        fun hpark => (by cases hpark), fun hwait => (by cases hwait),
        fun hsend => (by cases hsend)⟩
  · exact h

lemma choose_yields (h : Holds state) (hthread : state.threads[i]? = some (.choosing mode))
    (coins : Priority → Bool) :
    ∃ priority item items, state.queues.queue priority = item :: items ∧
      state.choose i coins = { state.finish i .receiver (.received i priority item) with
        queues := state.queues.setQueue priority items } := by
  obtain ⟨priority, item, items, hqueue, hpop⟩ :=
    PriorityQueues.pop_yields coins ((h.fits i _ hthread).choosing mode rfl)
  refine ⟨priority, item, items, hqueue, ?_⟩
  rw [choose, hthread]
  dsimp only
  rw [hpop]

lemma Holds.choose (h : Holds state) (i : ℕ) (coins : Priority → Bool) :
    Holds (state.choose i coins) := by
  by_cases hchoosing : ∃ mode, state.threads[i]? = some (.choosing mode)
  · obtain ⟨mode, hthread⟩ := hchoosing
    obtain ⟨priority, item, items, hqueue, heq⟩ := choose_yields h hthread coins
    rw [heq]
    refine h.move i (threads_set (fits_idle _ i rfl rfl rfl)) rfl rfl
      (finish_lock .receiver (.received i priority item)) (.inr (holdsLock_of h hthread rfl))
      (fun p => ?_) (fun j hj => ?_)
    · have hfifo := h.fifo p
      have hpriority := PriorityQueues.ne_realtimeAudio hqueue
      rw [PriorityQueueState.finish]
      dsimp only
      rw [accepts_append, receives_append, PriorityQueues.queue_setQueue hpriority, hfifo]
      by_cases hp : p = priority
      · subst hp
        simp [accepts, receives, hqueue]
      · simp [accepts, receives, hp, Ne.symm hp]
    · rcases mem_append.mp hj with hj | hj
      · exact hj
      · cases mem_singleton.mp hj
  · rw [PriorityQueueState.choose]
    split
    · next mode hthread => exact absurd ⟨mode, hthread⟩ hchoosing
    · exact h

lemma Holds.dropSender (h : Holds state) (hlive : state.senderDrop = .live)
    (hnone : state.threads.all (fun thread => !thread.isSending) = true) :
    Holds { state with senderDrop := .locking, senderCount := state.senderCount - 1 } := by
  refine ⟨h.fifo, fun i thread hthread => ?_, ?_, h.notPanicked⟩
  · have hfits := h.fits i thread hthread
    refine ⟨hfits.holdsLock, hfits.choosing, fun _ => .inr rfl, fun _ hdone => (by cases hdone),
      fun hsending => ?_⟩
    have hidle := all_eq_true.mp hnone thread (mem_of_getElem? hthread)
    rw [hsending] at hidle
    cases hidle
  · rw [h.senderCount, if_pos hlive]
    rfl

lemma Holds.lockDropped (h : Holds state) (hlocking : state.senderDrop = .locking)
    (hfree : state.lockedBy = none) : Holds { state with senderDrop := .notifying } := by
  refine ⟨h.fifo, fun i thread hthread => ?_, ?_, h.notPanicked⟩
  · have hfits := h.fits i thread hthread
    refine ⟨hfits.holdsLock, hfits.choosing, fun hpark => ?_, fun _ hdone => (by cases hdone),
      fun hsending => ?_⟩
    · have hheld := hfits.holdsLock (by rw [hpark]; rfl)
      rw [hfree] at hheld
      cases hheld
    · have hlive := hfits.sending hsending
      rw [hlocking] at hlive
      cases hlive
  · rw [h.senderCount, hlocking]
    rfl

lemma Holds.notifyAll (h : Holds state) (hnotifying : state.senderDrop = .notifying) :
    Holds { state with threads := state.threads.map (·.woken), senderDrop := .done } := by
  refine ⟨h.fifo, fun i thread hthread => ?_, ?_, h.notPanicked⟩
  · rw [getElem?_map] at hthread
    obtain ⟨before, hbefore, rfl⟩ := map_eq_some_iff.mp hthread
    have hfits := (h.fits i before hbefore).woken
    refine ⟨hfits.holdsLock, hfits.choosing, fun hpark => ?_, fun hwait => ?_, fun hsending => ?_⟩
    · have hdrop := hfits.parking hpark
      rw [hnotifying] at hdrop
      rcases hdrop with hdrop | hdrop <;> cases hdrop
    · cases before <;> cases hwait
    · have hlive := hfits.sending hsending
      rw [hnotifying] at hlive
      cases hlive
  · rw [h.senderCount, hnotifying]
    rfl

theorem Holds.step (h : Holds state) (action : QueueAction T) : Holds (state.step action) := by
  cases action with
  | share =>
    simp only [PriorityQueueState.step]
    split
    · exact h.move state.threads.length (threads_append (fits_idle _ _ rfl rfl rfl)) rfl rfl
        (fun _ _ hlock => hlock) (.inl rfl) h.fifo (fun _ hj => hj)
    · exact h
  | send i priority item =>
    simp only [PriorityQueueState.step]
    split
    · next hlive =>
      split
      · split
        · exact h.finish rfl rfl rfl rfl
        · exact h.setThread ⟨fun hlock => (by cases hlock), fun _ hmode => (by cases hmode),
            fun hpark => (by cases hpark), fun hwait => (by cases hwait), fun _ => hlive⟩
      · exact h
    · exact h
  | lock i => exact h.lock i
  | push i woken => exact h.push i woken
  | clone i =>
    simp only [PriorityQueueState.step]
    split
    · exact h.move state.threads.length (threads_append (fits_idle _ _ rfl rfl rfl)) rfl rfl
        (fun _ _ hlock => hlock) (.inl rfl) h.fifo (fun _ hj => hj)
    · exact h
  | dropReceiver i =>
    simp only [PriorityQueueState.step]
    split
    · exact h.move i (threads_set (fits_idle _ i rfl rfl rfl)) rfl rfl (fun _ _ hlock => hlock)
        (.inl rfl) h.fifo (fun _ hj => hj)
    · exact h
  | pop i mode =>
    simp only [PriorityQueueState.step]
    split
    · exact h.setThread (fits_idle _ i rfl rfl rfl)
    · exact h
  | recv i => exact h.recv i
  | wait i =>
    simp only [PriorityQueueState.step]
    split
    · next hthread =>
      have hfits := h.fits i _ hthread
      have hheld := hfits.holdsLock rfl
      refine h.move i (threads_set ⟨fun hlock => (by cases hlock), fun _ hmode => (by cases hmode),
        fun hpark => (by cases hpark), fun _ => ?_, fun hsend => (by cases hsend)⟩) rfl rfl
        (fun j hji hj => ?_) (.inl rfl) h.fifo (fun _ hj => hj)
      · intro hdone
        have hdone : state.senderDrop = .done := hdone
        have hdrop := hfits.parking rfl
        rw [hdone] at hdrop
        rcases hdrop with hdrop | hdrop <;> cases hdrop
      · rw [hheld] at hj
        exact absurd (some.inj hj).symm hji
    · exact h
  | wake i =>
    simp only [PriorityQueueState.step]
    refine ⟨h.fifo, fun j thread hthread => ?_, h.senderCount, h.notPanicked⟩
    rw [getElem?_modify] at hthread
    obtain ⟨before, hbefore, rfl⟩ := map_eq_some_iff.mp hthread
    have hfits := h.fits j before hbefore
    split
    · exact ⟨hfits.woken.holdsLock, hfits.woken.choosing, hfits.woken.parking, hfits.woken.waiting,
        hfits.woken.sending⟩
    · exact ⟨hfits.holdsLock, hfits.choosing, hfits.parking, hfits.waiting, hfits.sending⟩
  | choose i coins => exact h.choose i coins
  | dropSender =>
    simp only [PriorityQueueState.step]
    split
    · next hdrop => exact h.dropSender hdrop.1 hdrop.2
    · exact h
  | lockDropped =>
    simp only [PriorityQueueState.step]
    split
    · next hdrop => exact h.lockDropped hdrop.1 hdrop.2
    · exact h
  | notifyAll =>
    simp only [PriorityQueueState.step]
    split
    · next hdrop => exact h.notifyAll hdrop
    · exact h

theorem holds_run (actions : List (QueueAction T)) : Holds (run actions) := by
  induction actions using reverseRecOn with
  | nil => exact holds_new
  | append_singleton actions action ih =>
    rw [run, foldl_append]
    exact ih.step action

lemma append_ne (event : QueueEvent T) : log ≠ log ++ [event] := by
  intro h
  have hlength := congrArg List.length h
  rw [length_append, length_singleton] at hlength
  omega

/-- What a thread sees that returns without an item: no receiver where its send is refused, and no
item where its pop finds none, nor the sender where that is an error. -/
def Sees (state : PriorityQueueState T) : QueueEvent T → Prop
  | .refused _ _ => state.receiverCount = 0
  | .nothing _ => state.queues.isEmpty = true
  | .disconnected _ => state.queues.isEmpty = true ∧ state.senderDrop ≠ .live
  | _ => True

lemma sees_finish {event' : QueueEvent T}
    (hlog : (state.finish i thread event).log = state.log ++ [event']) (hsees : Sees state event) :
    Sees state event' := by
  obtain rfl : event = event' := singleton_injective (append_cancel_left hlog)
  exact hsees

theorem step_sees (h : Holds state) (action : QueueAction T)
    (hlog : (state.step action).log = state.log ++ [event]) : Sees state event := by
  have hsame : state.log = state.log ++ [event] → Sees state event :=
    fun heq => absurd heq (append_ne state.log event)
  cases action with
  | send i priority item =>
    simp only [PriorityQueueState.step] at hlog
    split at hlog
    · split at hlog
      · split at hlog
        · next hcount => exact sees_finish hlog hcount
        · exact hsame hlog
      · exact hsame hlog
    · exact hsame hlog
  | push i woken =>
    simp only [PriorityQueueState.step, push] at hlog
    split at hlog
    · next priority item _ =>
      split at hlog
      · exact @sees_finish T .sender state i (.accepted priority item) event hlog trivial
      · exact sees_finish hlog trivial
    · exact hsame hlog
  | recv i =>
    simp only [PriorityQueueState.step, recv] at hlog
    split at hlog
    · split at hlog
      · next hempty =>
        split at hlog
        · next hsender =>
          refine sees_finish hlog ⟨hempty, fun hlive => ?_⟩
          rw [h.senderCount, if_pos hlive] at hsender
          cases hsender
        · split at hlog
          · exact hsame hlog
          · exact sees_finish hlog hempty
      · exact hsame hlog
    · exact hsame hlog
  | choose i coins =>
    by_cases hchoosing : ∃ mode, state.threads[i]? = some (.choosing mode)
    · obtain ⟨mode, hthread⟩ := hchoosing
      obtain ⟨priority, item, items, -, heq⟩ := choose_yields h hthread coins
      simp only [PriorityQueueState.step, heq] at hlog
      exact sees_finish hlog trivial
    · simp only [PriorityQueueState.step, choose] at hlog
      split at hlog
      · next mode hthread => exact absurd ⟨mode, hthread⟩ hchoosing
      · exact hsame hlog
  | lock i =>
    simp only [PriorityQueueState.step, lock] at hlog
    split at hlog
    · split at hlog <;> exact hsame hlog
    · exact hsame hlog
  | wake i => exact hsame hlog
  | share =>
    simp only [PriorityQueueState.step] at hlog
    split at hlog <;> exact hsame hlog
  | clone i =>
    simp only [PriorityQueueState.step] at hlog
    split at hlog <;> exact hsame hlog
  | dropReceiver i =>
    simp only [PriorityQueueState.step] at hlog
    split at hlog <;> exact hsame hlog
  | pop i mode =>
    simp only [PriorityQueueState.step] at hlog
    split at hlog <;> exact hsame hlog
  | wait i =>
    simp only [PriorityQueueState.step] at hlog
    split at hlog <;> exact hsame hlog
  | dropSender =>
    simp only [PriorityQueueState.step] at hlog
    split at hlog <;> exact hsame hlog
  | lockDropped =>
    simp only [PriorityQueueState.step] at hlog
    split at hlog <;> exact hsame hlog
  | notifyAll =>
    simp only [PriorityQueueState.step] at hlog
    split at hlog <;> exact hsame hlog

lemma recv_goesOn (hthread : state.threads[i]? = some (.receiving mode))
    (hitems : state.queues.isEmpty = false) :
    state.step (.recv i) = state.setThread i (.choosing mode) := by
  rw [step, recv, hthread]
  dsimp only
  rw [hitems]
  rfl

lemma push_accepts {item : T} (hthread : state.threads[i]? = some (.pushing priority item))
    (hpriority : priority ≠ .realtimeAudio) (woken : ℕ) :
    (state.step (.push i woken)).log = state.log ++ [.accepted priority item] ∧
      (state.step (.push i woken)).queues =
        state.queues.setQueue priority (state.queues.queue priority ++ [item]) := by
  have hpush : state.queues.push priority item =
      some (state.queues.setQueue priority (state.queues.queue priority ++ [item])) :=
    if_neg hpriority
  rw [step, push, hthread]
  dsimp only
  rw [hpush]
  exact ⟨rfl, rfl⟩

/-- A send that goes through is accepted: its item is put behind the others of its priority. In every
run the items of a priority that were accepted are the ones that were received, in that order, and
after them the ones that are still queued, whether the sender is there or not. No pop
panics: one that finds items goes on to choose, and then receives the first item of a priority
however the coins land. A pop that returns nothing found the queue empty, one that returns an error
found it empty and the sender gone, and no receiver is left waiting once the sender is dropped. -/
theorem run_losesNothing (actions : List (QueueAction T)) :
    (∀ i woken priority item, (run actions).threads[i]? = some (.pushing priority item) →
      priority ≠ .realtimeAudio →
      ((run actions).step (.push i woken)).log = (run actions).log ++ [.accepted priority item] ∧
      ((run actions).step (.push i woken)).queues = (run actions).queues.setQueue priority
        ((run actions).queues.queue priority ++ [item])) ∧
    (∀ priority, accepts priority (run actions).log =
      receives priority (run actions).log ++ (run actions).queues.queue priority) ∧
    (∀ i, .panicked i ∉ (run actions).log) ∧
    (∀ i mode, (run actions).threads[i]? = some (.receiving mode) →
      (run actions).queues.isEmpty = false →
      (run actions).step (.recv i) = (run actions).setThread i (.choosing mode)) ∧
    (∀ i mode coins, (run actions).threads[i]? = some (.choosing mode) →
      ∃ priority item items, (run actions).queues.queue priority = item :: items ∧
        (run actions).step (.choose i coins) =
          { (run actions).finish i .receiver (.received i priority item) with
            queues := (run actions).queues.setQueue priority items }) ∧
    (∀ action event, ((run actions).step action).log = (run actions).log ++ [event] →
      Sees (run actions) event) ∧
    ((run actions).senderDrop = .done →
      ∀ i : ℕ, (run actions).threads[i]? ≠ some QueueThread.waiting) := by
  have h := holds_run actions
  refine ⟨fun i woken priority item hthread hpriority => push_accepts priority hthread hpriority woken,
    h.fifo, h.notPanicked, fun i mode hthread hitems => recv_goesOn hthread hitems,
    fun i mode coins hthread => choose_yields h hthread coins,
    fun action event hlog => step_sees h action hlog, fun hdone i hthread => ?_⟩
  exact (h.fits i _ hthread).waiting rfl hdone

end PriorityQueueState

end GpuiFast
