import GpuiFast.Subscribers
import Mathlib.Data.List.Induction

/-! The callbacks of one emitter, with no emitter's key to keep. A retain takes all of them out, goes
through them in the order they were registered in, and puts those left back beside what was
subscribed meanwhile. -/

namespace GpuiFast

open List

/-- A retain that has begun: the subscribers kept, the one whose callback runs, and those whose
turn is to come. -/
structure SingleRetaining where
  kept : List ℕ
  calling : Option ℕ
  waiting : List ℕ

structure SingleSubscriberSet where
  subscribers : List ℕ
  nextSubscriberId : ℕ
  states : ℕ → SubscriberState
  subscriptions : List ℕ
  retaining : List SingleRetaining

namespace SingleSubscriberSet

def new : SingleSubscriberSet := ⟨[], 0, fun _ => .pending, [], []⟩

def insertPending (set : SingleSubscriberSet) : SingleSubscriberSet :=
  { set with
    subscribers := SubscriberSet.insertId set.nextSubscriberId set.subscribers
    nextSubscriberId := set.nextSubscriberId + 1
    states := Function.update set.states set.nextSubscriberId .pending
    subscriptions := set.nextSubscriberId :: set.subscriptions }

def activate (set : SingleSubscriberSet) (id : ℕ) : SingleSubscriberSet :=
  { set with
    states :=
      if set.states id = .pending then Function.update set.states id .active else set.states }

def drop (set : SingleSubscriberSet) (id : ℕ) : SingleSubscriberSet :=
  if id ∈ set.subscriptions then
    { set with
      subscribers := set.subscribers.filter (· ≠ id)
      states := Function.update set.states id .dropped
      subscriptions := set.subscriptions.filter (· ≠ id) }
  else set

def remove (set : SingleSubscriberSet) : List ℕ × SingleSubscriberSet :=
  (set.subscribers.filter (fun id => set.states id = .active), { set with subscribers := [] })

def retain (set : SingleSubscriberSet) : SingleSubscriberSet :=
  { set with subscribers := [], retaining := ⟨[], none, set.subscribers⟩ :: set.retaining }

def proceed (set : SingleSubscriberSet) : SingleSubscriberSet :=
  match set.retaining with
  | ⟨kept, none, id :: waiting⟩ :: outer =>
    match set.states id with
    | .pending => { set with retaining := ⟨kept ++ [id], none, waiting⟩ :: outer }
    | .dropped => { set with retaining := ⟨kept, none, waiting⟩ :: outer }
    | .active => { set with retaining := ⟨kept, some id, waiting⟩ :: outer }
  | ⟨kept, none, []⟩ :: outer =>
    { set with
      subscribers := kept.foldr SubscriberSet.insertId set.subscribers
      retaining := outer }
  | _ => set

def callbackReturns (set : SingleSubscriberSet) (keep : Bool) : SingleSubscriberSet :=
  match set.retaining with
  | ⟨kept, some id, waiting⟩ :: outer =>
    { set with
      retaining :=
        ⟨if keep && set.states id ≠ .dropped then kept ++ [id] else kept, none, waiting⟩ :: outer }
  | _ => set

inductive Event where
  | insert
  | insertPending
  | activate (id : ℕ)
  | drop (id : ℕ)
  | remove
  | retain
  | proceed
  | callbackReturns (keep : Bool)

def outside (set : SingleSubscriberSet) : Bool :=
  match set.retaining with
  | [] => true
  | retaining :: _ => retaining.calling.isSome

/-- One step; what cannot happen now changes nothing. -/
def step (set : SingleSubscriberSet) : Event → SingleSubscriberSet
  | .insert => if set.outside then set.insertPending.activate set.nextSubscriberId else set
  | .insertPending => if set.outside then set.insertPending else set
  | .activate id => if set.outside ∧ id < set.nextSubscriberId then set.activate id else set
  | .drop id => if set.outside then set.drop id else set
  | .remove => if set.outside then set.remove.2 else set
  | .retain => if set.outside then set.retain else set
  | .proceed => set.proceed
  | .callbackReturns keep => set.callbackReturns keep

def run (events : List Event) : SingleSubscriberSet := events.foldl step new

def ReleasesDropped (set : SingleSubscriberSet) : Prop :=
  set.retaining = [] → ∀ x ∈ set.subscribers, set.states x ≠ .dropped

def NotPassed (set : SingleSubscriberSet) (id : ℕ) : Prop := ∀ r ∈ set.retaining, id ∉ r.kept

instance (set : SingleSubscriberSet) (id : ℕ) : Decidable (set.NotPassed id) :=
  inferInstanceAs (Decidable (∀ r ∈ set.retaining, id ∉ r.kept))

structure KeptUndropped (set : SingleSubscriberSet) : Prop where
  subscribers : ∀ x ∈ set.subscribers, set.states x ≠ .dropped
  kept : ∀ r ∈ set.retaining, ∀ x ∈ r.kept, set.states x ≠ .dropped

variable {x : ℕ} {ids : List ℕ}

lemma mem_insertId {id : ℕ} (h : x ∈ SubscriberSet.insertId id ids) : x = id ∨ x ∈ ids := by
  rw [SubscriberSet.insertId] at h
  split at h
  · exact .inr h
  · exact (mem_orderedInsert (· ≤ ·)).mp h

lemma mem_foldr_insertId {kept : List ℕ} (h : x ∈ kept.foldr SubscriberSet.insertId ids) :
    x ∈ kept ∨ x ∈ ids := by
  induction kept with
  | nil => exact .inr h
  | cons id kept ih =>
    rcases mem_insertId h with rfl | h
    · exact .inl (mem_cons_self ..)
    · exact (ih h).imp_left (mem_cons_of_mem _)

variable {set : SingleSubscriberSet}

section

variable (h : set.KeptUndropped)
include h

lemma KeptUndropped.insertPending : set.insertPending.KeptUndropped := by
  have hstates : ∀ x, set.states x ≠ .dropped → set.insertPending.states x ≠ .dropped := by
    intro x hx
    rw [SingleSubscriberSet.insertPending]
    dsimp only
    rw [Function.update_apply]
    split
    · exact fun hp => by cases hp
    · exact hx
  refine ⟨fun x hx => ?_, fun r hr x hx => hstates x (h.kept r hr x hx)⟩
  rcases mem_insertId hx with rfl | hx
  · rw [SingleSubscriberSet.insertPending]
    dsimp only
    rw [Function.update_self]
    exact fun hp => by cases hp
  · exact hstates x (h.subscribers x hx)

lemma KeptUndropped.activate (id : ℕ) : (set.activate id).KeptUndropped := by
  have hstates : ∀ x, set.states x ≠ .dropped → (set.activate id).states x ≠ .dropped := by
    intro x hx
    rw [SingleSubscriberSet.activate]
    dsimp only
    split
    · rw [Function.update_apply]
      split
      · exact fun hp => by cases hp
      · exact hx
    · exact hx
  exact ⟨fun x hx => hstates x (h.subscribers x hx),
    fun r hr x hx => hstates x (h.kept r hr x hx)⟩

lemma KeptUndropped.drop {id : ℕ} (hid : set.NotPassed id) : (set.drop id).KeptUndropped := by
  rw [SingleSubscriberSet.drop]
  split
  · refine ⟨fun x hx => ?_, fun r hr x hx => ?_⟩
    · obtain ⟨hx, hne⟩ := mem_filter.mp hx
      dsimp only
      rw [Function.update_of_ne (of_decide_eq_true hne)]
      exact h.subscribers x hx
    · have hne : x ≠ id := fun hxi => hid r hr (hxi ▸ hx)
      dsimp only
      rw [Function.update_of_ne hne]
      exact h.kept r hr x hx
  · exact h

lemma KeptUndropped.retain : set.retain.KeptUndropped := by
  refine ⟨fun x hx => (by cases hx), fun r hr x hx => ?_⟩
  rcases mem_cons.mp hr with rfl | hr
  · cases hx
  · exact h.kept r hr x hx

lemma KeptUndropped.proceed : set.proceed.KeptUndropped := by
  rw [SingleSubscriberSet.proceed]
  split
  · next kept id waiting outer hr =>
    have hkept : ∀ x ∈ kept, set.states x ≠ .dropped :=
      h.kept ⟨kept, none, id :: waiting⟩ (by rw [hr]; exact mem_cons_self ..)
    have houter : ∀ r ∈ outer, ∀ x ∈ r.kept, set.states x ≠ .dropped :=
      fun r hmem => h.kept r (by rw [hr]; exact mem_cons_of_mem _ hmem)
    split
    · next hs =>
      refine ⟨h.subscribers, forall_mem_cons.mpr ⟨fun x hx => ?_, houter⟩⟩
      rcases mem_append.mp hx with hx | hx
      · exact hkept x hx
      · rw [mem_singleton.mp hx]
        exact fun hd => by rw [hs] at hd; cases hd
    · exact ⟨h.subscribers, forall_mem_cons.mpr ⟨hkept, houter⟩⟩
    · exact ⟨h.subscribers, forall_mem_cons.mpr ⟨hkept, houter⟩⟩
  · next kept outer hr =>
    have hkept : ∀ x ∈ kept, set.states x ≠ .dropped :=
      h.kept ⟨kept, none, []⟩ (by rw [hr]; exact mem_cons_self ..)
    refine ⟨fun x hx => ?_, fun r hmem => h.kept r (by rw [hr]; exact mem_cons_of_mem _ hmem)⟩
    rcases mem_foldr_insertId hx with hx | hx
    · exact hkept x hx
    · exact h.subscribers x hx
  · exact h

lemma KeptUndropped.callbackReturns (keep : Bool) : (set.callbackReturns keep).KeptUndropped := by
  rw [SingleSubscriberSet.callbackReturns]
  split
  · next kept id waiting outer hr =>
    have hkept : ∀ x ∈ kept, set.states x ≠ .dropped :=
      h.kept ⟨kept, some id, waiting⟩ (by rw [hr]; exact mem_cons_self ..)
    refine ⟨h.subscribers, forall_mem_cons.mpr ⟨fun x hx => ?_,
      fun r hmem => h.kept r (by rw [hr]; exact mem_cons_of_mem _ hmem)⟩⟩
    dsimp only at hx
    split at hx
    · next hcond =>
      rw [Bool.and_eq_true, decide_eq_true_eq] at hcond
      rcases mem_append.mp hx with hx | hx
      · exact hkept x hx
      · rw [mem_singleton.mp hx]
        exact hcond.2
    · exact hkept x hx
  · exact h

lemma KeptUndropped.step (event : Event)
    (hevent : ∀ id, event = .drop id → set.outside → set.NotPassed id) :
    (set.step event).KeptUndropped := by
  cases event with
  | insert => exact iteInduction (fun _ => h.insertPending.activate _) fun _ => h
  | insertPending => exact iteInduction (fun _ => h.insertPending) fun _ => h
  | activate id => exact iteInduction (fun _ => h.activate id) fun _ => h
  | drop id => exact iteInduction (fun ho => h.drop (hevent id rfl ho)) fun _ => h
  | remove => exact iteInduction (fun _ => ⟨fun x hx => (by cases hx), h.kept⟩) fun _ => h
  | retain => exact iteInduction (fun _ => h.retain) fun _ => h
  | proceed => exact h.proceed
  | callbackReturns keep => exact h.callbackReturns keep

end

def DropsNotPassed (events : List Event) : Prop :=
  ∀ before id after, events = before ++ .drop id :: after →
    (run before).outside → (run before).NotPassed id

lemma keptUndropped_run (events : List Event) (h : DropsNotPassed events) :
    (run events).KeptUndropped := by
  induction events using reverseRecOn with
  | nil => exact ⟨fun x hx => (by cases hx), fun r hr => (by cases hr)⟩
  | append_singleton events event ih =>
    have hbefore : DropsNotPassed events := by
      intro before id after heq
      exact h before id (after ++ [event]) (by rw [heq]; simp)
    have hlast : ∀ id, event = .drop id → (run events).outside → (run events).NotPassed id := by
      intro id hid
      exact h events id [] (by rw [hid])
    rw [run, foldl_append]
    exact (ih hbefore).step event hlast

end SingleSubscriberSet

end GpuiFast
