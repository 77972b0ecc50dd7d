import GpuiFast.AppEffects

namespace GpuiFast

open List

namespace App

open SubscriberSet (existing)

/-- The emitter whose callbacks a phase goes through. -/
def Phase.emitter : Phase → Option Emitter
  | .applying (.notify n) => some (.observed n)
  | .applying (.emit e _ _) => some (.listened e)
  | _ => none

/-- The subscribers that wait in the queue to be made active. -/
def activations (effects : List Effect) : List ℕ :=
  effects.filterMap (fun
    | .activate id => some id
    | _ => none)

variable {effects : List Effect} {id : ℕ} {app : App} {k : Emitter} {set : SubscriberSet Emitter}
  {emitter : Option Emitter} {app' : App}

lemma mem_activations : id ∈ activations effects ↔ .activate id ∈ effects := by
  simp only [activations, mem_filterMap]
  constructor
  · rintro ⟨effect, hmem, heq⟩
    cases effect <;> simp_all
  · exact fun h => ⟨_, h, rfl⟩

/-- Between steps of a run: at most one emitter is retained, that of the effect applied; a
subscriber is active or has one activation queued; every pending notification is in the queue. -/
structure Holds (app : App) : Prop where
  set : app.subscribers.Holds
  innermost : app.subscribers.retaining.length ≤ 1
  emitter : ∀ r ∈ app.subscribers.retaining, Phase.emitter app.phase = some r.emitter
  activations_nodup : (activations app.pendingEffects).Nodup
  activation : ∀ x, .activate x ∈ app.pendingEffects →
    x < app.subscribers.nextSubscriberId ∧ app.subscribers.states x ≠ .active
  active : ∀ x k, (x, k) ∈ existing app.subscribers.log → .activate x ∉ app.pendingEffects →
    app.subscribers.states x = .active
  pending : ∀ n ∈ app.pendingNotifications, .notify n ∈ app.pendingEffects
  registered : ∀ x k, .registered x k ∈ app.log ↔ .subscribed x k ∈ app.subscribers.log
  called_lt : ∀ x event, .called x event ∈ app.log → x < app.subscribers.nextSubscriberId

lemma Holds.registered_lt (h : app.Holds) {x : ℕ} (hx : .registered x k ∈ app.log) :
    x < app.subscribers.nextSubscriberId :=
  h.set.subscribed_lt x k ((h.registered x k).mp hx)

lemma Holds.retaining_nil (h : app.Holds) (hp : Phase.emitter app.phase = none) :
    app.subscribers.retaining = [] := by
  rw [eq_nil_iff_forall_not_mem]
  intro r hr
  have := h.emitter r hr
  rw [hp] at this
  cases this

/-- What any operation of the effect cycle but an insertion or an activation does to the set. -/
structure SetStep (set set' : SubscriberSet Emitter) : Prop where
  holds : set'.Holds
  next : set'.nextSubscriberId = set.nextSubscriberId
  subscribed : ∀ x k, .subscribed x k ∈ set'.log ↔ .subscribed x k ∈ set.log
  states : ∀ x, set'.states x = set.states x ∨ set'.states x = .dropped
  existing : ∀ x k, (x, k) ∈ existing set'.log →
    (x, k) ∈ existing set.log ∧ set'.states x = set.states x

variable {set' : SubscriberSet Emitter}

lemma SetStep.trans {set'' : SubscriberSet Emitter} (h : SetStep set set') (h' : SetStep set' set'') :
    SetStep set set'' := by
  refine ⟨h'.holds, h'.next.trans h.next, fun x k => (h'.subscribed x k).trans (h.subscribed x k),
    fun x => ?_, fun x k hx => ?_⟩
  · rcases h'.states x with hs | hs
    · rw [hs]
      exact h.states x
    · exact .inr hs
  · obtain ⟨hx, hs⟩ := h'.existing x k hx
    obtain ⟨hx, hs'⟩ := h.existing x k hx
    exact ⟨hx, hs.trans hs'⟩

lemma setStep_drop (h : set.Holds) (id : ℕ) : SetStep set (set.drop id) := by
  cases he : set.subscriptions.get? id with
  | none =>
    have heq : set.drop id = set := by simp only [SubscriberSet.drop, he]
    rw [heq]
    exact ⟨h, rfl, fun _ _ => Iff.rfl, fun _ => .inl rfl, fun _ _ hx => ⟨hx, rfl⟩⟩
  | some e =>
    have hlog : (set.drop id).log = set.log ++ [.dropped id] := by simp only [SubscriberSet.drop, he]
    have hstates : (set.drop id).states = Function.update set.states id .dropped := by
      simp only [SubscriberSet.drop, he]
    have hnext : (set.drop id).nextSubscriberId = set.nextSubscriberId := by
      simp only [SubscriberSet.drop, he]
    refine ⟨h.drop id, hnext, by simp [hlog], fun x => ?_, fun x k hx => ?_⟩
    · rw [hstates, Function.update_apply]
      split
      · exact .inr rfl
      · exact .inl rfl
    · rw [hlog, SubscriberSet.existing_append] at hx
      obtain ⟨hx, hne⟩ := mem_filter.mp hx
      have hne : x ≠ id := by simpa using hne
      rw [hstates, Function.update_of_ne hne]
      exact ⟨hx, rfl⟩

lemma setStep_of_log (h : set'.Holds) (hnext : set'.nextSubscriberId = set.nextSubscriberId)
    (hstates : set'.states = set.states) (os : List (Observation Emitter))
    (hlog : set'.log = set.log ++ os) (hos : ∀ x k, .subscribed x k ∉ os) : SetStep set set' := by
  refine ⟨h, hnext, fun x k => ?_, fun x => .inl (by rw [hstates]), fun x k hx => ⟨?_, by rw [hstates]⟩⟩
  · rw [hlog, mem_append]
    exact or_iff_left (hos x k)
  · rw [hlog] at hx
    clear hlog
    induction os using reverseRecOn with
    | nil => simpa using hx
    | append_singleton os o ih =>
      rw [← append_assoc, SubscriberSet.existing_append] at hx
      refine ih (fun y k hm => hos y k (mem_append_left _ hm)) ?_
      cases o with
      | subscribed y k => exact absurd (mem_append_right _ (by simp)) (hos y k)
      | dropped y => exact (mem_filter.mp hx).1
      | rejected y => exact (mem_filter.mp hx).1
      | removed e l => exact (mem_filter.mp hx).1
      | activated y => exact hx
      | retain e => exact hx
      | turn e y c => exact hx
      | retained e => exact hx

lemma setStep_remove (h : set.Holds) (hk : ¬ set.retains k) : SetStep set (set.remove k) :=
  setStep_of_log (h.remove hk) rfl rfl _ rfl (by simp)

lemma setStep_retain (h : set.Holds) (hk : ¬ set.retains k) : SetStep set (set.retain k) := by
  have hholds := h.retain hk
  cases hg : set.subscribers.get? k with
  | none =>
    simp only [SubscriberSet.retain, hg] at hholds ⊢
    exact setStep_of_log hholds rfl rfl [.retain k, .retained k] rfl (by simp)
  | some l =>
    simp only [SubscriberSet.retain, hg] at hholds ⊢
    exact setStep_of_log hholds rfl rfl [.retain k] rfl (by simp)

lemma setStep_proceed (h : set.Holds) : SetStep set set.proceed := by
  have hholds := h.proceed
  rcases set.proceed_cases with heq | ⟨e, kept, id, waiting, outer, kept', calling, called, hr, heq,
    -⟩ | ⟨e, kept, outer, hr, heq⟩
  · rw [heq] at hholds ⊢
    exact setStep_of_log hholds rfl rfl [] (by simp) (by simp)
  · rw [heq] at hholds ⊢
    exact setStep_of_log hholds rfl rfl [.turn e id called] rfl (by simp)
  · rw [heq] at hholds ⊢
    exact setStep_of_log hholds rfl rfl [.retained e] rfl (by simp)

lemma setStep_callbackReturns (h : set.Holds) (keep : Bool) :
    SetStep set (set.callbackReturns keep) := by
  have hholds := h.callbackReturns keep
  rcases set.callbackReturns_cases keep with heq | ⟨e, kept, id, waiting, outer, kept', hr, heq, -⟩
  · rw [heq] at hholds ⊢
    exact setStep_of_log hholds rfl rfl [] (by simp) (by simp)
  · rw [heq] at hholds ⊢
    refine setStep_of_log hholds rfl rfl (if keep then [] else [.rejected id]) ?_ ?_
    · cases keep <;> simp
    · cases keep <;> simp

/-- Nothing is retained, or the emitter of the effect being applied alone. -/
def RetainsFor (set : SubscriberSet Emitter) (emitter : Option Emitter) : Prop :=
  set.retaining.length ≤ 1 ∧ ∀ r ∈ set.retaining, emitter = some r.emitter

lemma retainsFor_nil (h : set.retaining = []) (emitter : Option Emitter) :
    RetainsFor set emitter := by
  simp [RetainsFor, h]

section

variable (h : RetainsFor set emitter)
include h

lemma RetainsFor.proceed : RetainsFor set.proceed emitter := by
  rcases set.proceed_cases with heq | ⟨e, kept, id, waiting, outer, kept', calling, called, hr, heq,
    -⟩ | ⟨e, kept, outer, hr, heq⟩
  · rw [heq]
    exact h
  · rw [RetainsFor, hr] at h
    rw [RetainsFor, heq]
    refine ⟨h.1, fun r hr => ?_⟩
    rcases mem_cons.mp hr with rfl | hr
    · exact h.2 ⟨e, kept, none, id :: waiting⟩ (mem_cons_self ..)
    · exact h.2 r (mem_cons_of_mem _ hr)
  · rw [RetainsFor, hr] at h
    rw [RetainsFor, heq]
    refine ⟨?_, fun r hr => h.2 r (mem_cons_of_mem _ hr)⟩
    have := h.1
    rw [length_cons] at this
    exact (Nat.le_succ _).trans this

lemma RetainsFor.callbackReturns (keep : Bool) : RetainsFor (set.callbackReturns keep) emitter := by
  rcases set.callbackReturns_cases keep with heq | ⟨e, kept, id, waiting, outer, kept', hr, heq, -⟩
  · rw [heq]
    exact h
  · rw [RetainsFor, hr] at h
    rw [RetainsFor, heq]
    refine ⟨h.1, fun r hr => ?_⟩
    rcases mem_cons.mp hr with rfl | hr
    · exact h.2 ⟨e, kept, some id, waiting⟩ (mem_cons_self ..)
    · exact h.2 r (mem_cons_of_mem _ hr)

lemma RetainsFor.drop (id : ℕ) : RetainsFor (set.drop id) emitter := by
  have hr : (set.drop id).retaining = set.retaining := by
    cases he : set.subscriptions.get? id <;> simp only [SubscriberSet.drop, he]
  rw [RetainsFor, hr]
  exact h

end

lemma retainsFor_retain (h : set.retaining = []) (k : Emitter) :
    RetainsFor (set.retain k) (some k) := by
  cases hg : set.subscribers.get? k <;> simp [RetainsFor, SubscriberSet.retain, hg, h]

section

variable (h : app.Holds)
include h

/-- The set took a step and the queue did not change. -/
lemma Holds.of_set (hstep : SetStep app.subscribers app'.subscribers)
    (hqueue : app'.pendingEffects = app.pendingEffects)
    (hpending : app'.pendingNotifications = app.pendingNotifications) (os : List AppObservation)
    (hlog : app'.log = app.log ++ os) (hos : ∀ x k, .registered x k ∉ os)
    (hcalled : ∀ x event, .called x event ∈ os → x < app.subscribers.nextSubscriberId)
    (hretains : RetainsFor app'.subscribers (Phase.emitter app'.phase)) : app'.Holds := by
  refine ⟨hstep.holds, hretains.1, hretains.2, by rw [hqueue]; exact h.activations_nodup,
    fun x hx => ?_, fun x k hx ha => ?_, fun n hn => ?_, fun x k => ?_, fun x event hx => ?_⟩
  · rw [hqueue] at hx
    rw [hstep.next]
    refine ⟨(h.activation x hx).1, ?_⟩
    rcases hstep.states x with hs | hs
    · rw [hs]
      exact (h.activation x hx).2
    · simp [hs]
  · obtain ⟨hx, hs⟩ := hstep.existing x k hx
    rw [hqueue] at ha
    rw [hs]
    exact h.active x k hx ha
  · rw [hpending] at hn
    rw [hqueue]
    exact h.pending n hn
  · rw [hlog, hstep.subscribed, mem_append, ← h.registered]
    exact or_iff_left (hos x k)
  · rw [hlog, mem_append] at hx
    rw [hstep.next]
    rcases hx with hx | hx
    · exact h.called_lt x event hx
    · exact hcalled x event hx

/-- Effects other than activations went to the end of the queue. -/
lemma Holds.push (hsubscribers : app'.subscribers = app.subscribers) (effects : List Effect)
    (hqueue : app'.pendingEffects = app.pendingEffects ++ effects)
    (hactivate : ∀ x, .activate x ∉ effects)
    (hpending : ∀ n ∈ app'.pendingNotifications, n ∈ app.pendingNotifications ∨ .notify n ∈ effects)
    (os : List AppObservation) (hlog : app'.log = app.log ++ os) (hos : ∀ x k, .registered x k ∉ os)
    (hos' : ∀ x event, .called x event ∉ os)
    (hemitter : ∀ r ∈ app.subscribers.retaining, Phase.emitter app'.phase = some r.emitter) :
    app'.Holds := by
  have hact : ∀ x, .activate x ∈ app'.pendingEffects ↔ .activate x ∈ app.pendingEffects := by
    intro x
    rw [hqueue, mem_append]
    exact or_iff_left (hactivate x)
  have hactivations : activations app'.pendingEffects = activations app.pendingEffects := by
    have hnil : activations effects = [] := by
      rw [eq_nil_iff_forall_not_mem]
      exact fun x hx => hactivate x (mem_activations.mp hx)
    rw [hqueue, activations, filterMap_append, ← activations, ← activations, hnil, append_nil]
  refine ⟨by rw [hsubscribers]; exact h.set, by rw [hsubscribers]; exact h.innermost,
    by rw [hsubscribers]; exact hemitter, by rw [hactivations]; exact h.activations_nodup,
    fun x hx => ?_, fun x k hx ha => ?_, fun n hn => ?_, fun x k => ?_, fun x event hx => ?_⟩
  · rw [hsubscribers]
    exact h.activation x ((hact x).mp hx)
  · rw [hsubscribers] at hx ⊢
    exact h.active x k hx (fun h' => ha ((hact x).mpr h'))
  · rw [hqueue, mem_append]
    exact (hpending n hn).imp (h.pending n) id
  · rw [hlog, hsubscribers, mem_append, ← h.registered]
    exact or_iff_left (hos x k)
  · rw [hlog, mem_append] at hx
    rw [hsubscribers]
    exact h.called_lt x event (hx.resolve_right (hos' x event))

lemma Holds.retainsFor :
    RetainsFor app.subscribers (Phase.emitter app.phase) := ⟨h.innermost, h.emitter⟩

lemma Holds.not_retains (hp : Phase.emitter app.phase = none) (k : Emitter) :
    ¬ app.subscribers.retains k := by
  rw [SubscriberSet.retains, h.retaining_nil hp]
  simp

lemma Holds.register (k : Emitter) (eventType : ℕ) : (app.register k eventType).Holds := by
  have hfresh : .activate app.subscribers.nextSubscriberId ∉ app.pendingEffects :=
    fun hx => lt_irrefl _ (h.activation _ hx).1
  have hqueue : (app.register k eventType).pendingEffects =
      app.pendingEffects ++ [.activate app.subscribers.nextSubscriberId] := rfl
  have hset : (app.register k eventType).subscribers = app.subscribers.insertPending k := rfl
  have hlog : (app.register k eventType).log =
      app.log ++ [.registered app.subscribers.nextSubscriberId k] := rfl
  have hsetlog : (app.subscribers.insertPending k).log =
      app.subscribers.log ++ [.subscribed app.subscribers.nextSubscriberId k] := rfl
  have hstates : (app.subscribers.insertPending k).states =
      Function.update app.subscribers.states app.subscribers.nextSubscriberId .pending := rfl
  refine ⟨h.set.insertPending k, h.innermost, h.emitter, ?_, fun x hx => ?_, fun x e hx ha => ?_,
    fun n hn => ?_, fun x e => ?_, fun x event hx => ?_⟩
  · rw [hqueue, activations, filterMap_append]
    refine nodup_append.mpr ⟨h.activations_nodup, by simp, ?_⟩
    intro x hx y hy
    have hy : y = app.subscribers.nextSubscriberId := by simpa using hy
    rintro rfl
    exact hfresh (hy ▸ mem_activations.mp hx)
  · rw [hqueue, mem_append, mem_singleton, Effect.activate.injEq] at hx
    rw [hset, hstates, Function.update_apply]
    refine ⟨?_, ?_⟩
    · rcases hx with hx | hx
      · exact (h.activation x hx).1.trans (Nat.lt_succ_self _)
      · rw [hx]
        exact Nat.lt_succ_self _
    · split
      · simp
      · next hne => exact (h.activation x (hx.resolve_right hne)).2
  · rw [hset, hsetlog, SubscriberSet.existing_append] at hx
    rw [hqueue, mem_append, not_or, mem_singleton, Effect.activate.injEq] at ha
    rw [hset, hstates, Function.update_of_ne ha.2]
    refine h.active x e ?_ ha.1
    rcases mem_append.mp hx with hx | hx
    · exact hx
    · rw [mem_singleton, Prod.mk.injEq] at hx
      exact absurd hx.1 ha.2
  · rw [hqueue, mem_append]
    exact .inl (h.pending n hn)
  · rw [hset, hlog, hsetlog, mem_append, mem_append, h.registered]
    simp
  · rw [hlog, mem_append] at hx
    rw [hset]
    rcases hx with hx | hx
    · exact (h.called_lt x event hx).trans (Nat.lt_succ_self _)
    · simp at hx

lemma Holds.notify (n : Notified) : (app.notify n).Holds := by
  simp only [App.notify, pushEffect]
  split
  · exact h.push rfl [] (by simp) (by simp) (fun _ hn => .inl hn) [.notified n] rfl (by simp)
      (by simp) h.emitter
  · refine h.push rfl [.notify n] rfl (by simp) (fun m hm => ?_) [.notified n] rfl (by simp)
      (by simp) h.emitter
    rcases mem_append.mp hm with hm | hm
    · exact .inl hm
    · rw [mem_singleton.mp hm]
      exact .inr (by simp)

lemma Holds.emit (e : EntityId) (eventType event : ℕ) : (app.emit e eventType event).Holds :=
  h.push rfl [.emit e eventType event] rfl (by simp) (fun _ hn => .inl hn)
    [.emitted e eventType event] rfl (by simp) (by simp) h.emitter

lemma Holds.code (event : Event) : (app.code event).Holds := by
  cases event with
  | observe n => exact h.register _ _
  | subscribe e eventType => exact h.register _ _
  | notify n => exact h.notify n
  | emit e eventType event => exact h.emit e eventType event
  | defer =>
    exact h.push rfl [.defer] rfl (by simp) (fun _ hn => .inl hn) [] (by simp [App.code, pushEffect])
      (by simp) (by simp) h.emitter
  | drop id =>
    exact h.of_set (setStep_drop h.set id) rfl rfl [] (by simp [App.code, dropSubscription])
      (by simp) (by simp) (h.retainsFor.drop id)
  | dropEntity e =>
    exact h.push rfl [] (by simp [App.code]) (by simp) (fun _ hn => .inl hn) []
      (by simp [App.code]) (by simp) (by simp) h.emitter
  | update => exact h
  | finish => exact h
  | release e => exact h
  | applyNext => exact h
  | proceed => exact h
  | callbackReturns keep => exact h

lemma Holds.phase (hp : app.subscribers.retaining = []) (phase : Phase) :
    ({ app with phase := phase } : App).Holds :=
  h.push rfl [] (by simp) (by simp) (fun _ hn => .inl hn) [] (by simp) (by simp) (by simp)
    (by simp [hp])

lemma setStep_release (hp : Phase.emitter app.phase = none) (e : EntityId) :
    SetStep app.subscribers (app.release e).subscribers := by
  have hstep := setStep_remove h.set (h.not_retains hp (.observed (.entity e)))
  refine hstep.trans (setStep_remove hstep.holds ?_)
  rw [SubscriberSet.retains]
  simp [SubscriberSet.remove, h.retaining_nil hp]

lemma Holds.release (hp : Phase.emitter app.phase = none) (e : EntityId) : (app.release e).Holds :=
  h.of_set (setStep_release h hp e) rfl rfl [] (by simp [App.release]) (by simp) (by simp)
    (retainsFor_nil (h.retaining_nil hp) _)

/-- The first effect was taken, other than an activation. -/
lemma Holds.pop {effect : Effect} (hq : app.pendingEffects = effect :: effects)
    (hq' : app'.pendingEffects = effects) (hactivate : ∀ x, effect ≠ .activate x)
    (hstep : SetStep app.subscribers app'.subscribers)
    (hpending : ∀ n ∈ app'.pendingNotifications, n ∈ app.pendingNotifications ∧ effect ≠ .notify n)
    (hlog : app'.log = app.log) (hretains : RetainsFor app'.subscribers (Phase.emitter app'.phase)) :
    app'.Holds := by
  have hmem : ∀ x, .activate x ∈ app'.pendingEffects ↔ .activate x ∈ app.pendingEffects := by
    intro x
    rw [hq, hq', mem_cons]
    exact (or_iff_right (fun heq => hactivate x heq.symm)).symm
  have hnodup := h.activations_nodup
  rw [hq] at hnodup
  refine ⟨hstep.holds, hretains.1, hretains.2, ?_, fun x hx => ?_, fun x k hx ha => ?_,
    fun n hn => ?_, fun x k => ?_, fun x event hx => ?_⟩
  · rw [hq']
    exact hnodup.sublist ((sublist_cons_self _ _).filterMap _)
  · have hx' := h.activation x ((hmem x).mp hx)
    rw [hstep.next]
    refine ⟨hx'.1, ?_⟩
    rcases hstep.states x with hs | hs
    · rw [hs]
      exact hx'.2
    · simp [hs]
  · obtain ⟨hx, hs⟩ := hstep.existing x k hx
    rw [hs]
    exact h.active x k hx (fun h' => ha ((hmem x).mpr h'))
  · obtain ⟨hn, hne⟩ := hpending n hn
    have := h.pending n hn
    rw [hq, mem_cons] at this
    rw [hq']
    exact this.resolve_left (fun heq => hne heq.symm)
  · rw [hlog, hstep.subscribed]
    exact h.registered x k
  · rw [hlog] at hx
    rw [hstep.next]
    exact h.called_lt x event hx

lemma Holds.applyActivate (hq : app.pendingEffects = .activate id :: effects) :
    ({ app with
      pendingEffects := effects
      subscribers := app.subscribers.activate id } : App).Holds := by
  have hid := h.activation id (by rw [hq]; exact mem_cons_self ..)
  have hnodup := h.activations_nodup
  rw [hq] at hnodup
  have hnodup' : id ∉ activations effects ∧ (activations effects).Nodup :=
    nodup_cons.mp hnodup
  have hstates : ∀ x, x ≠ id → (app.subscribers.activate id).states x = app.subscribers.states x := by
    intro x hx
    simp only [SubscriberSet.activate]
    split
    · exact Function.update_of_ne hx _ _
    · rfl
  have hexisting : existing (app.subscribers.activate id).log = existing app.subscribers.log :=
    SubscriberSet.existing_append _ _
  refine ⟨h.set.activate hid.1, h.innermost, h.emitter, hnodup'.2, fun x hx => ?_,
    fun x k hx ha => ?_, fun n hn => ?_, fun x k => ?_, h.called_lt⟩
  · have hx' := h.activation x (by rw [hq]; exact mem_cons_of_mem _ hx)
    have hne : x ≠ id := by
      rintro rfl
      exact hnodup'.1 (mem_activations.mpr hx)
    exact ⟨hx'.1, by rw [hstates x hne]; exact hx'.2⟩
  · rw [hexisting] at hx
    by_cases hne : x = id
    · -- an existing subscriber is not dropped, so it was pending
      subst hne
      have hnot : app.subscribers.states x ≠ .dropped := fun hs =>
        h.set.existing_not_dropped x k hx ((h.set.dropped_iff x).mp hs)
      have hpending : app.subscribers.states x = .pending := by
        cases hs : app.subscribers.states x with
        | pending => rfl
        | active => exact absurd hs hid.2
        | dropped => exact absurd hs hnot
      have hactive : (app.subscribers.activate x).states =
          Function.update app.subscribers.states x .active := if_pos hpending
      exact (congrFun hactive x).trans (Function.update_self ..)
    · rw [hstates x hne]
      refine h.active x k hx ?_
      rw [hq, mem_cons, not_or]
      exact ⟨fun heq => hne (Effect.activate.inj heq), ha⟩
  · have := h.pending n hn
    rw [hq, mem_cons] at this
    exact this.resolve_left (by simp)
  · rw [h.registered]
    simp [SubscriberSet.activate]

lemma Holds.applyNext (hp : Phase.emitter app.phase = none) : app.applyNext.Holds := by
  have hnil := h.retaining_nil hp
  rw [App.applyNext]
  split
  · exact h.phase hnil .idle
  · next n effects hq =>
    refine h.pop hq rfl (by simp) (setStep_retain h.set (h.not_retains hp _)) (fun m hm => ?_) rfl
      (retainsFor_retain hnil _)
    obtain ⟨hm, hne⟩ := mem_filter.mp hm
    have hne : m ≠ n := by simpa using hne
    exact ⟨hm, fun heq => hne (Effect.notify.inj heq).symm⟩
  · next e eventType event effects hq =>
    exact h.pop hq rfl (by simp) (setStep_retain h.set (h.not_retains hp _))
      (fun m hm => ⟨hm, by simp⟩) rfl (retainsFor_retain hnil _)
  · next id effects hq => exact h.applyActivate hq
  · next effects hq =>
    refine h.pop hq rfl (by simp) (setStep_of_log h.set rfl rfl [] (by simp) (by simp))
      (fun m hm => ⟨hm, by simp⟩) rfl ?_
    exact retainsFor_nil hnil _

end

lemma calling_lt (h : set.Holds) (hc : calling set = some id) : id < set.nextSubscriberId := by
  rw [calling] at hc
  cases hr : set.retaining with
  | nil => simp [hr] at hc
  | cons r outer =>
    rw [hr] at hc
    have hc : r.calling = some id := hc
    refine h.held_lt (k := r.emitter) ?_
    rw [h.held_innermost hr, mem_append]
    refine .inl ?_
    simp [Retaining.ids, hc]

lemma Holds.call (h : app.Holds) (hstep : SetStep app.subscribers set)
    (hretains : RetainsFor set (Phase.emitter app.phase))
    (hid : id < app.subscribers.nextSubscriberId) (effect : Effect) :
    (app.call set id effect).Holds := by
  have hreturns : ∀ keep, ({ app with subscribers := set.callbackReturns keep } : App).Holds :=
    fun keep => h.of_set (hstep.trans (setStep_callbackReturns hstep.holds keep)) rfl rfl []
      (by simp) (by simp) (by simp) (hretains.callbackReturns keep)
  have hcalled : ∀ event, ({ app with
      subscribers := set, log := app.log ++ [.called id event] } : App).Holds := by
    intro event
    refine h.of_set hstep rfl rfl [.called id event] rfl (by simp) (fun x event hx => ?_) hretains
    rw [mem_singleton, AppObservation.called.injEq] at hx
    rw [hx.1]
    exact hid
  rw [App.call.eq_def]
  split
  · split
    · exact hreturns false
    · exact hcalled none
  · split
    · exact hreturns true
    · split
      · exact hreturns false
      · exact hcalled _
  · exact h
  · exact h

lemma Holds.proceed (h : app.Holds) (effect : Effect) : (app.proceed effect).Holds := by
  have hstep := setStep_proceed h.set
  have hretains := h.retainsFor.proceed
  rw [App.proceed]
  split
  · next hnil => exact h.phase (isEmpty_iff.mp hnil) .flushing
  · dsimp only
    split
    · exact h.of_set hstep rfl rfl [] (by simp) (by simp) (by simp) hretains
    · next id hc =>
      refine h.call hstep hretains ?_ effect
      rw [← hstep.next]
      exact calling_lt hstep.holds hc

/-- What one event can do, with the phase it needs. -/
lemma step_cases (app : App) (event : Event) :
    app.step event = app ∨
    (∃ phase, app.step event = { app with phase := phase } ∧ (app.phase = .idle ∧ phase = .running ∨
      app.phase = .running ∧ phase = .flushing)) ∨
    (app.step event = app.code event ∧ (app.phase = .running ∨
      ∃ effect, app.phase = .applying effect ∧ (calling app.subscribers).isSome)) ∨
    (∃ e ∈ app.droppedEntities, app.step event = app.release e ∧ app.phase = .flushing) ∨
    (app.step event = app.applyNext ∧ app.phase = .flushing) ∨
    (∃ effect keep, app.phase = .applying effect ∧ (calling app.subscribers).isSome ∧
      app.step event = { app with subscribers := app.subscribers.callbackReturns keep }) ∨
    ∃ effect, app.phase = .applying effect ∧ (calling app.subscribers).isSome = false ∧
      app.step event = app.proceed effect := by
  unfold step
  cases hp : app.phase with
  | idle => cases event <;> simp
  | running => cases event <;> simp
  | flushing =>
    cases event with
    | release e =>
      dsimp only
      split
      · next he => exact .inr (.inr (.inr (.inl ⟨e, he, rfl, rfl⟩)))
      · exact .inl rfl
    | _ => simp
  | applying effect =>
    cases hc : (calling app.subscribers).isSome with
    | true => cases event <;> simp
    | false => cases event <;> simp

lemma Holds.step (h : app.Holds) (event : Event) : (app.step event).Holds := by
  rcases app.step_cases event with heq | ⟨phase, heq, hp⟩ | ⟨heq, -⟩ | ⟨e, -, heq, hp⟩ | ⟨heq, hp⟩ |
    ⟨effect, keep, -, -, heq⟩ | ⟨effect, -, -, heq⟩ <;> rw [heq]
  · exact h
  · refine h.phase (h.retaining_nil ?_) phase
    rcases hp with ⟨hp, -⟩ | ⟨hp, -⟩ <;> rw [hp] <;> rfl
  · exact h.code event
  · exact h.release (by rw [hp]; rfl) e
  · exact h.applyNext (by rw [hp]; rfl)
  · exact h.of_set (setStep_callbackReturns h.set keep) rfl rfl [] (by simp) (by simp) (by simp)
      (h.retainsFor.callbackReturns keep)
  · exact h.proceed effect

lemma holds_new : new.Holds := by
  refine ⟨SubscriberSet.holds_new, ?_, ?_, ?_, ?_, ?_, ?_, ?_, ?_⟩ <;>
    simp [new, SubscriberSet.new, activations, existing]

/-- The invariant of every run. -/
lemma holds_run (events : List Event) : (run events).Holds := by
  induction events using reverseRecOn with
  | nil => exact holds_new
  | append_singleton events event ih =>
    rw [run, foldl_append]
    exact ih.step event

end App

end GpuiFast
