import GpuiFast.AppEffectsNotifications

namespace GpuiFast

open List

namespace App

open SubscriberSet (existing)

def emitsOf (e : EntityId) (eventType : ℕ) (effects : List Effect) : List ℕ :=
  effects.filterMap (fun
    | .emit e' t event => if e' = e ∧ t = eventType then some event else none
    | _ => none)

def queuedFor (x : ℕ) (e : EntityId) (eventType : ℕ) : List Effect → List ℕ
  | [] => []
  | effect :: effects =>
    if .activate x ∈ effects then queuedFor x e eventType effects
    else emitsOf e eventType (effect :: effects)

variable (e : EntityId) (eventType : ℕ) {effect : Effect} {x : ℕ} {app app' : App}
  {emitter : EntityId} {event : ℕ}

variable (effects : List Effect)

lemma emitsOf_append (effects' : List Effect) :
    emitsOf e eventType (effects ++ effects') =
      emitsOf e eventType effects ++ emitsOf e eventType effects' :=
  filterMap_append

lemma emitsOf_cons_of_ne {e : EntityId} {eventType : ℕ}
    (h : ∀ event, effect ≠ .emit e eventType event) (effects : List Effect) :
    emitsOf e eventType (effect :: effects) = emitsOf e eventType effects := by
  cases effect with
  | emit e' t event =>
    have hne : ¬ (e' = e ∧ t = eventType) := by
      rintro ⟨rfl, rfl⟩
      exact h event rfl
    simp [emitsOf, hne]
  | _ => rfl

lemma emitsOf_cons_self (event : ℕ) (effects : List Effect) :
    emitsOf e eventType (.emit e eventType event :: effects) =
      event :: emitsOf e eventType effects := by
  simp [emitsOf]

lemma queuedFor_of_notMem {e : EntityId} {eventType : ℕ} {effects : List Effect}
    (h : .activate x ∉ effects) :
    queuedFor x e eventType effects = emitsOf e eventType effects := by
  cases effects with
  | nil => rfl
  | cons effect effects =>
    rw [queuedFor, if_neg (fun hm => h (mem_cons_of_mem _ hm))]

lemma queuedFor_append {e : EntityId} {eventType : ℕ} {effects' : List Effect}
    (h : .activate x ∉ effects') :
    queuedFor x e eventType (effects ++ effects') =
      queuedFor x e eventType effects ++ emitsOf e eventType effects' := by
  induction effects with
  | nil => exact queuedFor_of_notMem h
  | cons effect effects ih =>
    have hmem : .activate x ∈ effects ++ effects' ↔ .activate x ∈ effects := by
      rw [mem_append]
      exact or_iff_left h
    rw [cons_append, queuedFor, queuedFor, ih]
    simp only [hmem]
    split
    · rfl
    · rw [← cons_append, emitsOf_append]

lemma queuedFor_activate (x : ℕ) (e : EntityId) (eventType : ℕ) (effects : List Effect) :
    queuedFor x e eventType (effects ++ [.activate x]) = [] := by
  induction effects with
  | nil => rfl
  | cons effect effects ih =>
    rw [cons_append, queuedFor, if_pos (mem_append_right _ (by simp)), ih]

lemma queuedFor_cons {e : EntityId} {eventType : ℕ} (h : ∀ event, effect ≠ .emit e eventType event)
    (effects : List Effect) :
    queuedFor x e eventType (effect :: effects) = queuedFor x e eventType effects := by
  rw [queuedFor]
  split
  · rfl
  · next hx => rw [emitsOf_cons_of_ne h, queuedFor_of_notMem hx]

def inProgress (app : App) (x : ℕ) (e : EntityId) (eventType : ℕ) : List ℕ :=
  match app.phase with
  | .applying (.emit e' t event) =>
    if (e' = e ∧ t = eventType) ∧ x ∈ waiting app.subscribers ∧ app.subscribers.states x = .active
    then [event] else []
  | _ => []

def due (app : App) (x : ℕ) (e : EntityId) : List ℕ :=
  app.inProgress x e (app.listenerTypes x) ++
    queuedFor x e (app.listenerTypes x) app.pendingEffects

/-- A listener was called in order with the events emitted since it was registered, and while it
is alive the others are due to it. -/
def Delivers (app : App) : Prop :=
  ∀ x e a b, app.log = a ++ .registered x (.listened e) :: b →
    delivered x a = [] ∧ delivered x b <+: emittedBy e (app.listenerTypes x) b ∧
      (app.alive x (.listened e) →
        emittedBy e (app.listenerTypes x) b = delivered x b ++ app.due x e)

lemma Delivers.same (h : app.Delivers) (hlog : app'.log = app.log)
    (htypes : app'.listenerTypes = app.listenerTypes)
    (halive : ∀ x e, app'.alive x (.listened e) → app.alive x (.listened e))
    (hdue : ∀ x e, app'.alive x (.listened e) → app'.due x e = app.due x e) : app'.Delivers := by
  intro x e a b hsplit
  rw [hlog] at hsplit
  obtain ⟨h1, h2, h3⟩ := h x e a b hsplit
  rw [htypes]
  exact ⟨h1, h2, fun hx => by rw [hdue x e hx]; exact h3 (halive x e hx)⟩

lemma delivered_append (x : ℕ) (log log' : List AppObservation) :
    delivered x (log ++ log') = delivered x log ++ delivered x log' :=
  filterMap_append

lemma emittedBy_append (log log' : List AppObservation) :
    emittedBy e eventType (log ++ log') = emittedBy e eventType log ++ emittedBy e eventType log' :=
  filterMap_append

lemma Delivers.append (h : app.Delivers) (o : AppObservation) (hlog : app'.log = app.log ++ [o])
    (htypes : ∀ x e, .registered x (.listened e) ∈ app.log →
      app'.listenerTypes x = app.listenerTypes x)
    (halive : ∀ x e, .registered x (.listened e) ∈ app.log → app'.alive x (.listened e) →
      app.alive x (.listened e))
    (hbalance : ∀ x e, app'.alive x (.listened e) → app.alive x (.listened e) →
      app.due x e ++ emittedBy e (app.listenerTypes x) [o] = delivered x [o] ++ app'.due x e)
    (hcalled : ∀ x e, .registered x (.listened e) ∈ app.log → delivered x [o] = [] ∨
      app.alive x (.listened e) ∧ ∃ rest, app.due x e = delivered x [o] ++ rest)
    (hnew : ∀ x e, o = .registered x (.listened e) → delivered x app.log = [] ∧ app'.due x e = []) :
    app'.Delivers := by
  intro x e a b hsplit
  rw [hlog] at hsplit
  rcases snoc_split hsplit with ⟨rfl, ho, rfl⟩ | ⟨b', rfl, hsplit'⟩
  · obtain ⟨h1, h2⟩ := hnew x e ho
    exact ⟨h1, by simp [delivered], fun _ => by rw [h2]; rfl⟩
  · have hreg : .registered x (.listened e) ∈ app.log := by rw [hsplit']; simp
    obtain ⟨h1, h2, h3⟩ := h x e a b' hsplit'
    rw [htypes x e hreg, delivered_append, emittedBy_append]
    refine ⟨h1, ?_, fun hx => ?_⟩
    · rcases hcalled x e hreg with hnone | ⟨hx, rest, hrest⟩
      · rw [hnone, append_nil]
        exact h2.trans (prefix_append _ _)
      · rw [h3 hx, hrest]
        exact ⟨rest ++ emittedBy e (app.listenerTypes x) [o], by simp⟩
    · have hx' := halive x e hreg hx
      rw [h3 hx', append_assoc, append_assoc, hbalance x e hx hx']

lemma inProgress_congr (hphase : app'.phase = app.phase)
    (hwaiting : waiting app'.subscribers = waiting app.subscribers)
    (hstates : app'.subscribers.states x = app.subscribers.states x) (e : EntityId) (eventType : ℕ) :
    app'.inProgress x e eventType = app.inProgress x e eventType := by
  simp only [inProgress, hphase, hwaiting, hstates]

lemma due_push (app app' : App) (effects : List Effect)
    (hqueue : app'.pendingEffects = app.pendingEffects ++ effects) (hx : .activate x ∉ effects)
    (hphase : app'.phase = app.phase)
    (hwaiting : waiting app'.subscribers = waiting app.subscribers)
    (hstates : app'.subscribers.states x = app.subscribers.states x)
    (htypes : app'.listenerTypes x = app.listenerTypes x) (e : EntityId) :
    app'.due x e = app.due x e ++ emitsOf e (app.listenerTypes x) effects := by
  rw [due, due, htypes, inProgress_congr hphase hwaiting hstates, hqueue, queuedFor_append _ hx,
    append_assoc]

lemma Delivers.register (h : app.Delivers) (hh : app.Holds) (k : Emitter) (eventType : ℕ) :
    (app.register k eventType).Delivers := by
  have hexisting : existing (app.register k eventType).subscribers.log =
      existing app.subscribers.log ++ [(app.subscribers.nextSubscriberId, k)] :=
    SubscriberSet.existing_append _ _
  refine h.append (.registered app.subscribers.nextSubscriberId k) rfl (fun x e hreg => ?_)
    (fun x e hreg hx => ⟨?_, hx.2⟩) (fun x e _ hx => ?_) (fun x e _ => .inl rfl)
    (fun x e ho => ?_)
  · exact Function.update_of_ne (Nat.ne_of_lt (hh.registered_lt hreg)) _ _
  · have hmem := hx.1
    rw [hexisting, mem_append, mem_singleton, Prod.mk.injEq] at hmem
    refine hmem.resolve_right (fun heq => ?_)
    exact lt_irrefl _ (heq.1 ▸ hh.registered_lt hreg)
  · have hlt := hh.set.subscribed_lt x _ (SubscriberSet.existing_subscribed hx.1)
    have hdue : (app.register k eventType).due x e = app.due x e ++ emitsOf e _ _ :=
      due_push app (app.register k eventType) [.activate app.subscribers.nextSubscriberId] rfl
        (by rw [mem_singleton, Effect.activate.injEq]; exact Nat.ne_of_lt hlt) rfl rfl
        (Function.update_of_ne (Nat.ne_of_lt hlt) _ _)
        (Function.update_of_ne (Nat.ne_of_lt hlt) _ _) e
    rw [hdue]
    rfl
  · obtain ⟨rfl, -⟩ := AppObservation.registered.inj ho
    refine ⟨?_, ?_⟩
    · -- whoever was called has an older id
      rw [delivered, filterMap_eq_nil_iff]
      intro o hmem
      split
      · next i event =>
        have hlt := hh.called_lt i (some event) hmem
        exact if_neg (Nat.ne_of_lt hlt)
      · rfl
    · have hpending : (app.register k eventType).subscribers.states
          app.subscribers.nextSubscriberId = .pending := Function.update_self ..
      have hqueue : (app.register k eventType).pendingEffects =
          app.pendingEffects ++ [.activate app.subscribers.nextSubscriberId] := rfl
      rw [due, hqueue, queuedFor_activate, append_nil, inProgress]
      split
      · rw [hpending]
        simp
      · rfl

lemma Delivers.push (h : app.Delivers) (o : AppObservation) (hlog : app'.log = app.log ++ [o])
    (effects : List Effect) (hqueue : app'.pendingEffects = app.pendingEffects ++ effects)
    (hactivate : ∀ x, .activate x ∉ effects) (hphase : app'.phase = app.phase)
    (hsubscribers : app'.subscribers = app.subscribers)
    (htypes : app'.listenerTypes = app.listenerTypes)
    (hdropped : app'.droppedEntities = app.droppedEntities)
    (hemits : ∀ e eventType, emitsOf e eventType effects = emittedBy e eventType [o])
    (hdelivered : ∀ x, delivered x [o] = []) (ho : ∀ x k, o ≠ .registered x k) : app'.Delivers := by
  refine h.append o hlog (fun x e _ => congrFun htypes x) (fun x e _ hx => ?_) (fun x e _ _ => ?_)
    (fun x e _ => .inl (hdelivered x)) (fun x e heq => absurd heq (ho x _))
  · rw [alive, hsubscribers, hdropped] at hx
    exact hx
  · rw [due_push app app' effects hqueue (hactivate x) hphase (by rw [hsubscribers]) (by rw [hsubscribers])
      (congrFun htypes x), hdelivered, hemits]
    rfl

lemma Delivers.code (h : app.Delivers) (hh : app.Holds) (event : Event) :
    (app.code event).Delivers := by
  cases event with
  | observe n => exact h.register hh _ _
  | subscribe e eventType => exact h.register hh _ _
  | notify n =>
    simp only [App.code, App.notify, pushEffect]
    split
    · exact h.push (.notified n) rfl [] (by simp) (by simp) rfl rfl rfl rfl (fun _ _ => rfl)
        (fun _ => rfl) (by simp)
    · exact h.push (.notified n) rfl [.notify n] rfl (by simp) rfl rfl rfl rfl (fun _ _ => rfl)
        (fun _ => rfl) (by simp)
  | emit e eventType event =>
    exact h.push (.emitted e eventType event) rfl [.emit e eventType event] rfl (by simp) rfl rfl
      rfl rfl (fun _ _ => rfl) (fun _ => rfl) (by simp)
  | defer =>
    refine h.same rfl rfl (fun x e hx => hx) (fun x e _ => ?_)
    have hdue : (app.code .defer).due x e = app.due x e ++ emitsOf e _ _ :=
      due_push app (app.code .defer) [.defer] rfl (by simp) rfl rfl rfl rfl e
    rw [hdue]
    exact append_nil _
  | drop id =>
    have hstep := setStep_drop hh.set id
    refine h.same rfl rfl (fun x e hx => ⟨(hstep.existing x _ hx.1).1, hx.2⟩) (fun x e hx => ?_)
    have hdue : (app.code (.drop id)).due x e = app.due x e ++ emitsOf e _ _ :=
      due_push app (app.code (.drop id)) [] (by simp [App.code, dropSubscription]) (by simp) rfl
        (waiting_drop _ id) (hstep.existing x _ hx.1).2 rfl e
    rw [hdue]
    exact append_nil _
  | dropEntity e =>
    refine h.same rfl rfl (fun x e' hx => ⟨hx.1, ?_⟩) (fun x e' _ => rfl)
    exact fun hm => hx.2 (mem_append_left _ hm)
  | update => exact h
  | finish => exact h
  | release e => exact h
  | applyNext => exact h
  | proceed => exact h
  | callbackReturns keep => exact h

lemma inProgress_eq_nil (h : ∀ e eventType event, app.phase ≠ .applying (.emit e eventType event))
    (x : ℕ) (e : EntityId) (eventType : ℕ) : app.inProgress x e eventType = [] := by
  rw [inProgress]
  split
  · next hp => exact absurd hp (h _ _ _)
  · rfl

lemma due_eq_queuedFor (h : ∀ e eventType event, app.phase ≠ .applying (.emit e eventType event))
    (x : ℕ) (e : EntityId) :
    app.due x e = queuedFor x e (app.listenerTypes x) app.pendingEffects := by
  rw [due, inProgress_eq_nil h, nil_append]

lemma due_applyEmit (hh : app.Holds) (hp : app.phase = .flushing) {eventType : ℕ}
    {effects : List Effect} (hq : app.pendingEffects = .emit emitter eventType event :: effects)
    {e : EntityId} (hx : (x, .listened e) ∈ existing app.subscribers.log) :
    app.applyNext.due x e = app.due x e := by
  have hnil := hh.retaining_nil (by rw [hp]; rfl)
  have hnext : app.applyNext = { app with
      pendingEffects := effects
      subscribers := app.subscribers.retain (.listened emitter)
      phase := .applying (.emit emitter eventType event) } := by
    rw [App.applyNext, hq]
  have hstates := congrFun (retain_states app.subscribers (.listened emitter)) x
  have hdue : app.due x e = queuedFor x e (app.listenerTypes x) app.pendingEffects :=
    due_eq_queuedFor (by simp [hp]) x e
  rw [hdue, hq, hnext, due]
  dsimp only [inProgress]
  rw [hstates, queuedFor]
  by_cases hact : .activate x ∈ effects
  · have hinactive := (hh.activation x (by rw [hq]; exact mem_cons_of_mem _ hact)).2
    rw [if_pos hact, if_neg (fun hc => hinactive hc.2.2), nil_append]
  · have hactive := hh.active x _ hx (by
      rw [hq, mem_cons, not_or]
      exact ⟨by simp, hact⟩)
    rw [if_neg hact, queuedFor_of_notMem hact]
    by_cases hmatch : emitter = e ∧ eventType = app.listenerTypes x
    · have hw : x ∈ waiting (app.subscribers.retain (.listened emitter)) :=
        mem_waiting_retain hh.set hnil (by rw [hmatch.1]; exact hx)
      rw [if_pos ⟨hmatch, hw, hactive⟩]
      obtain ⟨rfl, rfl⟩ := hmatch
      rw [emitsOf_cons_self]
      rfl
    · rw [if_neg (fun hc => hmatch hc.1), nil_append, emitsOf_cons_of_ne]
      rintro event' heq
      injection heq with he ht
      exact hmatch ⟨he, ht⟩

lemma Delivers.applyNext (h : app.Delivers) (hh : app.Holds) (hp : app.phase = .flushing) :
    app.applyNext.Delivers := by
  have hnone : Phase.emitter app.phase = none := by rw [hp]; rfl
  have hdue : ∀ x e, app.due x e = queuedFor x e (app.listenerTypes x) app.pendingEffects :=
    due_eq_queuedFor (by simp [hp])
  cases hq : app.pendingEffects with
  | nil =>
    have hnext : app.applyNext = { app with phase := .idle } := by rw [App.applyNext, hq]
    rw [hnext]
    refine h.same rfl rfl (fun x e hx => hx) (fun x e _ => ?_)
    rw [hdue]
    exact due_eq_queuedFor (by simp) x e
  | cons effect effects =>
    cases effect with
    | notify n =>
      have hstep := setStep_retain hh.set (hh.not_retains hnone (.observed n))
      simp only [App.applyNext, hq]
      refine h.same rfl rfl (fun x e hx => ⟨(hstep.existing x _ hx.1).1, hx.2⟩) (fun x e _ => ?_)
      rw [hdue, hq, queuedFor_cons (by simp)]
      exact due_eq_queuedFor (by simp) x e
    | emit emitter eventType event =>
      have hstep := setStep_retain hh.set (hh.not_retains hnone (.listened emitter))
      have hset : app.applyNext.subscribers = app.subscribers.retain (.listened emitter) := by
        simp only [App.applyNext, hq]
      have hrest : app.applyNext.log = app.log ∧ app.applyNext.listenerTypes = app.listenerTypes ∧
          app.applyNext.droppedEntities = app.droppedEntities := by
        simp only [App.applyNext, hq, and_self]
      have halive : ∀ x e, app.applyNext.alive x (.listened e) → app.alive x (.listened e) := by
        intro x e hx
        rw [alive, hset, hrest.2.2] at hx
        exact ⟨(hstep.existing x _ hx.1).1, hx.2⟩
      exact h.same hrest.1 hrest.2.1 halive
        (fun x e hx => due_applyEmit hh hp hq (halive x e hx).1)
    | activate id =>
      have hexisting : existing (app.subscribers.activate id).log = existing app.subscribers.log :=
        SubscriberSet.existing_append _ _
      simp only [App.applyNext, hq]
      refine h.same rfl rfl (fun x e hx => ⟨?_, hx.2⟩) (fun x e _ => ?_)
      · rw [← hexisting]
        exact hx.1
      · rw [hdue, hq, queuedFor_cons (by simp)]
        exact due_eq_queuedFor (by simp [hp]) x e
    | defer =>
      simp only [App.applyNext, hq]
      refine h.same rfl rfl (fun x e hx => hx) (fun x e _ => ?_)
      rw [hdue, hq, queuedFor_cons (by simp)]
      exact due_eq_queuedFor (by simp) x e

lemma existing_of_waiting (hh : app.Holds) {eventType : ℕ}
    (hp : app.phase = .applying (.emit emitter eventType event)) (hx : x ∈ waiting app.subscribers)
    (hactive : app.subscribers.states x = .active) :
    (x, .listened emitter) ∈ existing app.subscribers.log := by
  cases hr : app.subscribers.retaining with
  | nil =>
    rw [waiting_nil hr] at hx
    cases hx
  | cons r outer =>
    have hemitter : r.emitter = .listened emitter := by
      have := hh.emitter r (by rw [hr]; exact mem_cons_self ..)
      rw [hp] at this
      exact (Option.some.inj this).symm
    have hheld : x ∈ app.subscribers.held (.listened emitter) := by
      rw [← hemitter, hh.set.held_innermost hr, mem_append]
      refine .inl ?_
      rw [waiting, hr] at hx
      exact mem_append_right _ hx
    refine (hh.set.held_existing x _ hheld).resolve_right (fun hd => ?_)
    rw [← hh.set.dropped_iff, hactive] at hd
    cases hd

lemma due_turn (app app' : App) (hqueue : app'.pendingEffects = app.pendingEffects)
    (htypes : app'.listenerTypes = app.listenerTypes) (hphase : app'.phase = app.phase)
    (hstates : app'.subscribers.states = app.subscribers.states) {e : EntityId}
    (hwaiting : ∀ event, app.phase = .applying (.emit e (app.listenerTypes x) event) →
      app.subscribers.states x = .active →
        (x ∈ waiting app'.subscribers ↔ x ∈ waiting app.subscribers)) :
    app'.due x e = app.due x e := by
  rw [due, due, hqueue, htypes]
  refine congrArg (· ++ _) ?_
  rw [inProgress, inProgress, hphase, hstates]
  split
  · next e' t event hp =>
    have hiff : (e' = e ∧ t = app.listenerTypes x) ∧ x ∈ waiting app'.subscribers ∧
          app.subscribers.states x = .active ↔
        (e' = e ∧ t = app.listenerTypes x) ∧ x ∈ waiting app.subscribers ∧
          app.subscribers.states x = .active := by
      constructor
      · rintro ⟨⟨rfl, rfl⟩, hw, hs⟩
        exact ⟨⟨rfl, rfl⟩, (hwaiting event hp hs).mp hw, hs⟩
      · rintro ⟨⟨rfl, rfl⟩, hw, hs⟩
        exact ⟨⟨rfl, rfl⟩, (hwaiting event hp hs).mpr hw, hs⟩
    simp only [hiff]
  · rfl

lemma Delivers.turn (h : app.Delivers) (hlog : app'.log = app.log)
    (halive : ∀ x e, app'.alive x (.listened e) → app.alive x (.listened e))
    (hqueue : app'.pendingEffects = app.pendingEffects)
    (htypes : app'.listenerTypes = app.listenerTypes) (hphase : app'.phase = app.phase)
    (hstates : app'.subscribers.states = app.subscribers.states)
    (hwaiting : ∀ x e event, app'.alive x (.listened e) →
      app.phase = .applying (.emit e (app.listenerTypes x) event) →
      app.subscribers.states x = .active →
        (x ∈ waiting app'.subscribers ↔ x ∈ waiting app.subscribers)) : app'.Delivers :=
  h.same hlog htypes halive
    (fun x e hx => due_turn app app' hqueue htypes hphase hstates (fun event => hwaiting x e event hx))

lemma Delivers.call (h : app.Delivers) (hh : app.Holds) {id : ℕ} {rest : List ℕ}
    (hp : app.phase = .applying (.emit emitter (app.listenerTypes id) event))
    (hw : waiting app.subscribers = id :: rest) (hw' : waiting app.subscribers.proceed = rest)
    (hid : id ∉ rest) (hactive : app.subscribers.states id = .active)
    (hentity : emitter ∉ app.droppedEntities) :
    ({ app with
      subscribers := app.subscribers.proceed
      log := app.log ++ [.called id (some event)] } : App).Delivers := by
  have hstep := setStep_proceed hh.set
  have hstates := proceed_states app.subscribers
  have hmem : id ∈ waiting app.subscribers := by rw [hw]; exact mem_cons_self ..
  have hexisting := existing_of_waiting hh hp hmem hactive
  have hsubscribed := SubscriberSet.existing_subscribed hexisting
  have hdue : app.due id emitter =
      event :: queuedFor id emitter (app.listenerTypes id) app.pendingEffects := by
    rw [due, inProgress, hp]
    dsimp only
    rw [if_pos ⟨⟨rfl, rfl⟩, hmem, hactive⟩]
    rfl
  refine h.append (.called id (some event)) rfl (fun x e _ => rfl)
    (fun x e _ hx => ⟨(hstep.existing x _ hx.1).1, hx.2⟩) (fun x e hx hx' => ?_) (fun x e hreg => ?_)
    (fun x e ho => by cases ho)
  · by_cases hxid : x = id
    · subst hxid
      have he := hh.set.subscribed_unique x _ _ (SubscriberSet.existing_subscribed hx'.1) hsubscribed
      obtain rfl := Emitter.listened.inj he
      rw [hdue, due, inProgress]
      dsimp only
      rw [hp]
      dsimp only
      rw [hw', if_neg (fun hc => hid hc.2.1)]
      simp [delivered, emittedBy]
    · have hsame := due_turn app { app with
        subscribers := app.subscribers.proceed
        log := app.log ++ [.called id (some event)] } rfl rfl rfl hstates (x := x) (e := e)
        (fun _ _ _ => by
          rw [hw, hw', mem_cons]
          exact (or_iff_right hxid).symm)
      rw [hsame]
      simp [delivered, emittedBy, Ne.symm hxid]
  · by_cases hxid : x = id
    · subst hxid
      have he := hh.set.subscribed_unique x _ _ ((hh.registered x _).mp hreg) hsubscribed
      obtain rfl := Emitter.listened.inj he
      refine .inr ⟨⟨hexisting, hentity⟩,
        queuedFor x e (app.listenerTypes x) app.pendingEffects, hdue.trans ?_⟩
      simp [delivered]
    · exact .inl (by simp [delivered, Ne.symm hxid])

lemma Delivers.proceed (h : app.Delivers) (hh : app.Holds) (hp : app.phase = .applying effect)
    (hcalling : (calling app.subscribers).isSome = false) : (app.proceed effect).Delivers := by
  have hstep := setStep_proceed hh.set
  have hstates := proceed_states app.subscribers
  have hreturns : ∀ keep x e, App.alive { app with
      subscribers := app.subscribers.proceed.callbackReturns keep } x (.listened e) →
        app.alive x (.listened e) := fun keep x e hx =>
    ⟨((hstep.trans (setStep_callbackReturns hstep.holds keep)).existing x _ hx.1).1, hx.2⟩
  have hreturned : ∀ keep,
      (app.subscribers.proceed.callbackReturns keep).states = app.subscribers.states :=
    fun keep => (callbackReturns_states _ keep).trans hstates
  rw [App.proceed]
  split
  · next hnil =>
    have hw := waiting_nil (isEmpty_iff.mp hnil)
    refine h.same rfl rfl (fun x e hx => hx) (fun x e _ => ?_)
    rw [due_eq_queuedFor (by simp), due, inProgress, hw]
    split <;> simp
  dsimp only
  rcases waiting_proceed hh.set hh.innermost hcalling with ⟨hnone, hw⟩ | ⟨id, rest, hw, hw', hid, hcase⟩
  · rw [hnone]
    exact h.turn rfl (fun x e hx => ⟨(hstep.existing x _ hx.1).1, hx.2⟩) rfl rfl rfl hstates
      (fun x e event _ _ _ => by rw [hw])
  rcases hcase with ⟨hnone, hinactive⟩ | ⟨hsome, hactive⟩
  · rw [hnone]
    refine h.turn rfl (fun x e hx => ⟨(hstep.existing x _ hx.1).1, hx.2⟩) rfl rfl rfl hstates
      (fun x e event _ _ hs => ?_)
    rw [hw, hw', mem_cons]
    exact (or_iff_right (fun heq : x = id => hinactive (heq ▸ hs))).symm
  rw [hsome]
  cases effect with
  | notify n =>
    have hother : ∀ {e eventType event}, app.phase ≠ .applying (.emit e eventType event) := by
      simp [hp]
    simp only [App.call]
    split
    · exact h.turn rfl (hreturns false) rfl rfl rfl (hreturned false)
        (fun x e event _ hc _ => absurd hc hother)
    · refine h.append (.called id none) rfl (fun x e _ => rfl)
        (fun x e _ hx => ⟨(hstep.existing x _ hx.1).1, hx.2⟩) (fun x e _ _ => ?_)
        (fun x e _ => .inl rfl) (fun x e ho => by cases ho)
      have hsame := due_turn app { app with
        subscribers := app.subscribers.proceed
        log := app.log ++ [.called id none] } rfl rfl rfl hstates (x := x) (e := e)
          (fun _ hc _ => absurd hc hother)
      rw [hsame]
      exact append_nil _
  | emit emitter eventType event =>
    simp only [App.call]
    split
    · -- the listener is for other events
      next hne =>
      refine h.turn rfl (hreturns true) rfl rfl rfl (hreturned true) (fun x e event _ hc _ => ?_)
      rw [hp, Phase.applying.injEq, Effect.emit.injEq] at hc
      rw [waiting_callbackReturns, hw, hw', mem_cons]
      exact (or_iff_right (fun heq : x = id => hne (heq ▸ hc.2.1.symm))).symm
    · next hne =>
      obtain rfl : app.listenerTypes id = eventType := not_not.mp hne
      split
      · -- the entity is gone: nothing of this event is due to whoever is alive
        next hdropped =>
        refine h.turn rfl (hreturns false) rfl rfl rfl (hreturned false) (fun x e event hx hc _ => ?_)
        rw [hp, Phase.applying.injEq, Effect.emit.injEq] at hc
        exact absurd hdropped (hc.1 ▸ hx.2)
      · next hentity => exact h.call hh hp hw hw' hid hactive hentity
  | activate i => exact h
  | defer => exact h

lemma Delivers.step (h : app.Delivers) (hh : app.Holds) (event : Event) :
    (app.step event).Delivers := by
  rcases app.step_cases event with heq | ⟨phase, heq, hp⟩ | ⟨heq, -⟩ | ⟨e, -, heq, hp⟩ | ⟨heq, hp⟩ |
    ⟨effect, keep, -, -, heq⟩ | ⟨effect, hp, hcalling, heq⟩ <;> rw [heq]
  · exact h
  · refine h.same rfl rfl (fun x e hx => hx) (fun x e _ => ?_)
    rcases hp with ⟨hp, rfl⟩ | ⟨hp, rfl⟩ <;>
      rw [due_eq_queuedFor (by simp), due_eq_queuedFor (by simp [hp])]
  · exact h.code hh event
  · have hnone : Phase.emitter app.phase = none := by rw [hp]; rfl
    have hstep := setStep_release hh hnone e
    refine h.same rfl rfl (fun x e' hx => ⟨(hstep.existing x _ hx.1).1, hx.2⟩) (fun x e' _ => ?_)
    rw [due_eq_queuedFor (by simp [release]), due_eq_queuedFor (by simp [hp])]
    rfl
  · exact h.applyNext hh hp
  · have hstep := setStep_callbackReturns hh.set keep
    exact h.turn rfl (fun x e hx => ⟨(hstep.existing x _ hx.1).1, hx.2⟩) rfl rfl rfl
      (callbackReturns_states _ keep) (fun x e event _ _ _ => by rw [waiting_callbackReturns])
  · exact h.proceed hh hp hcalling

end App

end GpuiFast
