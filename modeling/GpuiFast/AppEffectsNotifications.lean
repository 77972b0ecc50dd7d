import GpuiFast.AppEffectsHold

namespace GpuiFast

open List

namespace App

open SubscriberSet (existing)

def waiting (set : SubscriberSet Emitter) : List ℕ :=
  (set.retaining.head?.map Retaining.waiting).getD []

lemma waiting_nil {set : SubscriberSet Emitter} (h : set.retaining = []) : waiting set = [] := by
  simp [waiting, h]

variable (set : SubscriberSet Emitter) {x : ℕ} {app app' : App} {n : Notified}

lemma waiting_drop (id : ℕ) : waiting (set.drop id) = waiting set := by
  cases he : set.subscriptions.get? id <;> simp only [waiting, SubscriberSet.drop, he]

variable (keep : Bool) {event : Event}

lemma waiting_callbackReturns : waiting (set.callbackReturns keep) = waiting set := by
  rcases set.callbackReturns_cases keep with heq | ⟨e, kept, id, waiting, outer, kept', hr, heq, -⟩
  · rw [heq]
  · rw [heq]
    simp [App.waiting, hr]

lemma callbackReturns_states : (set.callbackReturns keep).states = set.states := by
  rcases set.callbackReturns_cases keep with heq | ⟨e, kept, id, waiting, outer, kept', hr, heq, -⟩
  · rw [heq]
  · rw [heq]

lemma mem_waiting_retain {set : SubscriberSet Emitter} (h : set.Holds) (hnil : set.retaining = [])
    {k : Emitter} (hx : (x, k) ∈ existing set.log) : x ∈ waiting (set.retain k) := by
  have hk : ¬ set.retains k := by simp [SubscriberSet.retains, hnil]
  have hheld := h.existing_held x k hx
  rw [SubscriberSet.held_of_not_retains hk, SubscriberSet.ids] at hheld
  cases hg : set.subscribers.get? k with
  | none =>
    rw [hg] at hheld
    cases hheld
  | some l =>
    rw [hg] at hheld
    simpa [waiting, SubscriberSet.retain, hg] using hheld

lemma waiting_proceed {set : SubscriberSet Emitter} (h : set.Holds)
    (hlength : set.retaining.length ≤ 1) (hcalling : (calling set).isSome = false) :
    (calling set.proceed = none ∧ waiting set.proceed = waiting set) ∨
    ∃ id rest, waiting set = id :: rest ∧ waiting set.proceed = rest ∧ id ∉ rest ∧
      (calling set.proceed = none ∧ set.states id ≠ .active ∨
        calling set.proceed = some id ∧ set.states id = .active) := by
  rcases set.proceed_cases with heq | ⟨e, kept, id, rest, outer, kept', calling', called, hr, heq,
    hcase⟩ | ⟨e, kept, outer, hr, heq⟩
  · rw [heq]
    left
    refine ⟨?_, rfl⟩
    cases hc : calling set with
    | none => rfl
    | some id => simp [hc] at hcalling
  · right
    have hnodup : id ∉ rest := by
      have hsorted := h.sorted e
      rw [h.held_innermost hr, Retaining.ids, append_assoc, pairwise_append] at hsorted
      have hcons := (pairwise_cons.mp (pairwise_append.mp hsorted.2.1).1).1
      exact fun hm => lt_irrefl _ (hcons id hm)
    refine ⟨id, rest, by simp [waiting, hr], by rw [heq]; simp [waiting], hnodup, ?_⟩
    have hc : calling set.proceed = calling' := by
      rw [heq]
      rfl
    rw [hc]
    rcases hcase with ⟨hs, -, rfl, -⟩ | ⟨hs, -, rfl, -⟩ | ⟨hs, -, rfl, -⟩
    · exact .inl ⟨rfl, by simp [hs]⟩
    · exact .inl ⟨rfl, by simp [hs]⟩
    · exact .inr ⟨rfl, hs⟩
  · left
    rw [hr, length_cons] at hlength
    obtain rfl : outer = [] := eq_nil_of_length_eq_zero (by omega)
    rw [heq]
    exact ⟨rfl, by simp [waiting, hr]⟩

lemma proceed_states : set.proceed.states = set.states := by
  rcases set.proceed_cases with heq | ⟨e, kept, id, rest, outer, kept', calling', called, hr, heq,
    -⟩ | ⟨e, kept, outer, hr, heq⟩ <;> rw [heq]

lemma retain_states (k : Emitter) : (set.retain k).states = set.states := by
  cases hg : set.subscribers.get? k <;> simp only [SubscriberSet.retain, hg]

/-- Whether an observer will be called for a notification: the effect waits, behind its
activation, or it is being applied and its turn is to come. -/
def Owed (app : App) (x : ℕ) (n : Notified) : Prop :=
  (∃ before after, app.pendingEffects = before ++ .notify n :: after ∧ .activate x ∉ after) ∨
    app.phase = .applying (.notify n) ∧ x ∈ waiting app.subscribers ∧
      app.subscribers.states x = .active

def Debts (app : App) : Prop :=
  ∀ x n, app.alive x (.observed n) → ∀ a b, app.log = a ++ .notified n :: b →
    .registered x (.observed n) ∈ a → .called x none ∈ b ∨ app.Owed x n

lemma Debts.same (h : app.Debts) (hlog : app'.log = app.log)
    (halive : ∀ x n, app'.alive x (.observed n) → app.alive x (.observed n))
    (howed : ∀ x n, app'.alive x (.observed n) → app.Owed x n → app'.Owed x n) : app'.Debts := by
  intro x n hx a b hsplit hreg
  rw [hlog] at hsplit
  exact (h x n (halive x n hx) a b hsplit hreg).imp_right (howed x n hx)

lemma Debts.append (h : app.Debts) (o : AppObservation) (hlog : app'.log = app.log ++ [o])
    (halive : ∀ x n, app'.alive x (.observed n) → .registered x (.observed n) ∈ app.log →
      app.alive x (.observed n))
    (howed : ∀ x n, app'.alive x (.observed n) → app.alive x (.observed n) → app.Owed x n →
      app'.Owed x n ∨ o = .called x none)
    (hnew : ∀ x n, app'.alive x (.observed n) → app.alive x (.observed n) → o = .notified n →
      app'.Owed x n) : app'.Debts := by
  intro x n hx a b hsplit hreg
  rw [hlog] at hsplit
  rcases snoc_split hsplit with ⟨-, ho, rfl⟩ | ⟨b', rfl, hsplit'⟩
  · exact .inr (hnew x n hx (halive x n hx hreg) ho)
  · have hbefore := halive x n hx (by rw [hsplit']; exact mem_append_left _ hreg)
    rcases h x n hbefore a b' hsplit' hreg with hcalled | hdebt
    · exact .inl (mem_append_left _ hcalled)
    · rcases howed x n hx hbefore hdebt with hdebt' | rfl
      · exact .inr hdebt'
      · exact .inl (mem_append_right _ (by simp))

lemma Owed.push (h : app.Owed x n) (effects : List Effect)
    (hqueue : app'.pendingEffects = app.pendingEffects ++ effects) (hx : .activate x ∉ effects)
    (hphase : app'.phase = app.phase)
    (hwaiting : waiting app'.subscribers = waiting app.subscribers)
    (hstates : app'.subscribers.states x = app.subscribers.states x) : app'.Owed x n := by
  rcases h with ⟨before, after, hq, ha⟩ | ⟨hp, hw, hs⟩
  · refine .inl ⟨before, after ++ effects, by rw [hqueue, hq]; simp, ?_⟩
    rw [mem_append, not_or]
    exact ⟨ha, hx⟩
  · exact .inr ⟨hphase.trans hp, by rw [hwaiting]; exact hw, hstates.trans hs⟩

def FoldsSafely (app : App) (n : Notified) : Prop :=
  n ∈ app.pendingNotifications → ∀ x, app.alive x (.observed n) →
    ∀ before after, app.pendingEffects = before ++ .notify n :: after → .activate x ∉ after

lemma Debts.code (h : app.Debts) (hh : app.Holds)
    (hfolds : ∀ n, event = .notify n → app.FoldsSafely n) : (app.code event).Debts := by
  have hregister : ∀ k eventType, (app.register k eventType).Debts := by
    intro k eventType
    have hexisting : existing (app.register k eventType).subscribers.log =
        existing app.subscribers.log ++ [(app.subscribers.nextSubscriberId, k)] :=
      SubscriberSet.existing_append _ _
    refine h.append (.registered app.subscribers.nextSubscriberId k) rfl (fun x n hx hreg => ?_)
      (fun x n _ hx howed => .inl ?_) (fun x n _ _ ho => by cases ho)
    · refine ⟨?_, hx.2⟩
      have hmem := hx.1
      rw [hexisting, mem_append, mem_singleton, Prod.mk.injEq] at hmem
      refine hmem.resolve_right (fun heq => ?_)
      exact lt_irrefl _ (heq.1 ▸ hh.registered_lt hreg)
    · have hlt := hh.set.subscribed_lt x _ (SubscriberSet.existing_subscribed hx.1)
      refine howed.push [.activate app.subscribers.nextSubscriberId] rfl ?_ rfl rfl ?_
      · rw [mem_singleton, Effect.activate.injEq]
        exact Nat.ne_of_lt hlt
      · exact Function.update_of_ne (Nat.ne_of_lt hlt) _ _
  cases event with
  | observe n => exact hregister _ _
  | subscribe e eventType => exact hregister _ _
  | notify n =>
    have hfold := hfolds n rfl
    simp only [App.code, App.notify, pushEffect]
    split
    · next hn =>
      refine h.append (.notified n) rfl (fun x m hx _ => hx)
        (fun x m _ _ howed => .inl (howed.push [] (by simp) (by simp) rfl rfl rfl))
        (fun x m hx hx' ho => ?_)
      obtain rfl := AppObservation.notified.inj ho
      obtain ⟨before, after, hq⟩ := append_of_mem (hh.pending n hn)
      exact .inl ⟨before, after, hq, hfold hn x hx' before after hq⟩
    · refine h.append (.notified n) rfl (fun x m hx _ => hx)
        (fun x m _ _ howed => .inl (howed.push [.notify n] rfl (by simp) rfl rfl rfl))
        (fun x m hx hx' ho => ?_)
      obtain rfl := AppObservation.notified.inj ho
      exact .inl ⟨app.pendingEffects, [], rfl, by simp⟩
  | emit e eventType event =>
    exact h.append (.emitted e eventType event) rfl (fun x m hx _ => hx)
      (fun x m _ _ howed => .inl (howed.push [.emit e eventType event] rfl (by simp) rfl rfl rfl))
      (fun x m _ _ ho => by cases ho)
  | defer =>
    exact h.same rfl (fun x n hx => hx)
      (fun x n _ howed => howed.push [.defer] rfl (by simp) rfl rfl rfl)
  | drop id =>
    have hstep := setStep_drop hh.set id
    refine h.same rfl (fun x n hx => ⟨(hstep.existing x _ hx.1).1, hx.2⟩)
      (fun x n hx howed => ?_)
    exact howed.push [] (by simp [App.code, dropSubscription]) (by simp) rfl (waiting_drop _ id)
      (hstep.existing x _ hx.1).2
  | dropEntity e =>
    refine h.same rfl (fun x n hx => ⟨hx.1, ?_⟩)
      (fun x n _ howed => howed.push [] (by simp [App.code]) (by simp) rfl rfl rfl)
    have hdropped := hx.2
    cases n with
    | entity id =>
      simp only [isDropped, decide_eq_false_iff_not] at hdropped ⊢
      exact fun hm => hdropped (mem_append_left _ hm)
    | global g => rfl
  | update => exact h
  | finish => exact h
  | release e => exact h
  | applyNext => exact h
  | proceed => exact h
  | callbackReturns keep => exact h

lemma Owed.queued (h : app.Owed x n) (hp : Phase.emitter app.phase = none) :
    ∃ before after, app.pendingEffects = before ++ .notify n :: after ∧ .activate x ∉ after := by
  rcases h with h | ⟨hphase, -⟩
  · exact h
  · rw [hphase] at hp
    cases hp

lemma Debts.applyNext (h : app.Debts) (hh : app.Holds) (hp : Phase.emitter app.phase = none) :
    app.applyNext.Debts := by
  have hnil := hh.retaining_nil hp
  -- an effect other than a notification that is taken leaves what is owed
  have hpop : ∀ {effect effects}, app.pendingEffects = effect :: effects →
      (∀ n, effect ≠ .notify n) → ∀ {x n}, app.Owed x n →
        ∃ before after, effects = before ++ .notify n :: after ∧ .activate x ∉ after := by
    intro effect effects hq hne x n howed
    obtain ⟨before, after, hq', hact⟩ := howed.queued hp
    rw [hq] at hq'
    cases before with
    | nil => exact absurd (List.cons.inj hq').1 (hne n)
    | cons y before => exact ⟨before, after, (List.cons.inj hq').2, hact⟩
  rw [App.applyNext]
  split
  · next hq =>
    refine h.same rfl (fun x n hx => hx) (fun x n _ howed => ?_)
    obtain ⟨before, after, hq', -⟩ := howed.queued hp
    rw [hq] at hq'
    simp at hq'
  · next m effects hq =>
    have hstep := setStep_retain hh.set (hh.not_retains hp (.observed m))
    refine h.same rfl (fun x n hx => ⟨(hstep.existing x _ hx.1).1, hx.2⟩) (fun x n hx howed => ?_)
    obtain ⟨before, after, hq', hact⟩ := howed.queued hp
    rw [hq] at hq'
    cases before with
    | cons y before => exact .inl ⟨before, after, (List.cons.inj hq').2, hact⟩
    | nil =>
      -- the effect taken: the observer is active and its turn is to come
      obtain ⟨hm, rfl⟩ := List.cons.inj hq'
      obtain rfl := Effect.notify.inj hm
      have hexisting := (hstep.existing x _ hx.1).1
      refine .inr ⟨rfl, mem_waiting_retain hh.set hnil hexisting, ?_⟩
      have hactive := hh.active x _ hexisting (by
        rw [hq, mem_cons, not_or]
        exact ⟨by simp, hact⟩)
      exact (congrFun (retain_states app.subscribers _) x).trans hactive
  · next e eventType event effects hq =>
    have hstep := setStep_retain hh.set (hh.not_retains hp (.listened e))
    exact h.same rfl (fun x n hx => ⟨(hstep.existing x _ hx.1).1, hx.2⟩)
      (fun x n _ howed => .inl (hpop hq (by simp) howed))
  · next id effects hq =>
    refine h.same rfl (fun x n hx => ⟨?_, hx.2⟩) (fun x n _ howed => .inl (hpop hq (by simp) howed))
    have hexisting : existing (app.subscribers.activate id).log = existing app.subscribers.log :=
      SubscriberSet.existing_append _ _
    rw [← hexisting]
    exact hx.1
  · next effects hq =>
    exact h.same rfl (fun x n hx => hx) (fun x n _ howed => .inl (hpop hq (by simp) howed))

lemma Owed.turn (h : app.Owed x n) (hqueue : app'.pendingEffects = app.pendingEffects)
    (hphase : app'.phase = app.phase)
    (hwaiting : app.phase = .applying (.notify n) → x ∈ waiting app.subscribers →
      app.subscribers.states x = .active → x ∈ waiting app'.subscribers)
    (hstates : app'.subscribers.states x = app.subscribers.states x) : app'.Owed x n := by
  rcases h with ⟨before, after, hq, ha⟩ | ⟨hp, hw, hs⟩
  · exact .inl ⟨before, after, hqueue.trans hq, ha⟩
  · exact .inr ⟨hphase.trans hp, hwaiting hp hw hs, hstates.trans hs⟩

lemma Debts.proceed (h : app.Debts) (hh : app.Holds) {effect : Effect}
    (hp : app.phase = .applying effect) (hcalling : (calling app.subscribers).isSome = false) :
    (app.proceed effect).Debts := by
  have hstep := setStep_proceed hh.set
  have hstates := proceed_states app.subscribers
  rw [App.proceed]
  split
  · next hnil =>
    have hw := waiting_nil (isEmpty_iff.mp hnil)
    refine h.same rfl (fun x n hx => hx) (fun x n _ howed => ?_)
    rcases howed with howed | ⟨-, hx, -⟩
    · exact .inl howed
    · rw [hw] at hx
      cases hx
  · dsimp only
    have hreturns : ∀ keep, ∀ x n, App.alive { app with
        subscribers := app.subscribers.proceed.callbackReturns keep } x (.observed n) →
          app.alive x (.observed n) := fun keep x n hx =>
      ⟨((hstep.trans (setStep_callbackReturns hstep.holds keep)).existing x _ hx.1).1, hx.2⟩
    rcases waiting_proceed hh.set hh.innermost hcalling with ⟨hnone, hw⟩ | ⟨id, rest, hw, hw', hid, hcase⟩
    · rw [hnone]
      exact h.same rfl (fun x n hx => ⟨(hstep.existing x _ hx.1).1, hx.2⟩)
        (fun x n _ howed => howed.turn rfl rfl (fun _ hx _ => hw ▸ hx) (congrFun hstates x))
    rcases hcase with ⟨hnone, hinactive⟩ | ⟨hsome, hactive⟩
    · rw [hnone]
      refine h.same rfl (fun x n hx => ⟨(hstep.existing x _ hx.1).1, hx.2⟩)
        (fun x n _ howed => howed.turn rfl rfl (fun _ hx hs => ?_) (congrFun hstates x))
      rw [hw, mem_cons] at hx
      rw [hw']
      exact hx.resolve_left (fun heq => hinactive (heq ▸ hs))
    rw [hsome]
    cases effect with
    | notify m =>
      simp only [call]
      split
      · -- the entity is gone: nobody alive is owed a call of this effect
        next hdropped =>
        refine h.same rfl (hreturns false) (fun x n hx howed => howed.turn rfl rfl (fun hphase _ _ => ?_)
          ?_)
        · rw [hp, Phase.applying.injEq, Effect.notify.injEq] at hphase
          have := hx.2
          rw [← hphase] at this
          exact absurd hdropped (by simpa [isDropped] using this)
        · exact (congrFun (callbackReturns_states _ false) x).trans (congrFun hstates x)
      · refine h.append (.called id none) rfl (fun x n hx _ => ⟨(hstep.existing x _ hx.1).1, hx.2⟩)
          (fun x n _ _ howed => ?_) (fun x n _ _ ho => by cases ho)
        by_cases hx : x = id
        · exact .inr (by rw [hx])
        · refine .inl (howed.turn rfl rfl (fun _ hxw _ => ?_) (congrFun hstates x))
          rw [hw, mem_cons] at hxw
          rw [hw']
          exact hxw.resolve_left hx
    | emit e eventType event =>
      have hother : ∀ {n : Notified}, app.phase ≠ .applying (.notify n) := by
        intro n hphase
        rw [hp] at hphase
        cases hphase
      simp only [call]
      split
      · exact h.same rfl (hreturns true) (fun x n _ howed => howed.turn rfl rfl
          (fun hphase _ _ => absurd hphase hother)
          ((congrFun (callbackReturns_states _ true) x).trans (congrFun hstates x)))
      · split
        · exact h.same rfl (hreturns false) (fun x n _ howed => howed.turn rfl rfl
            (fun hphase _ _ => absurd hphase hother)
            ((congrFun (callbackReturns_states _ false) x).trans (congrFun hstates x)))
        · exact h.append (.called id (some event)) rfl
            (fun x n hx _ => ⟨(hstep.existing x _ hx.1).1, hx.2⟩)
            (fun x n _ _ howed => .inl (howed.turn rfl rfl
              (fun hphase _ _ => absurd hphase hother) (congrFun hstates x)))
            (fun x n _ _ ho => by cases ho)
    | activate i => exact h
    | defer => exact h

theorem Debts.step (h : app.Debts) (hh : app.Holds)
    (hfolds : ∀ n, event = .notify n → app.FoldsSafely n) : (app.step event).Debts := by
  rcases app.step_cases event with heq | ⟨phase, heq, hp⟩ | ⟨heq, -⟩ | ⟨e, -, heq, hp⟩ | ⟨heq, hp⟩ |
    ⟨effect, keep, -, -, heq⟩ | ⟨effect, hp, hcalling, heq⟩ <;> rw [heq]
  · exact h
  · refine h.same rfl (fun x n hx => hx) (fun x n _ howed => .inl (howed.queued ?_))
    rcases hp with ⟨hp, -⟩ | ⟨hp, -⟩ <;> rw [hp] <;> rfl
  · exact h.code hh hfolds
  · have hnone : Phase.emitter app.phase = none := by rw [hp]; rfl
    have hstep := setStep_release hh hnone e
    exact h.same rfl (fun x n hx => ⟨(hstep.existing x _ hx.1).1, hx.2⟩)
      (fun x n _ howed => .inl (howed.queued hnone))
  · exact h.applyNext hh (by rw [hp]; rfl)
  · have hstep := setStep_callbackReturns hh.set keep
    refine h.same rfl (fun x n hx => ⟨(hstep.existing x _ hx.1).1, hx.2⟩)
      (fun x n _ howed => howed.turn rfl rfl (fun _ hx _ => ?_)
        (congrFun (callbackReturns_states _ keep) x))
    rw [waiting_callbackReturns]
    exact hx
  · exact h.proceed hh hp hcalling

end App

end GpuiFast
