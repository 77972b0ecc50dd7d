import GpuiFast.AppEffectsEvents

namespace GpuiFast

open List

namespace App

def ObserversCalled (app : App) : Prop :=
  ∀ x n, app.alive x (.observed n) → ∀ a b, app.log = a ++ .notified n :: b →
    .registered x (.observed n) ∈ a → .called x none ∈ b

/-- Whether listeners were called in order with events emitted since they were registered only, and
with all of them while they are alive. -/
def ListenersCalled (app : App) : Prop :=
  ∀ x e a b, app.log = a ++ .registered x (.listened e) :: b →
    delivered x a = [] ∧ delivered x b <+: emittedBy e (app.listenerTypes x) b ∧
      (app.alive x (.listened e) → delivered x b = emittedBy e (app.listenerTypes x) b)

def runsCode (app : App) : Prop :=
  app.phase = .running ∨ ∃ effect, app.phase = .applying effect ∧ (calling app.subscribers).isSome

def NotifiesSafely (events : List Event) : Prop :=
  ∀ before n after, events = before ++ .notify n :: after → (run before).runsCode →
    (run before).FoldsSafely n

variable (app : App)

lemma code_phase (event : Event) : (app.code event).phase = app.phase := by
  cases event with
  | notify n =>
    simp only [App.code, App.notify, pushEffect]
    split <;> rfl
  | _ => rfl

lemma call_phase (set : SubscriberSet Emitter) (id : ℕ) (effect : Effect) :
    (app.call set id effect).phase = app.phase := by
  cases effect with
  | notify n =>
    simp only [App.call]
    split <;> rfl
  | emit e eventType event =>
    simp only [App.call]
    split
    · rfl
    · split <;> rfl
  | activate id => rfl
  | defer => rfl

variable (events : List Event)

lemma pendingEffects_of_idle (h : (run events).phase = .idle) :
    (run events).pendingEffects = [] := by
  induction events using reverseRecOn with
  | nil => rfl
  | append_singleton events event ih =>
    rw [run, foldl_append] at h ⊢
    change ((run events).step event).phase = .idle at h
    change ((run events).step event).pendingEffects = []
    rcases (run events).step_cases event with heq | ⟨phase, heq, hp⟩ | ⟨heq, hp⟩ | ⟨e, -, heq, hp⟩ |
      ⟨heq, hp⟩ | ⟨effect, keep, hp, -, heq⟩ | ⟨effect, hp, -, heq⟩ <;> rw [heq] at h ⊢
    · exact ih h
    · rcases hp with ⟨-, rfl⟩ | ⟨-, rfl⟩ <;> cases h
    · rw [code_phase] at h
      rcases hp with hp | ⟨effect, hp, -⟩ <;> rw [hp] at h <;> cases h
    · cases h
    · rw [App.applyNext] at h ⊢
      split at h
      · next hq => exact hq
      · cases h
      · cases h
      · exact absurd (hp.symm.trans h) (by simp)
      · cases h
    · exact absurd (hp.symm.trans h) (by simp)
    · rw [App.proceed] at h
      split at h
      · cases h
      · dsimp only at h
        split at h
        · exact absurd (hp.symm.trans h) (by simp)
        · rw [call_phase] at h
          exact absurd (hp.symm.trans h) (by simp)

lemma step_of_not_runsCode {app : App} (h : ¬ app.runsCode) (n : Notified) :
    app.step (.notify n) = app := by
  unfold step
  cases hp : app.phase with
  | idle => rfl
  | running => exact absurd (.inl hp) h
  | flushing => rfl
  | applying effect =>
    dsimp only
    rw [if_neg (fun hc => h (.inr ⟨effect, hp, hc⟩))]

theorem debts_run (h : NotifiesSafely events) : (run events).Debts := by
  induction events using reverseRecOn with
  | nil =>
    intro x n _ a b hsplit
    simp [run, new] at hsplit
  | append_singleton events event ih =>
    have hd := ih (fun before n after heq => h before n (after ++ [event]) (by simp [heq]))
    rw [run, foldl_append]
    change ((run events).step event).Debts
    by_cases hcode : (run events).runsCode
    · exact hd.step (holds_run events) (fun n hn => h events n [] (by rw [hn]) hcode)
    · -- a notification that nothing can make now changes nothing
      by_cases hn : ∃ n, event = .notify n
      · obtain ⟨n, rfl⟩ := hn
        rw [step_of_not_runsCode hcode]
        exact hd
      · exact hd.step (holds_run events) (fun n heq => absurd ⟨n, heq⟩ hn)

theorem delivers_run : (run events).Delivers := by
  induction events using reverseRecOn with
  | nil =>
    intro x e a b hsplit
    simp [run, new] at hsplit
  | append_singleton events event ih =>
    rw [run, foldl_append]
    exact ih.step (holds_run events) event

/-- When the effects of an update are flushed, no observer that is alive missed a notification, if
none was folded into an effect before an observer's activation; and no listener missed an event. -/
theorem run_calls (events : List Event) (hidle : (run events).phase = .idle)
    (hsafe : NotifiesSafely events) : (run events).ObserversCalled ∧ (run events).ListenersCalled := by
  have hqueue := pendingEffects_of_idle events hidle
  constructor
  · intro x n hx a b hsplit hreg
    refine (debts_run events hsafe x n hx a b hsplit hreg).resolve_right ?_
    rintro (⟨before, after, hq, -⟩ | ⟨hp, -⟩)
    · rw [hqueue] at hq
      simp at hq
    · rw [hidle] at hp
      cases hp
  · intro x e a b hsplit
    obtain ⟨h1, h2, h3⟩ := delivers_run events x e a b hsplit
    refine ⟨h1, h2, fun hx => ?_⟩
    rw [h3 hx, due_eq_queuedFor (by simp [hidle]), hqueue]
    exact (append_nil _).symm

def observedThenNotified : List Event :=
  [.update, .observe (.entity 1), .subscribe 1 0, .notify (.entity 1), .emit 1 0 7, .finish,
    .applyNext, .applyNext, .applyNext, .proceed, .callbackReturns true, .proceed, .proceed, .applyNext,
    .proceed, .callbackReturns true, .proceed, .proceed, .applyNext]

theorem run_calls_observedThenNotified :
    (run observedThenNotified).alive 0 (.observed (.entity 1)) ∧
      (run observedThenNotified).alive 1 (.listened 1) ∧
      (run observedThenNotified).log = [.registered 0 (.observed (.entity 1)),
        .registered 1 (.listened 1), .notified (.entity 1), .emitted 1 0 7, .called 0 none,
        .called 1 (some 7)] ∧
      (run observedThenNotified).ObserversCalled ∧ (run observedThenNotified).ListenersCalled := by
  refine ⟨⟨by decide, by decide⟩, ⟨by decide, by decide⟩, by decide,
    run_calls observedThenNotified (by decide) ?_⟩
  intro before n after heq _ hn
  -- the only notification is the fourth event, and nothing is pending before it
  have hbefore : (run [.update, .observe (.entity 1), .subscribe 1 0]).pendingNotifications = [] := by
    decide
  rcases before with _ | ⟨a, _ | ⟨b, _ | ⟨c, _ | ⟨d, before⟩⟩⟩⟩
  · simp [observedThenNotified] at heq
  · simp [observedThenNotified] at heq
  · simp [observedThenNotified] at heq
  · simp only [observedThenNotified, cons_append, List.cons.injEq] at heq
    obtain ⟨rfl, rfl, rfl, -⟩ := heq
    rw [hbefore] at hn
    cases hn
  · simp only [observedThenNotified, cons_append, List.cons.injEq] at heq
    have hmem := mem_append_right before (mem_cons_self (a := Event.notify n) (l := after))
    rw [← heq.2.2.2.2] at hmem
    simp at hmem

def observedBetween : List Event :=
  [.update, .notify (.entity 1), .observe (.entity 1), .notify (.entity 1), .finish, .applyNext,
    .proceed, .proceed, .proceed, .proceed, .applyNext, .applyNext]

/-- The second notification is folded into the first one's effect, which is applied before the
observer is active. -/
theorem not_observersCalled_observedBetween :
    ¬ ∀ events, (run events).phase = .idle →
      (run events).ObserversCalled ∧ (run events).ListenersCalled := by
  intro h
  have hcalled := (h observedBetween (by decide)).1 0 (.entity 1) ⟨by decide, by decide⟩
    [.notified (.entity 1), .registered 0 (.observed (.entity 1))] [] (by decide) (by decide)
  cases hcalled

end App

end GpuiFast
