import GpuiFast.ListSplit
import GpuiFast.SubscribersHold

namespace GpuiFast

open List

namespace SubscriberSet

variable {κ : Type*} [DecidableEq κ]

/-- What a retain of `emitter` does for the subscribers that existed before it. -/
structure RetainedAll (emitter : κ) (before during : List (Observation κ)) : Prop where
  registered : (((existing before).filter (fun s => s.2 = emitter)).map Prod.fst).Sublist
    ((turns emitter during).map Prod.fst)
  once : ((turns emitter during).map Prod.fst).Nodup
  called : ∀ a x c b, during = a ++ .turn emitter x c :: b →
    (c = true ↔ (x, emitter) ∈ existing before ∧ isActive (before ++ .retain emitter :: a) x)

/-- What a retain has done when `waiting` have still to have their turn. -/
structure Progress (emitter : κ) (waiting : List ℕ) (before during : List (Observation κ)) :
    Prop where
  not_retain : .retain emitter ∉ during
  not_retained : .retained emitter ∉ during
  existing_sorted : ((existing before).map Prod.fst).Pairwise (· < ·)
  sorted : ((turns emitter during).map Prod.fst ++ waiting).Pairwise (· < ·)
  reached : ∀ x, (x, emitter) ∈ existing before →
    x ∈ (turns emitter during).map Prod.fst ++ waiting
  origin : ∀ x ∈ waiting, (x, emitter) ∈ existing before ∨ .dropped x ∈ before
  called : ∀ a x c b, during = a ++ .turn emitter x c :: b →
    (c = true ↔ (x, emitter) ∈ existing before ∧ isActive (before ++ .retain emitter :: a) x)

lemma turns_append (emitter : κ) (log log' : List (Observation κ)) :
    turns emitter (log ++ log') = turns emitter log ++ turns emitter log' :=
  filterMap_append

/-- Whether an observation is of a retain of `emitter`. -/
def OfRetain (emitter : κ) (o : Observation κ) : Prop :=
  o = .retain emitter ∨ o = .retained emitter ∨ ∃ x c, o = .turn emitter x c

variable {emitter : κ} {o : Observation κ} {before during : List (Observation κ)}
  {set : SubscriberSet κ}

lemma turns_singleton (h : ¬ OfRetain emitter o) : turns emitter [o] = [] := by
  cases o with
  | turn e id called =>
    have he : e ≠ emitter := by
      rintro rfl
      exact h (.inr (.inr ⟨id, called, rfl⟩))
    simp [turns, he]
  | _ => rfl

variable {waiting : List ℕ} {log : List (Observation κ)} {set' : SubscriberSet κ}

lemma Progress.append (h : Progress emitter waiting before during) (ho : ¬ OfRetain emitter o) :
    Progress emitter waiting before (during ++ [o]) := by
  have hturns : turns emitter (during ++ [o]) = turns emitter during := by
    rw [turns_append, turns_singleton ho, append_nil]
  refine ⟨?_, ?_, h.existing_sorted, by rw [hturns]; exact h.sorted,
    by rw [hturns]; exact h.reached, h.origin, fun a x c b hsplit => ?_⟩
  · rw [mem_append, mem_singleton, not_or]
    exact ⟨h.not_retain, fun heq => ho (.inl heq.symm)⟩
  · rw [mem_append, mem_singleton, not_or]
    exact ⟨h.not_retained, fun heq => ho (.inr (.inl heq.symm))⟩
  · rcases snoc_split hsplit with ⟨-, heq, -⟩ | ⟨b', -, hsplit'⟩
    · exact absurd (.inr (.inr ⟨x, c, heq⟩)) ho
    · exact h.called a x c b' hsplit'

lemma Progress.turn {id : ℕ} (h : Progress emitter (id :: waiting) before during) {called : Bool}
    (hcalled : called = true ↔ isActive (before ++ .retain emitter :: during) id) :
    Progress emitter waiting before (during ++ [.turn emitter id called]) := by
  have hturns : turns emitter (during ++ [.turn emitter id called]) =
      turns emitter during ++ [(id, called)] := by
    rw [turns_append]
    simp [turns]
  have hids : (turns emitter (during ++ [.turn emitter id called])).map Prod.fst ++ waiting =
      (turns emitter during).map Prod.fst ++ id :: waiting := by
    rw [hturns]
    simp
  refine ⟨?_, ?_, h.existing_sorted, by rw [hids]; exact h.sorted, by rw [hids]; exact h.reached,
    fun x hx => h.origin x (mem_cons_of_mem _ hx), fun a x c b hsplit => ?_⟩
  · rw [mem_append, not_or]
    exact ⟨h.not_retain, by simp⟩
  · rw [mem_append, not_or]
    exact ⟨h.not_retained, by simp⟩
  · rcases snoc_split hsplit with ⟨-, heq, rfl⟩ | ⟨b', -, hsplit'⟩
    · obtain ⟨-, rfl, rfl⟩ := (Observation.turn.injEq ..).mp heq
      rw [hcalled]
      refine ⟨fun hactive => ⟨?_, hactive⟩, fun hx => hx.2⟩
      rcases h.origin id (mem_cons_self ..) with hex | hdropped
      · exact hex
      · exact absurd (mem_append_left _ hdropped) hactive.2
    · exact h.called a x c b' hsplit'

lemma Progress.retainedAll (h : Progress emitter [] before during) :
    RetainedAll emitter before during := by
  have hsorted := h.sorted
  rw [append_nil] at hsorted
  have hnodup : ((turns emitter during).map Prod.fst).Nodup :=
    hsorted.imp (fun hlt => Nat.ne_of_lt hlt)
  refine ⟨?_, hnodup, h.called⟩
  have hfilter : (((existing before).filter (fun s => s.2 = emitter)).map Prod.fst).Pairwise
      (· < ·) := h.existing_sorted.sublist (filter_sublist.map _)
  refine sublist_of_subperm_of_pairwise (r := (· < ·)) ?_ hfilter hsorted
  refine subperm_of_subset (hfilter.imp (fun hlt => Nat.ne_of_lt hlt)) (fun x hx => ?_)
  obtain ⟨⟨x, k⟩, hmem, rfl⟩ := mem_map.mp hx
  rw [mem_filter] at hmem
  have hk : k = emitter := by simpa using hmem.2
  have hreached := h.reached x (hk ▸ hmem.1)
  rwa [append_nil] at hreached

/-- What a log says: retains that ended did what they are for, those that have begun are under
way, and nothing was called after it was dropped. -/
structure Logged (set : SubscriberSet κ) : Prop where
  complete : ∀ before k during after,
    set.log = before ++ .retain k :: during ++ .retained k :: after →
      .retain k ∉ during → .retained k ∉ during → RetainedAll k before during
  progress : ∀ r ∈ set.retaining, ∃ before during,
    set.log = before ++ .retain r.emitter :: during ∧ Progress r.emitter r.waiting before during
  calls : ∀ before k x after, set.log = before ++ .turn k x true :: after → .dropped x ∉ before

lemma complete_append
    (h : ∀ before k during after, log = before ++ .retain k :: during ++ .retained k :: after →
      .retain k ∉ during → .retained k ∉ during → RetainedAll k before during)
    (hend : ∀ before k during, o = .retained k → log = before ++ .retain k :: during →
      .retain k ∉ during → RetainedAll k before during) (before : List (Observation κ)) (k : κ)
    (during after : List (Observation κ))
    (hlog : log ++ [o] = before ++ .retain k :: during ++ .retained k :: after)
    (hr : .retain k ∉ during) (hr' : .retained k ∉ during) : RetainedAll k before during := by
  rcases snoc_split hlog with ⟨-, ho, hl⟩ | ⟨after', -, hl⟩
  · exact hend before k during ho hl hr
  · exact h before k during after' hl hr hr'

omit [DecidableEq κ] in
lemma calls_append
    (h : ∀ before k x after, log = before ++ .turn k x true :: after → .dropped x ∉ before)
    (ho : ∀ k x, o = .turn k x true → .dropped x ∉ log) (before : List (Observation κ)) (k : κ)
    (x : ℕ) (after : List (Observation κ)) (hlog : log ++ [o] = before ++ .turn k x true :: after) :
    .dropped x ∉ before := by
  rcases snoc_split hlog with ⟨-, heq, rfl⟩ | ⟨after', -, hl⟩
  · exact ho k x heq
  · exact h before k x after' hl

lemma Logged.append (h : set.Logged) (hlog : set'.log = set.log ++ [o]) (ho : ∀ k, ¬ OfRetain k o)
    (hretaining : ∀ r' ∈ set'.retaining, ∃ r ∈ set.retaining, r'.emitter = r.emitter ∧
      r'.waiting = r.waiting) : set'.Logged := by
  refine ⟨?_, fun r' hr' => ?_, ?_⟩
  · rw [hlog]
    exact complete_append h.complete
      (fun before k during heq => absurd (.inr (.inl heq)) (ho k))
  · obtain ⟨r, hr, he, hw⟩ := hretaining r' hr'
    obtain ⟨before, during, hl, hp⟩ := h.progress r hr
    rw [he, hw]
    exact ⟨before, during ++ [o], by rw [hlog, hl]; simp, hp.append (ho _)⟩
  · rw [hlog]
    exact calls_append h.calls
      (fun k x heq => absurd (.inr (.inr ⟨x, true, heq⟩)) (ho k))

lemma Logged.same (h : set.Logged) (hlog : set'.log = set.log)
    (hretaining : ∀ r' ∈ set'.retaining, ∃ r ∈ set.retaining, r'.emitter = r.emitter ∧
      r'.waiting = r.waiting) : set'.Logged := by
  refine ⟨by rw [hlog]; exact h.complete, fun r' hr' => ?_, by rw [hlog]; exact h.calls⟩
  obtain ⟨r, hr, he, hw⟩ := hretaining r' hr'
  rw [hlog, he, hw]
  exact h.progress r hr

lemma Logged.retain (h : set.Logged) (hh : set.Holds) {e : κ} (he : ¬ set.retains e) :
    (set.retain e).Logged := by
  have hne : ∀ r ∈ set.retaining, r.emitter ≠ e := by
    intro r hr heq
    exact he (any_eq_true.mpr ⟨r, hr, by simpa using heq⟩)
  have hof : ∀ r ∈ set.retaining, ¬ OfRetain r.emitter (.retain e) := by
    rintro r hr (heq | heq | ⟨x, c, heq⟩)
    · exact hne r hr (Observation.retain.inj heq).symm
    · cases heq
    · cases heq
  have hof' : ∀ r ∈ set.retaining, ¬ OfRetain r.emitter (.retained e) := by
    rintro r hr (heq | heq | ⟨x, c, heq⟩)
    · cases heq
    · exact hne r hr (Observation.retained.inj heq).symm
    · cases heq
  have hcomplete := complete_append (o := .retain e) h.complete
    (fun _ _ _ heq => by cases heq)
  have hcalls := calls_append (o := .retain e) h.calls (fun _ _ heq => by cases heq)
  cases hg : set.subscribers.get? e with
  | none =>
    have hlog : (set.retain e).log = set.log ++ [.retain e] ++ [.retained e] := by
      simp [SubscriberSet.retain, hg]
    have hretaining : (set.retain e).retaining = set.retaining := by
      simp [SubscriberSet.retain, hg]
    refine ⟨?_, fun r hr => ?_, ?_⟩
    · rw [hlog]
      refine complete_append hcomplete (fun before k during heq hl hnot => ?_)
      obtain rfl := Observation.retained.inj heq
      obtain ⟨rfl, rfl⟩ := last_split_unique hl (by simp) hnot
      -- an emitter with no map has no subscriber
      refine ⟨?_, by simp [turns], fun a x c b hsplit => by simp at hsplit⟩
      have hnil : (existing set.log).filter (fun s => s.2 = e) = [] := by
        rw [filter_eq_nil_iff]
        rintro ⟨x, k⟩ hmem hk
        obtain rfl : k = e := of_decide_eq_true hk
        have hx := hh.existing_held x k hmem
        rw [held_of_not_retains he, ids, hg] at hx
        cases hx
      rw [hnil]
      exact nil_sublist _
    · rw [hretaining] at hr
      obtain ⟨before, during, hl, hp⟩ := h.progress r hr
      exact ⟨before, during ++ [.retain e] ++ [.retained e], by rw [hlog, hl]; simp,
        (hp.append (hof r hr)).append (hof' r hr)⟩
    · rw [hlog]
      exact calls_append hcalls (fun _ _ heq => by cases heq)
  | some l =>
    have hlog : (set.retain e).log = set.log ++ [.retain e] := by
      simp [SubscriberSet.retain, hg]
    have hretaining : (set.retain e).retaining = ⟨e, [], none, l⟩ :: set.retaining := by
      simp [SubscriberSet.retain, hg]
    have hheld : set.held e = l := by
      rw [held_of_not_retains he, ids, hg]
      rfl
    refine ⟨by rw [hlog]; exact hcomplete, fun r hr => ?_, by rw [hlog]; exact hcalls⟩
    rw [hretaining, mem_cons] at hr
    rcases hr with rfl | hr
    · refine ⟨set.log, [], hlog, by simp, by simp, hh.existing_sorted, ?_, fun x hx => ?_,
        fun x hx => ?_, fun a x c b hsplit => by simp at hsplit⟩
      · have := hh.sorted e
        rw [hheld] at this
        simpa [turns] using this
      · have := hh.existing_held x e hx
        rw [hheld] at this
        simpa [turns] using this
      · exact hh.held_existing x e (by rw [hheld]; exact hx)
    · obtain ⟨before, during, hl, hp⟩ := h.progress r hr
      exact ⟨before, during ++ [.retain e], by rw [hlog, hl]; simp, hp.append (hof r hr)⟩

lemma Logged.proceed (h : set.Logged) (hh : set.Holds) : set.proceed.Logged := by
  rcases set.proceed_cases with heq | ⟨e, kept, id, waiting, outer, kept', calling, called, hr, heq,
    hcase⟩ | ⟨e, kept, outer, hr, heq⟩
  · rw [heq]
    exact h
  · have hlog : set.proceed.log = set.log ++ [.turn e id called] := by rw [heq]
    have hretaining : set.proceed.retaining = ⟨e, kept', calling, waiting⟩ :: outer := by rw [heq]
    have hactive : called = true ↔ isActive set.log id := by
      rw [← hh.active_iff]
      rcases hcase with ⟨hs, -, -, rfl⟩ | ⟨hs, -, -, rfl⟩ | ⟨hs, -, -, rfl⟩ <;> simp [hs]
    refine ⟨?_, fun r hmem => ?_, ?_⟩
    · rw [hlog]
      exact complete_append h.complete (fun _ _ _ heq => by cases heq)
    · rw [hretaining, mem_cons] at hmem
      rcases hmem with rfl | hmem
      · obtain ⟨before, during, hl, hp⟩ :=
          h.progress ⟨e, kept, none, id :: waiting⟩ (by rw [hr]; exact mem_cons_self ..)
        exact ⟨before, during ++ [.turn e id called], by rw [hlog, hl]; simp,
          hp.turn (by rw [hactive, hl])⟩
      · obtain ⟨before, during, hl, hp⟩ :=
          h.progress r (by rw [hr]; exact mem_cons_of_mem _ hmem)
        refine ⟨before, during ++ [.turn e id called], by rw [hlog, hl]; simp, hp.append ?_⟩
        rintro (heq | heq | ⟨x, c, heq⟩)
        · cases heq
        · cases heq
        · exact hh.nodup_cons hr r hmem ((Observation.turn.injEq ..).mp heq).1.symm
    · rw [hlog]
      refine calls_append h.calls (fun k x heq => ?_)
      obtain ⟨-, rfl, rfl⟩ := (Observation.turn.injEq ..).mp heq
      exact (hactive.mp rfl).2
  · have hlog : set.proceed.log = set.log ++ [.retained e] := by rw [heq]
    have hretaining : set.proceed.retaining = outer := by rw [heq]
    obtain ⟨before, during, hl, hp⟩ :=
      h.progress ⟨e, kept, none, []⟩ (by rw [hr]; exact mem_cons_self ..)
    refine ⟨?_, fun r hmem => ?_, ?_⟩
    · rw [hlog]
      refine complete_append h.complete (fun before' k during' heq hl' hnot => ?_)
      obtain rfl := Observation.retained.inj heq
      obtain ⟨rfl, rfl⟩ := last_split_unique (hl.symm.trans hl') hp.not_retain hnot
      exact hp.retainedAll
    · rw [hretaining] at hmem
      obtain ⟨before, during, hl, hp⟩ :=
        h.progress r (by rw [hr]; exact mem_cons_of_mem _ hmem)
      refine ⟨before, during ++ [.retained e], by rw [hlog, hl]; simp, hp.append ?_⟩
      rintro (heq | heq | ⟨x, c, heq⟩)
      · cases heq
      · exact hh.nodup_cons hr r hmem (Observation.retained.inj heq).symm
      · cases heq
    · rw [hlog]
      exact calls_append h.calls (fun _ _ heq => by cases heq)

omit [DecidableEq κ] in
lemma retaining_refl (set : SubscriberSet κ) : ∀ r' ∈ set.retaining, ∃ r ∈ set.retaining,
    r'.emitter = r.emitter ∧ r'.waiting = r.waiting :=
  fun r hr => ⟨r, hr, rfl, rfl⟩

lemma Logged.callbackReturns (h : set.Logged) (keep : Bool) :
    (set.callbackReturns keep).Logged := by
  rcases set.callbackReturns_cases keep with heq | ⟨e, kept, id, waiting, outer, kept', hr, heq, -⟩
  · rw [heq]
    exact h
  have hretaining : ∀ r' ∈ (set.callbackReturns keep).retaining, ∃ r ∈ set.retaining,
      r'.emitter = r.emitter ∧ r'.waiting = r.waiting := by
    rw [heq, hr]
    intro r' hr'
    rcases mem_cons.mp hr' with rfl | hr'
    · exact ⟨_, mem_cons_self .., rfl, rfl⟩
    · exact ⟨r', mem_cons_of_mem _ hr', rfl, rfl⟩
  cases keep with
  | true => exact h.same (by rw [heq]; rfl) hretaining
  | false => exact h.append (o := .rejected id) (by rw [heq]; rfl) (by simp [OfRetain]) hretaining

theorem Logged.step (h : set.Logged) (hh : set.Holds) (event : Event κ) :
    (set.step event).Logged := by
  have hinsert : ∀ e, (set.insertPending e).Logged := fun e =>
    h.append (o := .subscribed set.nextSubscriberId e) rfl (by simp [OfRetain]) set.retaining_refl
  cases event with
  | insert e =>
    simp only [SubscriberSet.step]
    split
    · exact (hinsert e).append (o := .activated set.nextSubscriberId) rfl (by simp [OfRetain])
        (set.insertPending e).retaining_refl
    · exact h
  | insertPending e => exact iteInduction (fun _ => hinsert e) fun _ => h
  | activate id =>
    exact iteInduction (fun _ => h.append (o := .activated id) rfl (by simp [OfRetain]) set.retaining_refl) fun _ => h
  | drop id =>
    simp only [SubscriberSet.step]
    split
    · cases hg : set.subscriptions.get? id with
      | none =>
        simp only [SubscriberSet.drop, hg]
        exact h
      | some e =>
        refine h.append (o := .dropped id) (by simp only [SubscriberSet.drop, hg])
          (by simp [OfRetain]) ?_
        simp only [SubscriberSet.drop, hg]
        exact set.retaining_refl
    · exact h
  | remove e =>
    exact iteInduction (fun _ => h.append (o := .removed e _) rfl (by simp [OfRetain]) set.retaining_refl) fun _ => h
  | retain e => exact iteInduction (fun he => h.retain hh he.2) fun _ => h
  | proceed => exact h.proceed hh
  | callbackReturns keep => exact h.callbackReturns keep

lemma logged_run (events : List (Event κ)) : (run events).Logged := by
  induction events using reverseRecOn with
  | nil => exact ⟨fun _ _ _ _ h => by simp [run, new] at h, fun _ h => by simp [run, new] at h,
      fun _ _ _ _ h => by simp [run, new] at h⟩
  | append_singleton events event ih =>
    rw [run, foldl_append]
    exact ih.step (holds_run events) event

/-- For every run of a subscriber set: a retain that has ended came to the turn of every subscriber
there was when it began, once and in the order they were registered in, and called it exactly if it
was active and not dropped at its turn; nothing was called after it was dropped; and whatever is
neither dropped, removed nor rejected is in the set, or with a retain of its emitter under way. -/
theorem run_retains (events : List (Event κ)) :
    (∀ before k during after,
      (run events).log = before ++ .retain k :: during ++ .retained k :: after →
        .retain k ∉ during → .retained k ∉ during → RetainedAll k before during) ∧
    (∀ before k x after,
      (run events).log = before ++ .turn k x true :: after → .dropped x ∉ before) ∧
    ∀ x k, (x, k) ∈ existing (run events).log → x ∈ (run events).ids k ∨
      ∃ r ∈ (run events).retaining, r.emitter = k ∧ x ∈ r.kept ++ r.calling.toList ++ r.waiting := by
  refine ⟨(logged_run events).complete, (logged_run events).calls, fun x k hx => ?_⟩
  have hheld := (holds_run events).existing_held x k hx
  rw [held, mem_append, mem_flatMap] at hheld
  rcases hheld with ⟨r, hr, hx⟩ | hx
  · rw [mem_filter] at hr
    exact .inr ⟨r, hr.1, of_decide_eq_true hr.2, hx⟩
  · exact .inl hx

def droppedThenActivated : List (Event ℕ) :=
  [.insertPending 1, .insertPending 1, .activate 0, .retain 1, .proceed, .drop 1, .activate 1,
    .callbackReturns true, .proceed, .proceed]

theorem run_retains_droppedThenActivated :
    (run droppedThenActivated).log =
        [.subscribed 0 1, .subscribed 1 1, .activated 0] ++
          .retain 1 :: [.turn 1 0 true, .dropped 1, .activated 1, .turn 1 1 false] ++
            [.retained 1] ∧
      RetainedAll 1 [.subscribed 0 1, .subscribed 1 1, .activated 0]
        [.turn 1 0 true, .dropped 1, .activated 1, .turn 1 1 false] :=
  ⟨by decide, (run_retains droppedThenActivated).1 _ 1 _ [] (by decide) (by decide) (by decide)⟩

end SubscriberSet

end GpuiFast
