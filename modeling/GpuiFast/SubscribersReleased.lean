import GpuiFast.SingleSubscribers
import GpuiFast.SubscribersHold
import Mathlib.Tactic.IntervalCases

namespace GpuiFast

open List

namespace SubscriberSet

variable {κ : Type*} [DecidableEq κ]

def ReleasesDropped (set : SubscriberSet κ) : Prop :=
  set.retaining = [] → ∀ k ids, set.subscribers.get? k = some ids →
    ids ≠ [] ∧ ∀ x ∈ ids, set.states x ≠ .dropped

def NotPassed (set : SubscriberSet κ) (id : ℕ) : Prop := ∀ r ∈ set.retaining, id ∉ r.kept

instance (set : SubscriberSet κ) (id : ℕ) : Decidable (set.NotPassed id) :=
  inferInstanceAs (Decidable (∀ r ∈ set.retaining, id ∉ r.kept))

def EmptyRetained (set : SubscriberSet κ) : Prop :=
  ∀ k, set.subscribers.get? k = some [] → set.retains k

lemma insertId_ne_nil (id : ℕ) (ids : List ℕ) : insertId id ids ≠ [] := by
  rw [insertId]
  split
  · next h => exact ne_nil_of_mem h
  · exact ne_nil_of_mem ((mem_orderedInsert (· ≤ ·)).mpr (.inl rfl))

variable {set : SubscriberSet κ}

section

variable (h : set.EmptyRetained)
include h

variable (e : κ)

lemma EmptyRetained.insertPending : (set.insertPending e).EmptyRetained := by
  intro k hk
  simp only [SubscriberSet.insertPending, KeyMap.get?_insert] at hk
  split at hk
  · exact absurd (Option.some.inj hk) (insertId_ne_nil _ _)
  · exact h k hk

lemma EmptyRetained.filter {k : κ}
    (hk : (set.subscribers.filter (fun e' _ => e' ≠ e)).get? k = some []) : set.retains k := by
  rw [KeyMap.get?_filter, Option.filter_eq_some_iff] at hk
  exact h k hk.1

lemma EmptyRetained.drop (id : ℕ) : (set.drop id).EmptyRetained := by
  cases he : set.subscriptions.get? id with
  | none =>
    simp only [SubscriberSet.drop, he]
    exact h
  | some e =>
    intro k hk
    have hretains : (set.drop id).retains k = set.retains k := by
      simp only [SubscriberSet.drop, he, retains]
    rw [hretains]
    simp only [SubscriberSet.drop, he] at hk
    cases hg : set.subscribers.get? e with
    | none =>
      rw [hg] at hk
      exact h k hk
    | some ids =>
      rw [hg] at hk
      dsimp only at hk
      split at hk
      · exact h.filter e hk
      · next hne =>
        rw [KeyMap.get?_insert] at hk
        split at hk
        · exact absurd (isEmpty_iff.mpr (Option.some.inj hk)) hne
        · exact h k hk

lemma EmptyRetained.retain : (set.retain e).EmptyRetained := by
  intro k hk
  cases hg : set.subscribers.get? e with
  | none =>
    simp only [SubscriberSet.retain, hg] at hk ⊢
    exact h k hk
  | some ids =>
    simp only [SubscriberSet.retain, hg, KeyMap.get?_insert] at hk ⊢
    rw [retains, any_cons, Bool.or_eq_true]
    split at hk
    · next hke => exact .inl (decide_eq_true hke.symm)
    · exact .inr (h k hk)

end

lemma mergeBack_ne_nil (set : SubscriberSet κ) (e : κ) (kept : List ℕ) :
    (set.mergeBack e kept).get? e ≠ some [] := by
  rw [mergeBack]
  split
  · split
    · rw [KeyMap.get?_filter]
      cases set.subscribers.get? e <;> simp [Option.filter]
    · assumption
  · next hkept =>
    rw [KeyMap.get?_insert, if_pos rfl]
    cases kept with
    | nil => exact absurd rfl hkept
    | cons x kept => exact fun hk => insertId_ne_nil _ _ (Option.some.inj hk)

lemma mergeBack_of_ne (set : SubscriberSet κ) {e k : κ} (hk : k ≠ e) (kept : List ℕ) :
    (set.mergeBack e kept).get? k = set.subscribers.get? k := by
  rw [mergeBack]
  split
  · split
    · rw [KeyMap.get?_filter]
      cases set.subscribers.get? k <;> simp [Option.filter, hk]
    · rfl
  · rw [KeyMap.get?_insert, if_neg hk]

lemma EmptyRetained.proceed (h : set.EmptyRetained) : set.proceed.EmptyRetained := by
  rcases set.proceed_cases with heq | ⟨e, kept, id, waiting, outer, kept', calling, called, hr, heq,
    -⟩ | ⟨e, kept, outer, hr, heq⟩
  · rw [heq]
    exact h
  · intro k hk
    rw [heq] at hk ⊢
    have hretains := h k hk
    rwa [retains, hr] at hretains
  · intro k hk
    rw [heq] at hk ⊢
    by_cases hke : k = e
    · rw [hke] at hk
      exact absurd hk (set.mergeBack_ne_nil e kept)
    · have hretains := h k ((set.mergeBack_of_ne hke kept).symm.trans hk)
      rw [retains, hr, any_cons, Bool.or_eq_true] at hretains
      exact hretains.resolve_left (fun heq' => hke (of_decide_eq_true heq').symm)

lemma EmptyRetained.callbackReturns (h : set.EmptyRetained) (keep : Bool) :
    (set.callbackReturns keep).EmptyRetained := by
  rcases set.callbackReturns_cases keep with heq | ⟨e, kept, id, waiting, outer, kept', hr, heq, -⟩
  · rw [heq]
    exact h
  · intro k hk
    rw [heq] at hk ⊢
    have hretains := h k hk
    rwa [retains, hr] at hretains

lemma EmptyRetained.step (h : set.EmptyRetained) (event : Event κ) :
    (set.step event).EmptyRetained := by
  cases event with
  | insert e => exact iteInduction (fun _ => h.insertPending e) fun _ => h
  | insertPending e => exact iteInduction (fun _ => h.insertPending e) fun _ => h
  | activate id =>
    simp only [SubscriberSet.step]
    split <;> exact h
  | drop id => exact iteInduction (fun _ => h.drop id) fun _ => h
  | remove e => exact iteInduction (fun _ => fun k hk => h.filter e hk) fun _ => h
  | retain e => exact iteInduction (fun _ => h.retain e) fun _ => h
  | proceed => exact h.proceed
  | callbackReturns keep => exact h.callbackReturns keep

variable (events : List (Event κ))

lemma emptyRetained_run : (run events).EmptyRetained := by
  induction events using reverseRecOn with
  | nil => exact fun k hk => by cases hk
  | append_singleton events event ih =>
    rw [run, foldl_append]
    exact ih.step event

structure KeptUndropped (set : SubscriberSet κ) : Prop where
  ids : ∀ k x, x ∈ set.ids k → set.states x ≠ .dropped
  kept : ∀ r ∈ set.retaining, ∀ x ∈ r.kept, set.states x ≠ .dropped

section

variable (h : set.KeptUndropped)
include h

lemma KeptUndropped.of_states {set' : SubscriberSet κ}
    (hstates : ∀ x, set.states x ≠ .dropped → set'.states x ≠ .dropped)
    (hids : ∀ k x, x ∈ set'.ids k → x ∈ set.ids k ∨ set'.states x ≠ .dropped)
    (hkept : ∀ r' ∈ set'.retaining, ∀ x ∈ r'.kept,
      (∃ r ∈ set.retaining, x ∈ r.kept) ∨ set'.states x ≠ .dropped) : set'.KeptUndropped := by
  refine ⟨fun k x hx => ?_, fun r' hr' x hx => ?_⟩
  · rcases hids k x hx with hx | hx
    · exact hstates x (h.ids k x hx)
    · exact hx
  · rcases hkept r' hr' x hx with ⟨r, hr, hx⟩ | hx
    · exact hstates x (h.kept r hr x hx)
    · exact hx

lemma KeptUndropped.insertPending (hh : set.Holds) (e : κ) :
    (set.insertPending e).KeptUndropped := by
  have hstates : (set.insertPending e).states =
      Function.update set.states set.nextSubscriberId .pending := rfl
  refine h.of_states (fun x hx => ?_) (fun k x hx => ?_) (fun r hr x hx => .inl ⟨r, hr, hx⟩)
  · rw [hstates, Function.update_apply]
    split
    · exact fun hp => by cases hp
    · exact hx
  · have hids : insertId set.nextSubscriberId (set.ids e) =
        set.ids e ++ [set.nextSubscriberId] :=
      insertId_of_lt (fun x hx => hh.held_lt (k := e) (mem_append_right _ hx))
    have hk := set.ids_insert e k (insertId set.nextSubscriberId (set.ids e))
    rw [hids] at hk
    change x ∈ ((set.subscribers.insert e
      (insertId set.nextSubscriberId (set.ids e))).get? k).getD [] at hx
    rw [hids, hk] at hx
    split at hx
    · next hke =>
      rw [mem_append, mem_singleton] at hx
      rcases hx with hx | hx
      · rw [hke]
        exact .inl hx
      · rw [hstates, hx, Function.update_self]
        exact .inr (fun hp => by cases hp)
    · exact .inl hx

lemma KeptUndropped.activate (id : ℕ) : (set.activate id).KeptUndropped := by
  refine h.of_states (fun x hx => ?_) (fun k x hx => .inl hx)
    (fun r hr x hx => .inl ⟨r, hr, hx⟩)
  rw [SubscriberSet.activate]
  dsimp only
  split
  · rw [Function.update_apply]
    split
    · exact fun hp => by cases hp
    · exact hx
  · exact hx

lemma KeptUndropped.drop (hh : set.Holds) {id : ℕ} (hid : set.NotPassed id) :
    (set.drop id).KeptUndropped := by
  cases he : set.subscriptions.get? id with
  | none =>
    simp only [SubscriberSet.drop, he]
    exact h
  | some e =>
    have hids := ids_drop he
    have hstates : (set.drop id).states = Function.update set.states id .dropped := by
      simp only [SubscriberSet.drop, he]
    have hretaining : (set.drop id).retaining = set.retaining := by
      simp only [SubscriberSet.drop, he]
    refine ⟨fun k x hx => ?_, fun r hr x hx => ?_⟩
    · have hmem : x ∈ set.ids k := by
        rw [hids] at hx
        split at hx
        · exact (mem_filter.mp hx).1
        · exact hx
      have hne : x ≠ id := by
        rintro rfl
        have hsubscribed := hh.held_subscribed x k (mem_append_right _ hmem)
        have hke := hh.subscribed_unique x k e hsubscribed (hh.subscriptions x e he)
        rw [hids, if_pos hke, mem_filter] at hx
        simp at hx
      rw [hstates, Function.update_of_ne hne]
      exact h.ids k x hmem
    · rw [hretaining] at hr
      have hne : x ≠ id := fun hxi => hid r hr (hxi ▸ hx)
      rw [hstates, Function.update_of_ne hne]
      exact h.kept r hr x hx

variable (e : κ)

lemma KeptUndropped.remove : (set.remove e).KeptUndropped := by
  refine h.of_states (fun _ hx => hx) (fun k x hx => ?_) (fun r hr x hx => .inl ⟨r, hr, hx⟩)
  have hids : (set.remove e).ids k = if k = e then [] else set.ids k := set.ids_filter_ne e k
  rw [hids] at hx
  split at hx
  · cases hx
  · exact .inl hx

lemma KeptUndropped.retain : (set.retain e).KeptUndropped := by
  cases hg : set.subscribers.get? e with
  | none =>
    simp only [SubscriberSet.retain, hg]
    exact h.of_states (fun _ hx => hx) (fun k x hx => .inl hx)
      (fun r hr x hx => .inl ⟨r, hr, hx⟩)
  | some l =>
    simp only [SubscriberSet.retain, hg]
    refine h.of_states (fun _ hx => hx) (fun k x hx => ?_) (fun r hr x hx => ?_)
    · simp only [SubscriberSet.ids] at hx
      rw [set.ids_insert e k []] at hx
      split at hx
      · cases hx
      · exact .inl hx
    · rcases mem_cons.mp hr with rfl | hr
      · cases hx
      · exact .inl ⟨r, hr, hx⟩

lemma KeptUndropped.proceed (hh : set.Holds) : set.proceed.KeptUndropped := by
  rcases set.proceed_cases with heq | ⟨e, kept, id, waiting, outer, kept', calling, called, hr, heq,
    hcase⟩ | ⟨e, kept, outer, hr, heq⟩
  · rw [heq]
    exact h
  · rw [heq]
    refine h.of_states (fun _ hx => hx) (fun k x hx => .inl hx) (fun r hmem x hx => ?_)
    rw [hr]
    rcases mem_cons.mp hmem with rfl | hmem
    · -- what is kept is kept already, or pending
      have hkept : x ∈ kept ∨ set.states x = .pending := by
        rcases hcase with ⟨hs, rfl, -, -⟩ | ⟨-, rfl, -, -⟩ | ⟨-, rfl, -, -⟩
        · rcases mem_append.mp hx with hx | hx
          · exact .inl hx
          · rw [mem_singleton.mp hx]
            exact .inr hs
        · exact .inl hx
        · exact .inl hx
      rcases hkept with hx | hs
      · exact .inl ⟨_, mem_cons_self .., hx⟩
      · exact .inr (fun hd => by rw [hs] at hd; cases hd)
    · exact .inl ⟨r, mem_cons_of_mem _ hmem, hx⟩
  · have hsorted : (kept ++ set.ids e).Pairwise (· < ·) := by
      have hinner := hh.held_innermost hr
      have hs := hh.sorted e
      rw [hinner] at hs
      simpa [Retaining.ids] using hs
    have hmem : (⟨e, kept, none, []⟩ : Retaining κ) ∈ set.retaining := by
      rw [hr]
      exact mem_cons_self ..
    rw [heq]
    refine ⟨fun k x hx => ?_, fun r hr' x hx => ?_⟩
    · simp only [SubscriberSet.ids] at hx
      rw [ids_mergeBack hsorted] at hx
      split at hx
      · rcases mem_append.mp hx with hx | hx
        · exact h.kept _ hmem x hx
        · exact h.ids e x hx
      · exact h.ids k x hx
    · exact h.kept r (by rw [hr]; exact mem_cons_of_mem _ hr') x hx

lemma KeptUndropped.callbackReturns (keep : Bool) : (set.callbackReturns keep).KeptUndropped := by
  rcases set.callbackReturns_cases keep with heq | ⟨e, kept, id, waiting, outer, kept', hr, heq,
    hcase⟩
  · rw [heq]
    exact h
  · rw [heq]
    refine h.of_states (fun _ hx => hx) (fun k x hx => .inl hx) (fun r hmem x hx => ?_)
    rw [hr]
    rcases mem_cons.mp hmem with rfl | hmem
    · have hkept : x ∈ kept ∨ set.states x ≠ .dropped := by
        rcases hcase with ⟨-, hs, rfl⟩ | ⟨-, rfl⟩
        · rcases mem_append.mp hx with hx | hx
          · exact .inl hx
          · rw [mem_singleton.mp hx]
            exact .inr hs
        · exact .inl hx
      exact hkept.imp_left (fun hx => ⟨_, mem_cons_self .., hx⟩)
    · exact .inl ⟨r, mem_cons_of_mem _ hmem, hx⟩

lemma KeptUndropped.step (hh : set.Holds) (event : Event κ)
    (hevent : ∀ id, event = .drop id → set.outside → set.NotPassed id) :
    (set.step event).KeptUndropped := by
  cases event with
  | insert e => exact iteInduction (fun _ => (h.insertPending hh e).activate _) fun _ => h
  | insertPending e => exact iteInduction (fun _ => h.insertPending hh e) fun _ => h
  | activate id => exact iteInduction (fun _ => h.activate id) fun _ => h
  | drop id => exact iteInduction (fun ho => h.drop hh (hevent id rfl ho)) fun _ => h
  | remove e => exact iteInduction (fun _ => h.remove e) fun _ => h
  | retain e => exact iteInduction (fun _ => h.retain e) fun _ => h
  | proceed => exact h.proceed hh
  | callbackReturns keep => exact h.callbackReturns keep

end

def DropsNotPassed (events : List (Event κ)) : Prop :=
  ∀ before id after, events = before ++ .drop id :: after →
    (run before).outside → (run before).NotPassed id

lemma keptUndropped_run (h : DropsNotPassed events) : (run events).KeptUndropped := by
  induction events using reverseRecOn with
  | nil => exact ⟨fun k x hx => (by cases hx), fun r hr => (by cases hr)⟩
  | append_singleton events event ih =>
    have hbefore : DropsNotPassed events := by
      intro before id after heq
      exact h before id (after ++ [event]) (by rw [heq]; simp)
    have hlast : ∀ id, event = .drop id → (run events).outside → (run events).NotPassed id := by
      intro id hid
      exact h events id [] (by rw [hid])
    rw [run, foldl_append]
    exact (ih hbefore).step (holds_run events) event hlast

/-- In every run of a subscriber set, once no retain is under way, every emitter in the set has
subscribers. Where every subscription dropped is one that no retain then under way had gone past and
kept, none of them is dropped, and neither is one in the subscriber set of a single emitter. -/
theorem run_releases (events : List (Event κ)) (singleEvents : List SingleSubscriberSet.Event) :
    (∀ k, (run events).retaining = [] → (run events).subscribers.get? k ≠ some []) ∧
    (DropsNotPassed events → (run events).ReleasesDropped) ∧
    (SingleSubscriberSet.DropsNotPassed singleEvents →
      (SingleSubscriberSet.run singleEvents).ReleasesDropped) := by
  have hfilled : ∀ k, (run events).retaining = [] → (run events).subscribers.get? k ≠ some [] := by
    intro k hr hk
    have hretains := emptyRetained_run events k hk
    rw [retains, hr] at hretains
    cases hretains
  refine ⟨hfilled, fun h hr k ids hk => ⟨?_, fun x hx => ?_⟩, fun h _ => ?_⟩
  · rintro rfl
    exact hfilled k hr hk
  · refine (keptUndropped_run events h).ids k x ?_
    rw [SubscriberSet.ids, hk]
    exact hx
  · exact (SingleSubscriberSet.keptUndropped_run singleEvents h).subscribers

lemma split_at_length {α : Type*} {l before after : List α} {a : α} (h : l = before ++ a :: after) :
    before.length < l.length ∧ l[before.length]? = some a ∧ before = l.take before.length := by
  subst h
  refine ⟨?_, ?_, ?_⟩
  · rw [length_append, length_cons]
    omega
  · rw [getElem?_append_right le_rfl, Nat.sub_self]
    rfl
  · rw [take_left']
    rfl

def droppedByFirst : List (Event ℕ) :=
  [.insert 1, .insert 1, .insert 1, .retain 1, .proceed, .drop 0, .drop 2, .callbackReturns true,
    .proceed, .callbackReturns true, .proceed, .proceed]

def singleDroppedByFirst : List SingleSubscriberSet.Event :=
  [.insert, .insert, .retain, .proceed, .drop 0, .callbackReturns true, .proceed,
    .callbackReturns true, .proceed]

theorem run_releases_droppedByFirst :
    (run droppedByFirst).ReleasesDropped ∧ (run droppedByFirst).subscribers.get? 1 = some [1] ∧
      (SingleSubscriberSet.run singleDroppedByFirst).ReleasesDropped := by
  have h : DropsNotPassed droppedByFirst := by
    intro before id after heq _
    obtain ⟨hlt, hget, htake⟩ := split_at_length heq
    rw [htake]
    generalize before.length = n at hlt hget
    have hn : n < 12 := hlt
    interval_cases n <;> simp only [droppedByFirst] at hget <;> cases hget
    · decide
    · decide
  have hs : SingleSubscriberSet.DropsNotPassed singleDroppedByFirst := by
    intro before id after heq _
    obtain ⟨hlt, hget, htake⟩ := split_at_length heq
    rw [htake]
    generalize before.length = n at hlt hget
    have hn : n < 9 := hlt
    interval_cases n <;> simp only [singleDroppedByFirst] at hget <;> cases hget
    decide
  exact ⟨(run_releases droppedByFirst singleDroppedByFirst).2.1 h, by decide,
    (run_releases droppedByFirst singleDroppedByFirst).2.2 hs⟩

def droppedBySecond : List (Event ℕ) :=
  [.insert 1, .insert 1, .retain 1, .proceed, .callbackReturns true, .proceed, .drop 0,
    .callbackReturns true, .proceed]

def singleDroppedBySecond : List SingleSubscriberSet.Event :=
  [.insert, .insert, .retain, .proceed, .callbackReturns true, .proceed, .drop 0,
    .callbackReturns true, .proceed]

theorem not_releases_droppedBySecond :
    ¬ (run droppedBySecond).ReleasesDropped ∧
      ¬ (SingleSubscriberSet.run singleDroppedBySecond).ReleasesDropped := by
  refine ⟨fun h => ?_, fun h => ?_⟩
  · exact (h (by decide) 1 [0, 1] (by decide)).2 0 (by decide) (by decide)
  · exact h (by decide) 0 (by decide) (by decide)

end SubscriberSet

end GpuiFast
