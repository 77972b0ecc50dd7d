import GpuiFast.Subscribers
import Mathlib.Data.List.Induction

namespace GpuiFast

open List Option

/-- The subscribers taken out of the set by a retain, in their order. -/
def Retaining.ids {κ : Type*} (retaining : Retaining κ) : List ℕ :=
  retaining.kept ++ retaining.calling.toList ++ retaining.waiting

namespace SubscriberSet

variable {κ : Type*} [DecidableEq κ]

/-- The subscribers of an emitter, those that retains hold included. -/
def held (set : SubscriberSet κ) (emitter : κ) : List ℕ :=
  (set.retaining.filter (fun r => r.emitter = emitter)).flatMap Retaining.ids ++ set.ids emitter

/-- The set against its log: each subscriber that exists is held once, by the emitter it was inserted
for, in the order of insertion, and its state is what the log says. -/
structure Holds (set : SubscriberSet κ) : Prop where
  emitters_nodup : (set.retaining.map Retaining.emitter).Nodup
  sorted : ∀ k, (set.held k).Pairwise (· < ·)
  existing_held : ∀ x k, (x, k) ∈ existing set.log → x ∈ set.held k
  held_existing : ∀ x k, x ∈ set.held k → (x, k) ∈ existing set.log ∨ .dropped x ∈ set.log
  existing_sorted : ((existing set.log).map Prod.fst).Pairwise (· < ·)
  existing_not_dropped : ∀ x k, (x, k) ∈ existing set.log → .dropped x ∉ set.log
  held_subscribed : ∀ x k, x ∈ set.held k → .subscribed x k ∈ set.log
  subscribed_unique : ∀ x k k', .subscribed x k ∈ set.log → .subscribed x k' ∈ set.log → k = k'
  subscriptions : ∀ x k, set.subscriptions.get? x = some k → .subscribed x k ∈ set.log
  activated_lt : ∀ x, .activated x ∈ set.log → x < set.nextSubscriberId
  subscribed_lt : ∀ x k, .subscribed x k ∈ set.log → x < set.nextSubscriberId
  dropped_subscribed : ∀ x, .dropped x ∈ set.log → ∃ k, .subscribed x k ∈ set.log
  dropped_iff : ∀ x, set.states x = .dropped ↔ .dropped x ∈ set.log
  active_iff : ∀ x, set.states x = .active ↔ isActive set.log x

lemma existing_append (log : List (Observation κ)) (o : Observation κ) :
    existing (log ++ [o]) = existingStep (existing log) o := by
  simp [existing, foldl_append]

variable {log : List (Observation κ)} {x : ℕ} {set' : SubscriberSet κ} {kept : List ℕ}

lemma existing_subscribed {k : κ} (h : (x, k) ∈ existing log) : .subscribed x k ∈ log := by
  induction log using reverseRecOn with
  | nil => simp [existing] at h
  | append_singleton log o ih =>
    rw [existing_append] at h
    rw [mem_append, mem_singleton]
    cases o with
    | subscribed id e =>
      rcases mem_append.mp h with h | h
      · exact .inl (ih h)
      · rw [mem_singleton, Prod.mk.injEq] at h
        exact .inr (by rw [h.1, h.2])
    | dropped id => exact .inl (ih (mem_filter.mp h).1)
    | rejected id => exact .inl (ih (mem_filter.mp h).1)
    | removed e callbacks => exact .inl (ih (mem_filter.mp h).1)
    | activated id => exact .inl (ih h)
    | retain e => exact .inl (ih h)
    | turn e id called => exact .inl (ih h)
    | retained e => exact .inl (ih h)

/-- Nothing is inserted, made active or dropped. -/
def Quiet : Observation κ → Prop
  | .subscribed _ _ | .activated _ | .dropped _ => False
  | _ => True

variable {set : SubscriberSet κ} {id : ℕ} {l : List ℕ} {e : κ} {r : Retaining κ}
  {outer : List (Retaining κ)}

/-- A step that only lets go of subscribers keeps the invariant. -/
lemma Holds.shrink (h : set.Holds) (hstates : set'.states = set.states)
    (hsubscriptions : set'.subscriptions = set.subscriptions)
    (hnext : set'.nextSubscriberId = set.nextSubscriberId) (os : List (Observation κ))
    (hlog : set'.log = set.log ++ os) (hquiet : ∀ o ∈ os, Quiet o)
    (hexisting : (existing set'.log).Sublist (existing set.log))
    (hnodup : (set'.retaining.map Retaining.emitter).Nodup)
    (hheld : ∀ k, (set'.held k).Sublist (set.held k))
    (hkeep : ∀ x k, (x, k) ∈ existing set'.log → x ∈ set'.held k)
    (hrest : ∀ x k, x ∈ set'.held k → (x, k) ∈ existing set.log → (x, k) ∈ existing set'.log) :
    set'.Holds := by
  have hs : ∀ x k, .subscribed x k ∈ set'.log ↔ .subscribed x k ∈ set.log := by
    intro x k
    rw [hlog, mem_append]
    exact or_iff_left (fun hm => hquiet _ hm)
  have ha : ∀ x, .activated x ∈ set'.log ↔ .activated x ∈ set.log := by
    intro x
    rw [hlog, mem_append]
    exact or_iff_left (fun hm => hquiet _ hm)
  have hd : ∀ x, .dropped x ∈ set'.log ↔ .dropped x ∈ set.log := by
    intro x
    rw [hlog, mem_append]
    exact or_iff_left (fun hm => hquiet _ hm)
  refine ⟨hnodup, fun k => (h.sorted k).sublist (hheld k), hkeep, fun x k hx => ?_,
    h.existing_sorted.sublist (hexisting.map _), fun x k hx => ?_, fun x k hx => ?_,
    fun x k k' => ?_, fun x k => ?_, fun x => ?_, fun x k => ?_, fun x hx => ?_, fun x => ?_,
    fun x => ?_⟩
  · rw [hd]
    rcases h.held_existing x k ((hheld k).subset hx) with he | he
    · exact .inl (hrest x k hx he)
    · exact .inr he
  · rw [hd]
    exact h.existing_not_dropped x k (hexisting.subset hx)
  · rw [hs]
    exact h.held_subscribed x k ((hheld k).subset hx)
  · rw [hs, hs]
    exact h.subscribed_unique x k k'
  · rw [hs, hsubscriptions]
    exact h.subscriptions x k
  · rw [ha, hnext]
    exact h.activated_lt x
  · rw [hs, hnext]
    exact h.subscribed_lt x k
  · obtain ⟨k, hk⟩ := h.dropped_subscribed x ((hd x).mp hx)
    exact ⟨k, (hs x k).mpr hk⟩
  · rw [hd, hstates]
    exact h.dropped_iff x
  · rw [isActive, ha, hd, hstates]
    exact h.active_iff x

lemma Holds.held_lt (h : set.Holds) {k : κ} (hx : x ∈ set.held k) : x < set.nextSubscriberId :=
  h.subscribed_lt x k (h.held_subscribed x k hx)

lemma insertId_of_lt (h : ∀ x ∈ l, x < id) : insertId id l = l ++ [id] := by
  have hnot : id ∉ l := fun hm => lt_irrefl _ (h id hm)
  rw [insertId, if_neg hnot]
  clear hnot
  induction l with
  | nil => rfl
  | cons y l ih =>
    have hy := h y (mem_cons_self ..)
    rw [orderedInsert_of_not_le (· ≤ ·) l (Nat.not_le.mpr hy),
      ih (fun x hx => h x (mem_cons_of_mem _ hx))]
    rfl

lemma insertId_of_gt (h : ∀ x ∈ l, id < x) : insertId id l = id :: l := by
  have hnot : id ∉ l := fun hm => lt_irrefl _ (h id hm)
  rw [insertId, if_neg hnot]
  cases l with
  | nil => rfl
  | cons y l => exact orderedInsert_cons_of_le (· ≤ ·) l (h y (mem_cons_self ..)).le

lemma foldr_insertId (h : (kept ++ l).Pairwise (· < ·)) : kept.foldr insertId l = kept ++ l := by
  induction kept with
  | nil => rfl
  | cons x kept ih =>
    rw [cons_append, pairwise_cons] at h
    rw [foldr_cons, ih h.2, insertId_of_gt h.1, cons_append]

lemma ids_insert (set : SubscriberSet κ) (e k : κ) (l : List ℕ) :
    ((set.subscribers.insert e l).get? k).getD [] = if k = e then l else set.ids k := by
  rw [KeyMap.get?_insert]
  split <;> rfl

lemma ids_filter_ne (set : SubscriberSet κ) (e k : κ) :
    ((set.subscribers.filter (fun e' _ => e' ≠ e)).get? k).getD [] =
      if k = e then [] else set.ids k := by
  rw [KeyMap.get?_filter, ids]
  by_cases h : k = e <;> cases set.subscribers.get? k <;> simp [h, Option.filter]

lemma held_insertPending (h : set.Holds) (e k : κ) :
    (set.insertPending e).held k =
      if k = e then set.held k ++ [set.nextSubscriberId] else set.held k := by
  have hids : insertId set.nextSubscriberId (set.ids e) = set.ids e ++ [set.nextSubscriberId] :=
    insertId_of_lt (fun x hx => h.held_lt (k := e) (mem_append_right _ hx))
  simp only [held, insertPending, ids, KeyMap.get?_insert]
  split
  · next hk =>
    subst hk
    rw [getD_some, List.append_assoc]
    exact congrArg _ hids
  · rfl

theorem Holds.insertPending (h : set.Holds) (e : κ) : (set.insertPending e).Holds := by
  have hheld := held_insertPending h e
  have hexisting : existing (set.insertPending e).log =
      existing set.log ++ [(set.nextSubscriberId, e)] := existing_append _ _
  have hfresh : ∀ {x}, (x = set.nextSubscriberId) → ¬ (Observation.dropped x ∈ set.log) ∧
      ¬ (.activated x ∈ set.log) ∧ ∀ k, ¬ (.subscribed x k ∈ set.log) := by
    rintro x rfl
    refine ⟨fun hx => ?_, fun hx => lt_irrefl _ (h.activated_lt _ hx),
      fun k hx => lt_irrefl _ (h.subscribed_lt _ k hx)⟩
    obtain ⟨k, hk⟩ := h.dropped_subscribed _ hx
    exact lt_irrefl _ (h.subscribed_lt _ k hk)
  have hlog : (set.insertPending e).log = set.log ++ [.subscribed set.nextSubscriberId e] := rfl
  have hnext : (set.insertPending e).nextSubscriberId = set.nextSubscriberId + 1 := rfl
  have hstates : (set.insertPending e).states =
      Function.update set.states set.nextSubscriberId .pending := rfl
  refine ⟨h.emitters_nodup, fun k => ?_, fun x k hx => ?_, fun x k hx => ?_, ?_, fun x k hx => ?_,
    fun x k hx => ?_, fun x k k' hx hx' => ?_, fun x k hx => ?_, fun x hx => ?_, fun x k hx => ?_,
    fun x hx => ?_, fun x => ?_, fun x => ?_⟩
  · rw [hheld]
    split
    · refine pairwise_append.mpr ⟨h.sorted k, pairwise_singleton .., ?_⟩
      intro x hx y hy
      rw [mem_singleton.mp hy]
      exact h.held_lt hx
    · exact h.sorted k
  · rw [hexisting, mem_append] at hx
    rw [hheld]
    rcases hx with hx | hx
    · split
      · exact mem_append_left _ (h.existing_held x k hx)
      · exact h.existing_held x k hx
    · rw [mem_singleton, Prod.mk.injEq] at hx
      rw [if_pos hx.2, hx.1]
      simp
  · rw [hexisting, mem_append, hlog, mem_append]
    rw [hheld] at hx
    split at hx
    · next hk =>
      rcases mem_append.mp hx with hx | hx
      · exact (h.held_existing x k hx).imp .inl .inl
      · rw [mem_singleton] at hx
        exact .inl (.inr (by rw [hx, hk]; simp))
    · exact (h.held_existing x k hx).imp .inl .inl
  · rw [hexisting, map_append, map_singleton]
    refine pairwise_append.mpr ⟨h.existing_sorted, pairwise_singleton .., ?_⟩
    intro x hx y hy
    obtain ⟨⟨x, k⟩, hmem, rfl⟩ := mem_map.mp hx
    rw [mem_singleton.mp hy]
    exact h.subscribed_lt x k (existing_subscribed hmem)
  · rw [hlog, mem_append, mem_singleton, not_or]
    rw [hexisting, mem_append] at hx
    refine ⟨?_, by simp⟩
    rcases hx with hx | hx
    · exact h.existing_not_dropped x k hx
    · rw [mem_singleton, Prod.mk.injEq] at hx
      exact (hfresh hx.1).1
  · rw [hlog, mem_append, mem_singleton]
    rw [hheld] at hx
    split at hx
    · next hk =>
      rcases mem_append.mp hx with hx | hx
      · exact .inl (h.held_subscribed x k hx)
      · exact .inr (by rw [mem_singleton.mp hx, hk])
    · exact .inl (h.held_subscribed x k hx)
  · rw [hlog, mem_append, mem_singleton, Observation.subscribed.injEq] at hx hx'
    rcases hx with hx | hx <;> rcases hx' with hx' | hx'
    · exact h.subscribed_unique x k k' hx hx'
    · exact absurd hx ((hfresh hx'.1).2.2 k)
    · exact absurd hx' ((hfresh hx.1).2.2 k')
    · rw [hx.2, hx'.2]
  · rw [hlog, mem_append, mem_singleton]
    simp only [SubscriberSet.insertPending, KeyMap.get?_insert] at hx
    split at hx
    · next hxn =>
      rw [hxn, some.inj hx]
      exact .inr rfl
    · exact .inl (h.subscriptions x k hx)
  · rw [hlog, mem_append, mem_singleton] at hx
    rcases hx with hx | hx
    · exact (h.activated_lt x hx).trans (Nat.lt_succ_self _)
    · cases hx
  · rw [hlog, mem_append, mem_singleton, Observation.subscribed.injEq] at hx
    rcases hx with hx | hx
    · exact (h.subscribed_lt x k hx).trans (Nat.lt_succ_self _)
    · rw [hx.1]
      exact Nat.lt_succ_self _
  · rw [hlog, mem_append, mem_singleton] at hx
    rcases hx with hx | hx
    · obtain ⟨k, hk⟩ := h.dropped_subscribed x hx
      exact ⟨k, mem_append_left _ hk⟩
    · cases hx
  · rw [hlog, mem_append, mem_singleton, hstates, Function.update_apply]
    split
    · next hxn => simp [(hfresh hxn).1]
    · simpa using h.dropped_iff x
  · rw [hlog, isActive, mem_append, mem_append, mem_singleton, mem_singleton,
      hstates, Function.update_apply]
    split
    · next hxn => simp [(hfresh hxn).2.1]
    · simpa [isActive] using h.active_iff x

theorem Holds.activate (h : set.Holds) (hid : id < set.nextSubscriberId) :
    (set.activate id).Holds := by
  have hlog : (set.activate id).log = set.log ++ [.activated id] := rfl
  have hexisting : existing (set.activate id).log = existing set.log := existing_append _ _
  have hs : ∀ x k, .subscribed x k ∈ (set.activate id).log ↔ .subscribed x k ∈ set.log := by
    simp [hlog]
  have hd : ∀ x, .dropped x ∈ (set.activate id).log ↔ .dropped x ∈ set.log := by simp [hlog]
  have hstates : (set.activate id).states =
      if set.states id = .pending then Function.update set.states id .active else set.states := rfl
  refine ⟨h.emitters_nodup, h.sorted, fun x k hx => ?_, fun x k hx => ?_, ?_, fun x k hx => ?_,
    fun x k hx => ?_, fun x k k' => ?_, fun x k => ?_, fun x hx => ?_, fun x k => ?_,
    fun x hx => ?_, fun x => ?_, fun x => ?_⟩
  · rw [hexisting] at hx
    exact h.existing_held x k hx
  · rw [hexisting, hd]
    exact h.held_existing x k hx
  · rw [hexisting]
    exact h.existing_sorted
  · rw [hexisting] at hx
    rw [hd]
    exact h.existing_not_dropped x k hx
  · rw [hs]
    exact h.held_subscribed x k hx
  · rw [hs, hs]
    exact h.subscribed_unique x k k'
  · rw [hs]
    exact h.subscriptions x k
  · rw [hlog, mem_append, mem_singleton, Observation.activated.injEq] at hx
    rcases hx with hx | hx
    · exact h.activated_lt x hx
    · rw [hx]
      exact hid
  · rw [hs]
    exact h.subscribed_lt x k
  · obtain ⟨k, hk⟩ := h.dropped_subscribed x ((hd x).mp hx)
    exact ⟨k, (hs x k).mpr hk⟩
  · rw [hd, ← h.dropped_iff, hstates]
    split
    · next hp =>
      rw [Function.update_apply]
      split
      · next hx => simp [hx, hp]
      · rfl
    · rfl
  · -- the activated subscriber is active now, unless it was dropped before
    rw [isActive, hd, hlog, mem_append, mem_singleton, Observation.activated.injEq, hstates]
    by_cases hx : x = id
    · subst hx
      have hdrop := h.dropped_iff x
      have hact := h.active_iff x
      rw [isActive] at hact
      cases hst : set.states x <;> simp_all
    · have hne : (if set.states id = .pending then Function.update set.states id .active
          else set.states) x = set.states x := by
        split
        · exact Function.update_of_ne hx _ _
        · rfl
      rw [hne, h.active_iff, isActive]
      simp [hx]

lemma ids_drop (he : set.subscriptions.get? id = some e) (k : κ) :
    (set.drop id).ids k = if k = e then (set.ids k).filter (· ≠ id) else set.ids k := by
  simp only [drop, he, ids]
  cases hg : set.subscribers.get? e with
  | none =>
    dsimp only
    split
    · next hk => simp [hk, hg]
    · rfl
  | some l =>
    dsimp only
    split
    · next hempty =>
      refine (set.ids_filter_ne e k).trans ?_
      split
      · next hk => rw [hk, hg]; simpa using hempty.symm
      · rfl
    · refine (set.ids_insert e k _).trans ?_
      split
      · next hk => rw [hk, hg]; rfl
      · rfl

theorem Holds.drop (h : set.Holds) (id : ℕ) : (set.drop id).Holds := by
  cases he : set.subscriptions.get? id with
  | none =>
    simp only [SubscriberSet.drop, he]
    exact h
  | some e =>
    have hids := ids_drop he
    have hlog : (set.drop id).log = set.log ++ [.dropped id] := by simp only [SubscriberSet.drop, he]
    have hstates : (set.drop id).states = Function.update set.states id .dropped := by
      simp only [SubscriberSet.drop, he]
    have hretaining : (set.drop id).retaining = set.retaining := by
      simp only [SubscriberSet.drop, he]
    have hnext : (set.drop id).nextSubscriberId = set.nextSubscriberId := by
      simp only [SubscriberSet.drop, he]
    have hsubscriptions : (set.drop id).subscriptions =
        set.subscriptions.filter (fun i _ => i ≠ id) := by
      simp only [SubscriberSet.drop, he]
    have hexisting : existing (set.drop id).log =
        (existing set.log).filter (fun s => s.1 ≠ id) := by
      rw [hlog]
      exact existing_append _ _
    have hheld : ∀ k, ((set.drop id).held k).Sublist (set.held k) := by
      intro k
      rw [held, held, hretaining, hids]
      refine Sublist.append_left ?_ _
      split
      · exact filter_sublist
      · exact Sublist.refl _
    have hother : ∀ x k, x ≠ id → x ∈ set.held k → x ∈ (set.drop id).held k := by
      intro x k hne hx
      rw [held, mem_append] at hx ⊢
      rw [hretaining, hids]
      refine hx.imp_right (fun hx => ?_)
      split
      · exact mem_filter.mpr ⟨hx, by simpa using hne⟩
      · exact hx
    have hs : ∀ x k, .subscribed x k ∈ (set.drop id).log ↔ .subscribed x k ∈ set.log := by
      simp [hlog]
    refine ⟨by rw [hretaining]; exact h.emitters_nodup,
      fun k => (h.sorted k).sublist (hheld k), fun x k hx => ?_, fun x k hx => ?_, ?_,
      fun x k hx => ?_, fun x k hx => ?_, fun x k k' => ?_, fun x k hx => ?_, fun x hx => ?_,
      fun x k => ?_, fun x hx => ?_, fun x => ?_, fun x => ?_⟩
    · rw [hexisting, mem_filter] at hx
      exact hother x k (by simpa using hx.2) (h.existing_held x k hx.1)
    · rw [hexisting, mem_filter, hlog, mem_append, mem_singleton]
      by_cases hxi : x = id
      · exact .inr (.inr (by rw [hxi]))
      · rcases h.held_existing x k ((hheld k).subset hx) with hx | hx
        · exact .inl ⟨hx, by simpa using hxi⟩
        · exact .inr (.inl hx)
    · rw [hexisting]
      exact h.existing_sorted.sublist (filter_sublist.map _)
    · rw [hexisting, mem_filter] at hx
      rw [hlog, mem_append, mem_singleton, not_or, Observation.dropped.injEq]
      exact ⟨h.existing_not_dropped x k hx.1, by simpa using hx.2⟩
    · rw [hs]
      exact h.held_subscribed x k ((hheld k).subset hx)
    · rw [hs, hs]
      exact h.subscribed_unique x k k'
    · rw [hsubscriptions, KeyMap.get?_filter, filter_eq_some_iff] at hx
      rw [hs]
      exact h.subscriptions x k hx.1
    · rw [hnext]
      exact h.activated_lt x (by simpa [hlog] using hx)
    · rw [hs, hnext]
      exact h.subscribed_lt x k
    · rw [hlog, mem_append, mem_singleton, Observation.dropped.injEq] at hx
      rcases hx with hx | hx
      · obtain ⟨k, hk⟩ := h.dropped_subscribed x hx
        exact ⟨k, (hs x k).mpr hk⟩
      · exact ⟨e, (hs x e).mpr (h.subscriptions x e (by rw [hx]; exact he))⟩
    · rw [hlog, mem_append, mem_singleton, Observation.dropped.injEq, hstates,
        Function.update_apply]
      split
      · next hx => simp [hx]
      · next hx => simpa [hx] using h.dropped_iff x
    · rw [isActive, hlog, mem_append, mem_append, mem_singleton,
        mem_singleton, Observation.dropped.injEq, hstates, Function.update_apply]
      split
      · next hx => simp [hx]
      · next hx => simpa [hx, isActive] using h.active_iff x

lemma filter_retaining_eq_nil (h : ¬ set.retains e) :
    set.retaining.filter (fun r => r.emitter = e) = [] := by
  rw [filter_eq_nil_iff]
  intro r hr he
  exact h (any_eq_true.mpr ⟨r, hr, he⟩)

lemma held_of_not_retains (h : ¬ set.retains e) : set.held e = set.ids e := by
  rw [held, filter_retaining_eq_nil h]
  rfl

theorem Holds.remove (h : set.Holds) (he : ¬ set.retains e) : (set.remove e).Holds := by
  have hids : ∀ k, (set.remove e).ids k = if k = e then [] else set.ids k := set.ids_filter_ne e
  have hexisting : existing (set.remove e).log = (existing set.log).filter (fun s => s.2 ≠ e) :=
    existing_append _ _
  have hretaining : (set.remove e).retaining = set.retaining := rfl
  have hself : (set.remove e).held e = [] := by
    rw [held, hretaining, filter_retaining_eq_nil he, hids, if_pos rfl]
    rfl
  have hother : ∀ k, k ≠ e → (set.remove e).held k = set.held k := by
    intro k hk
    rw [held, held, hretaining, hids, if_neg hk]
  refine h.shrink rfl rfl rfl _ rfl ?_ (by rw [hexisting]; exact filter_sublist)
    h.emitters_nodup (fun k => ?_) (fun x k hx => ?_) (fun x k hx hx' => ?_)
  · intro o ho
    rw [mem_singleton.mp ho]
    trivial
  · by_cases hk : k = e
    · rw [hk, hself]
      exact nil_sublist _
    · rw [hother k hk]
  · rw [hexisting, mem_filter] at hx
    rw [hother k (by simpa using hx.2)]
    exact h.existing_held x k hx.1
  · have hk : k ≠ e := by
      rintro rfl
      rw [hself] at hx
      cases hx
    rw [hexisting, mem_filter]
    exact ⟨hx', by simpa using hk⟩

/-- A step that moves subscribers between the set and a retain keeps the invariant. -/
lemma Holds.keep (h : set.Holds) (hstates : set'.states = set.states)
    (hsubscriptions : set'.subscriptions = set.subscriptions)
    (hnext : set'.nextSubscriberId = set.nextSubscriberId) (os : List (Observation κ))
    (hlog : set'.log = set.log ++ os) (hquiet : ∀ o ∈ os, Quiet o)
    (hexisting : existing set'.log = existing set.log)
    (hnodup : (set'.retaining.map Retaining.emitter).Nodup) (hheld : ∀ k, set'.held k = set.held k) :
    set'.Holds := by
  refine h.shrink hstates hsubscriptions hnext os hlog hquiet (by rw [hexisting]) hnodup
    (fun k => by rw [hheld]) (fun x k hx => ?_) (fun x k _ hx => ?_)
  · rw [hheld]
    exact h.existing_held x k (by rw [← hexisting]; exact hx)
  · rw [hexisting]
    exact hx

lemma existing_append_of_eq {o : Observation κ} (h : ∀ l, existingStep l o = l) :
    existing (log ++ [o]) = existing log := by
  rw [existing_append, h]

lemma held_cons (h : set.retaining = r :: outer) (k : κ) :
    set.held k = (if r.emitter = k then r.ids else []) ++
      (outer.filter (fun r => r.emitter = k)).flatMap Retaining.ids ++ set.ids k := by
  rw [held, h, filter_cons]
  split
  · next hk => simp_all
  · next hk => simp_all

theorem Holds.retain (h : set.Holds) (he : ¬ set.retains e) : (set.retain e).Holds := by
  cases hg : set.subscribers.get? e with
  | none =>
    have hset : set.retain e = { set with log := set.log ++ [.retain e, .retained e] } := by
      simp only [SubscriberSet.retain, hg]
    rw [hset]
    refine h.keep rfl rfl rfl [.retain e, .retained e] rfl (by simp [Quiet]) ?_ h.emitters_nodup
      (fun _ => rfl)
    rw [show set.log ++ [.retain e, .retained e] = set.log ++ [.retain e] ++ [.retained e] by simp,
      existing_append_of_eq (fun _ => rfl), existing_append_of_eq (fun _ => rfl)]
  | some l =>
    have hids : set.ids e = l := by rw [ids, hg]; rfl
    have hset : set.retain e =
        { set with
          subscribers := set.subscribers.insert e []
          retaining := ⟨e, [], none, l⟩ :: set.retaining
          log := set.log ++ [.retain e] } := by
      simp only [SubscriberSet.retain, hg]
    rw [hset]
    refine h.keep rfl rfl rfl [.retain e] rfl (by simp [Quiet])
      (existing_append_of_eq (fun _ => rfl)) ?_ (fun k => ?_)
    · rw [map_cons, List.nodup_cons]
      refine ⟨fun hm => ?_, h.emitters_nodup⟩
      obtain ⟨r, hr, hre⟩ := mem_map.mp hm
      exact he (any_eq_true.mpr ⟨r, hr, by simpa using hre⟩)
    · rw [held_cons rfl]
      have hk := set.ids_insert e k []
      simp only [ids] at hk ⊢
      rw [hk]
      by_cases hke : k = e
      · subst hke
        rw [held_of_not_retains he, filter_retaining_eq_nil he, hids]
        simp [Retaining.ids]
      · rw [if_neg hke, if_neg (Ne.symm hke), held]
        rfl

/-- A retain ends, or goes on to its next subscriber and calls it when it is active. -/
lemma proceed_cases (set : SubscriberSet κ) :
    set.proceed = set ∨
    (∃ e kept id waiting outer kept' calling called,
      set.retaining = ⟨e, kept, none, id :: waiting⟩ :: outer ∧
      set.proceed =
        { set with
          retaining := ⟨e, kept', calling, waiting⟩ :: outer
          log := set.log ++ [.turn e id called] } ∧
      (set.states id = .pending ∧ kept' = kept ++ [id] ∧ calling = none ∧ called = false ∨
        set.states id = .dropped ∧ kept' = kept ∧ calling = none ∧ called = false ∨
        set.states id = .active ∧ kept' = kept ∧ calling = some id ∧ called = true)) ∨
    ∃ e kept outer, set.retaining = ⟨e, kept, none, []⟩ :: outer ∧
      set.proceed =
        { set with
          subscribers := set.mergeBack e kept
          retaining := outer
          log := set.log ++ [.retained e] } := by
  rw [proceed]
  split
  · next e kept id waiting outer hr =>
    right
    left
    cases hs : set.states id with
    | pending =>
      exact ⟨e, kept, id, waiting, outer, kept ++ [id], none, false, hr, rfl, by simp [hs]⟩
    | dropped => exact ⟨e, kept, id, waiting, outer, kept, none, false, hr, rfl, by simp [hs]⟩
    | active => exact ⟨e, kept, id, waiting, outer, kept, some id, true, hr, rfl, by simp [hs]⟩
  · next e kept outer hr => exact .inr (.inr ⟨e, kept, outer, hr, rfl⟩)
  · exact .inl rfl

lemma Holds.nodup_cons (h : set.Holds) (hr : set.retaining = r :: outer) :
    ∀ r' ∈ outer, r'.emitter ≠ r.emitter := by
  have hn := h.emitters_nodup
  rw [hr, map_cons, List.nodup_cons] at hn
  intro r' hr' he
  exact hn.1 (he ▸ mem_map_of_mem hr')

lemma Holds.held_innermost (h : set.Holds) (hr : set.retaining = r :: outer) :
    set.held r.emitter = r.ids ++ set.ids r.emitter := by
  have hfilter : outer.filter (fun r' => r'.emitter = r.emitter) = [] := by
    rw [filter_eq_nil_iff]
    intro r' hr' he
    exact h.nodup_cons hr r' hr' (of_decide_eq_true he)
  rw [held_cons hr, if_pos rfl, hfilter]
  simp

lemma Holds.held_change (h : set.Holds) (set' : SubscriberSet κ) {r' : Retaining κ}
    (hr : set.retaining = r :: outer) (hr' : set'.retaining = r' :: outer)
    (he : r'.emitter = r.emitter) (hids : ∀ k, set'.ids k = set.ids k) (k : κ) :
    set'.held k = if k = r.emitter then r'.ids ++ set.ids r.emitter else set.held k := by
  by_cases hk : k = r.emitter
  · have hfilter : outer.filter (fun r' => r'.emitter = k) = [] := by
      rw [filter_eq_nil_iff]
      intro r' hr' he
      exact h.nodup_cons hr r' hr' ((of_decide_eq_true he).trans hk)
    rw [if_pos hk, held_cons hr', hfilter, he, if_pos hk.symm, hids, hk]
    simp
  · rw [if_neg hk, held_cons hr, held_cons hr', hids, he, if_neg (Ne.symm hk), if_neg (Ne.symm hk)]

lemma ids_mergeBack (h : (kept ++ set.ids e).Pairwise (· < ·)) (k : κ) :
    ((set.mergeBack e kept).get? k).getD [] = if k = e then kept ++ set.ids e else set.ids k := by
  rw [mergeBack]
  split
  · next hk =>
    rw [List.isEmpty_iff] at hk
    rw [hk, nil_append]
    split
    · next hnil =>
      have hids : set.ids e = [] := by rw [ids, hnil]; rfl
      rw [ids_filter_ne, hids]
    · split
      · next hke => rw [hke]; rfl
      · rfl
  · rw [ids_insert, foldr_insertId h]

theorem Holds.proceed (h : set.Holds) : set.proceed.Holds := by
  rcases set.proceed_cases with heq | ⟨e, kept, id, waiting, outer, kept', calling, called, hr, heq,
    hcase⟩ | ⟨e, kept, outer, hr, heq⟩
  · rw [heq]
    exact h
  · rw [heq]
    have hinner := h.held_innermost hr
    have hnodup : ((⟨e, kept', calling, waiting⟩ :: outer).map Retaining.emitter).Nodup := by
      have := h.emitters_nodup
      rwa [hr] at this
    have hheld := h.held_change { set with
      retaining := ⟨e, kept', calling, waiting⟩ :: outer
      log := set.log ++ [.turn e id called] } hr rfl rfl (fun _ => rfl)
    simp only [Retaining.ids, toList_none, append_nil] at hinner hheld
    rcases hcase with ⟨hs, rfl, rfl, rfl⟩ | ⟨hs, rfl, rfl, rfl⟩ | ⟨hs, rfl, rfl, rfl⟩
    · refine h.keep rfl rfl rfl [.turn e id false] rfl (by simp [Quiet])
        (existing_append_of_eq (fun _ => rfl)) hnodup (fun k => ?_)
      rw [hheld]
      split
      · next hk => rw [hk, hinner]; simp
      · rfl
    · -- a dropped subscriber is thrown away at its turn
      refine h.shrink rfl rfl rfl [.turn e id false] rfl (by simp [Quiet])
        (by rw [existing_append_of_eq (fun _ => rfl)]) hnodup (fun k => ?_) (fun x k hx => ?_)
        (fun x k _ hx => by rw [existing_append_of_eq (fun _ => rfl)]; exact hx)
      · rw [hheld]
        split
        · next hk => rw [hk, hinner]; simp
        · exact Sublist.refl _
      · rw [existing_append_of_eq (fun _ => rfl)] at hx
        have hx' := h.existing_held x k hx
        rw [hheld]
        split
        · next hk =>
          rw [hk, hinner] at hx'
          have hne : x ≠ id := by
            rintro rfl
            exact h.existing_not_dropped x k hx ((h.dropped_iff x).mp hs)
          simp only [toList_none, append_nil, mem_append, mem_cons, hne, false_or] at hx' ⊢
          exact hx'
        · exact hx'
    · refine h.keep rfl rfl rfl [.turn e id true] rfl (by simp [Quiet])
        (existing_append_of_eq (fun _ => rfl)) hnodup (fun k => ?_)
      rw [hheld]
      split
      · next hk => rw [hk, hinner]; simp
      · rfl
  · rw [heq]
    have hinner := h.held_innermost hr
    have hsorted := h.sorted e
    rw [hinner] at hsorted
    simp only [Retaining.ids, toList_none, append_nil] at hsorted hinner
    have hids := ids_mergeBack hsorted
    have hnodup : (outer.map Retaining.emitter).Nodup := by
      have := h.emitters_nodup
      rw [hr, map_cons, List.nodup_cons] at this
      exact this.2
    refine h.keep rfl rfl rfl [.retained e] rfl (by simp [Quiet])
      (existing_append_of_eq (fun _ => rfl)) hnodup (fun k => ?_)
    by_cases hk : k = e
    · subst hk
      have hfilter : outer.filter (fun r' => r'.emitter = k) = [] := by
        rw [filter_eq_nil_iff]
        intro r' hr' he
        exact h.nodup_cons hr r' hr' (of_decide_eq_true he)
      rw [hinner, held, hfilter, ids, hids, if_pos rfl]
      rfl
    · rw [held_cons hr, if_neg (Ne.symm hk), held, ids, hids, if_neg hk]
      rfl

omit [DecidableEq κ] in
/-- The called subscriber is kept when its callback asks for it and it was not dropped meanwhile. -/
lemma callbackReturns_cases (set : SubscriberSet κ) (keep : Bool) :
    set.callbackReturns keep = set ∨
    ∃ e kept id waiting outer kept', set.retaining = ⟨e, kept, some id, waiting⟩ :: outer ∧
      set.callbackReturns keep =
        { set with
          retaining := ⟨e, kept', none, waiting⟩ :: outer
          log := if keep then set.log else set.log ++ [.rejected id] } ∧
      (keep = true ∧ set.states id ≠ .dropped ∧ kept' = kept ++ [id] ∨
        (keep = false ∨ set.states id = .dropped) ∧ kept' = kept) := by
  rw [callbackReturns]
  split
  · next e kept id waiting outer hr =>
    refine .inr ⟨e, kept, id, waiting, outer, _, hr, rfl, ?_⟩
    cases keep <;> by_cases hs : set.states id = .dropped <;> simp [hs]
  · exact .inl rfl

theorem Holds.callbackReturns (h : set.Holds) (keep : Bool) : (set.callbackReturns keep).Holds := by
  rcases set.callbackReturns_cases keep with heq | ⟨e, kept, id, waiting, outer, kept', hr, heq,
    hcase⟩
  · rw [heq]
    exact h
  rw [heq]
  have hinner := h.held_innermost hr
  have hnodup : ((⟨e, kept', none, waiting⟩ :: outer).map Retaining.emitter).Nodup := by
    have := h.emitters_nodup
    rwa [hr] at this
  have hheld := h.held_change { set with
    retaining := ⟨e, kept', none, waiting⟩ :: outer
    log := if keep then set.log else set.log ++ [.rejected id] } hr rfl rfl (fun _ => rfl)
  simp only [Retaining.ids, toList_none, append_nil, toList_some] at hinner hheld
  rcases hcase with ⟨rfl, hs, rfl⟩ | ⟨hdead, rfl⟩
  · refine h.keep rfl rfl rfl [] (by simp) (by simp) rfl hnodup (fun k => ?_)
    rw [hheld]
    split
    · next hk => rw [hk, hinner]
    · rfl
  · -- the subscriber is gone: its callback rejected it, or it was dropped
    have hexisting : ∀ x k, (x, k) ∈ existing (if keep then set.log
        else set.log ++ [.rejected id]) ↔ (x, k) ∈ existing set.log ∧ (keep = false → x ≠ id) := by
      intro x k
      cases keep with
      | true => simp
      | false =>
        simp only [Bool.false_eq_true, if_false, existing_append, existingStep, mem_filter]
        simp
    refine h.shrink rfl rfl rfl (if keep then [] else [.rejected id]) ?_ ?_ ?_ hnodup
      (fun k => ?_) (fun x k hx => ?_) (fun x k hx hx' => (hexisting x k).mpr ⟨hx', ?_⟩)
    · cases keep <;> simp
    · cases keep <;> simp [Quiet]
    · cases keep with
      | true => exact Sublist.refl _
      | false =>
        simp only [Bool.false_eq_true, if_false, existing_append]
        exact filter_sublist
    · rw [hheld]
      split
      · next hk => rw [hk, hinner]; simp
      · exact Sublist.refl _
    · obtain ⟨hbefore, hne⟩ := (hexisting x k).mp hx
      have hx' := h.existing_held x k hbefore
      rw [hheld]
      split
      · next hk =>
        rw [hk, hinner] at hx'
        have hne : x ≠ id := by
          rcases hdead with hkeep | hs
          · exact hne hkeep
          · rintro rfl
            exact h.existing_not_dropped x k hbefore ((h.dropped_iff x).mp hs)
        simpa [hne] using hx'
      · exact hx'
    · -- ids are held once, and the rejected one is not held any more
      rintro - rfl
      have hsub := h.held_subscribed x k ((by
        rw [hheld] at hx
        split at hx
        · next hk => rw [hk, hinner]; simp only [mem_append] at hx ⊢; tauto
        · exact hx) : x ∈ set.held k)
      have hke : k = e := h.subscribed_unique x k e hsub
        (h.held_subscribed x e (by rw [hinner]; simp))
      rw [hheld, if_pos hke] at hx
      have hsorted := h.sorted e
      rw [hinner] at hsorted
      have hnd := hsorted.imp (fun hlt => Nat.ne_of_lt hlt)
      rw [show kept' ++ [x] ++ waiting ++ set.ids e = kept' ++ x :: (waiting ++ set.ids e) by simp]
        at hnd
      rw [List.append_assoc] at hx
      exact (nodup_middle.mp hnd |> List.nodup_cons.mp).1 hx

/-- One event keeps the invariant, so every run does. -/
theorem Holds.step (h : set.Holds) (event : Event κ) : (set.step event).Holds := by
  cases event with
  | insert e =>
    exact iteInduction (fun _ => (h.insertPending e).activate (Nat.lt_succ_self _)) fun _ => h
  | insertPending e => exact iteInduction (fun _ => h.insertPending e) fun _ => h
  | activate id => exact iteInduction (fun hid => h.activate hid.2) fun _ => h
  | drop id => exact iteInduction (fun _ => h.drop id) fun _ => h
  | remove e => exact iteInduction (fun he => h.remove he.2) fun _ => h
  | retain e => exact iteInduction (fun he => h.retain he.2) fun _ => h
  | proceed => exact h.proceed
  | callbackReturns keep => exact h.callbackReturns keep

lemma holds_new : (new : SubscriberSet κ).Holds := by
  refine ⟨by simp [new], fun k => ?_, ?_, fun x k hx => ?_, ?_, ?_, fun x k hx => ?_, ?_, ?_, ?_, ?_,
    ?_, ?_, ?_⟩
  · simp [held, new, ids]
  · simp [new, existing]
  · simp [held, new, ids] at hx
  · simp [new, existing]
  · simp [new]
  · simp [held, new, ids] at hx
  all_goals simp [new, isActive]

theorem holds_run (events : List (Event κ)) : (run events).Holds := by
  induction events using reverseRecOn with
  | nil => exact holds_new
  | append_singleton events event ih =>
    rw [run, foldl_append]
    exact ih.step event

end SubscriberSet

end GpuiFast
