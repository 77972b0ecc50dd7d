import GpuiFast.TrackedEntitiesHold

namespace GpuiFast

namespace WindowTracking

variable {ω ι : Type*} [DecidableEq ω] {invalidator : ω → ι}

structure Agrees (cx upstream : WindowTracking ω ι) : Prop where
  entities : cx.entities = upstream.entities
  trackedEntities : cx.trackedEntities = upstream.trackedEntities
  drawing : cx.drawing = upstream.drawing
  releasing : cx.releasing = upstream.releasing
  log : cx.log = upstream.log
  seenIn : ∀ e, cx.seenIn e = upstream.seenIn e

variable {cx upstream : WindowTracking ω ι}

lemma Agrees.tracked (h : Agrees cx upstream) (window : ω) :
    cx.tracked window = upstream.tracked window := by
  rw [WindowTracking.tracked, h.trackedEntities, WindowTracking.tracked]

lemma gaining_losing {window : ω} {i : ι} {windows : Option (ω → Option ι)}
    (h : windows.bind (fun windows => windows window) = some i) :
    gaining window i (losing window windows) = windows := by
  obtain ⟨windows', rfl, hwindow⟩ := Option.bind_eq_some_iff.mp h
  rw [losing, Option.map_some, gaining, Option.getD_some, Function.update_idem, ← hwindow,
    Function.update_eq_self]

section

variable (h : Agrees cx upstream)
include h

variable (window : ω) (map : EntityMap)

lemma Agrees.record (i : ι) (entities : List ℕ)
    (hagain : ∀ e ∈ entities, e ∈ cx.tracked window → cx.windowAt e window = some i) :
    Agrees (cx.recordEntitiesAccessed window i entities)
      (upstream.upstreamRecord window i entities) := by
  refine ⟨h.entities, ?_, h.drawing, h.releasing, h.log, fun e => ?_⟩
  · rw [recordEntitiesAccessed, upstreamRecord, h.trackedEntities]
  · rw [seenIn_recordEntitiesAccessed, seenIn_upstreamRecord, ← h.tracked, ← h.seenIn]
    by_cases he : e ∈ entities
    · by_cases ht : e ∈ cx.tracked window
      · rw [if_pos he, if_pos ht, if_pos he, if_pos ht, gaining_losing (hagain e he ht)]
      · rw [if_pos he, if_neg ht, if_pos he, if_neg ht]
    · rw [if_neg he, if_neg he]

lemma Agrees.endDraw (hcx : Holds invalidator cx) (window : ω) :
    Agrees (cx.endDraw recordEntitiesAccessed invalidator window)
      (upstream.endDraw upstreamRecord invalidator window) := by
  have hagain : ∀ e ∈ cx.entities.frame, e ∈ cx.tracked window →
      cx.windowAt e window = some (invalidator window) := by
    intro e he ht
    -- what a draw accessed and is still there is counted, so the maps show it
    have hcounted := hcx.entities.inDraw_counted e (List.mem_append_left _ he)
    rw [(hcx.shows e (Or.inl hcounted)).windows window, if_pos ht]
  obtain ⟨hentities, htracked, -, hreleasing, -, hseen⟩ := h.record window (invalidator window)
    cx.entities.frame hagain
  rw [WindowTracking.endDraw, WindowTracking.endDraw, ← h.entities]
  exact ⟨hentities, htracked, rfl, hreleasing, congrArg (· ++ _) h.log, hseen⟩

lemma Agrees.release : Agrees cx.release upstream.release := by
  cases hr : cx.releasing with
  | nil =>
    rw [WindowTracking.release, WindowTracking.release, ← h.releasing, hr]
    exact h
  | cons k releasing =>
    have hr' : upstream.releasing = k :: releasing := h.releasing ▸ hr
    have hseen : ∀ e, cx.release.seenIn e = upstream.release.seenIn e := by
      intro e
      rw [seenIn_release hr, seenIn_release hr', h.seenIn]
    rw [WindowTracking.release, WindowTracking.release, hr, hr'] at hseen ⊢
    exact ⟨h.entities, h.trackedEntities, h.drawing, rfl, h.log, hseen⟩

lemma Agrees.close : Agrees (cx.close window) (upstream.close window) := by
  refine ⟨h.entities, ?_, h.drawing, h.releasing, congrArg (· ++ _) h.log, fun e => ?_⟩
  · rw [WindowTracking.close, WindowTracking.close, h.trackedEntities]
  · rw [seenIn_close, seenIn_close, h.tracked, h.seenIn]

lemma Agrees.notify (entity : ℕ) : Agrees (cx.notify entity) (upstream.notify entity) := by
  have hseen : ∀ e, (cx.notify entity).seenIn e = (upstream.notify entity).seenIn e := by
    intro e
    rw [seenIn_notify, seenIn_notify, h.seenIn]
  obtain ⟨dirtyViews, pendingNotifications, heq⟩ := cx.notify_eq entity
  obtain ⟨dirtyViews', pendingNotifications', heq'⟩ := upstream.notify_eq entity
  rw [heq, heq'] at hseen ⊢
  exact ⟨h.entities, h.trackedEntities, h.drawing, h.releasing, h.log, hseen⟩

lemma Agrees.entities_step (observations : List (DrawObservation ω)) :
    Agrees { cx with entities := map, log := cx.log ++ observations }
      { upstream with entities := map, log := upstream.log ++ observations } :=
  ⟨rfl, h.trackedEntities, h.drawing, h.releasing, congrArg (· ++ _) h.log, h.seenIn⟩

lemma Agrees.entities_only : Agrees { cx with entities := map } { upstream with entities := map } :=
  ⟨rfl, h.trackedEntities, h.drawing, h.releasing, h.log, h.seenIn⟩

lemma Agrees.step (hcx : Holds invalidator cx) (event : Event ω) :
    Agrees (cx.step recordEntitiesAccessed invalidator event)
      (upstream.step upstreamRecord invalidator event) := by
  cases event with
  | reserve =>
    simp only [WindowTracking.step, ← h.entities]
    exact h.entities_only _
  | insert id =>
    simp only [WindowTracking.step, ← h.entities]
    split
    · exact h.entities_step _ _
    · exact h
  | access id =>
    simp only [WindowTracking.step, ← h.entities]
    split
    · exact h.entities_step _ _
    · exact h
  | extendAccessed entities =>
    simp only [WindowTracking.step, ← h.entities]
    exact h.entities_step _ _
  | pushAccessScope =>
    simp only [WindowTracking.step, ← h.entities]
    exact h.entities_only _
  | popAccessScope =>
    simp only [WindowTracking.step, ← h.entities]
    exact h.entities_only _
  | drop id =>
    simp only [WindowTracking.step, ← h.entities]
    split
    · exact h.entities_only _
    · exact h
  | takeDropped =>
    simp only [WindowTracking.step, ← h.entities, ← h.releasing]
    split
    · exact ⟨rfl, h.trackedEntities, h.drawing, rfl, h.log, h.seenIn⟩
    · exact h
  | release => exact h.release
  | beginDraw window =>
    simp only [WindowTracking.step, ← h.entities, ← h.drawing]
    split
    · exact ⟨rfl, h.trackedEntities, rfl, h.releasing, congrArg (· ++ _) h.log, h.seenIn⟩
    · exact h
  | endDraw =>
    simp only [WindowTracking.step, ← h.entities, ← h.drawing]
    split
    · split
      · exact h.endDraw hcx _
      · exact h
    · exact h
  | notify entity => exact h.notify entity
  | close window =>
    simp only [WindowTracking.step, ← h.drawing]
    split
    · exact h
    · exact h.close window

end

lemma Holds.new (invalidator : ω → ι) : Holds invalidator WindowTracking.new where
  entities := ⟨fun _ he => (by cases he), fun _ he => (by cases he), fun _ he => (by cases he),
    fun _ he => (by cases he), fun _ _ => Iff.rfl⟩
  releasing := fun _ he => (by cases he)
  shows := fun _ _ => ⟨fun _ => Iff.rfl, fun _ => rfl, fun _ hw => (by cases hw),
    fun _ _ hw => (by cases hw)⟩

lemma run_append (record : Record ω ι) (invalidator : ω → ι) (events : List (Event ω))
    (event : Event ω) :
    run record invalidator (events ++ [event]) =
      (run record invalidator events).step record invalidator event := by
  rw [run, List.foldl_append]
  rfl

lemma holds_run (invalidator : ω → ι) (events : List (Event ω)) :
    Holds invalidator (run recordEntitiesAccessed invalidator events) := by
  induction events using List.reverseRecOn with
  | nil => exact Holds.new invalidator
  | append_singleton events event ih =>
    rw [run_append]
    exact ih.step event

lemma agrees_run (invalidator : ω → ι) (events : List (Event ω)) :
    Agrees (run recordEntitiesAccessed invalidator events)
      (run upstreamRecord invalidator events) := by
  induction events using List.reverseRecOn with
  | nil => exact ⟨rfl, rfl, rfl, rfl, rfl, fun _ => rfl⟩
  | append_singleton events event ih =>
    rw [run_append, run_append]
    exact ih.step (holds_run invalidator events) event

/-- The maps of windows and entities, after any steps: a counted entity's entry has exactly the
windows whose last draw accessed it, each with its invalidator. Its current window drew it last, and
the window that drew it last is its current one while it has not been closed. Rewriting the entries
of all entities tracked and drawn leaves the same maps. -/
theorem run_tracks (invalidator : ω → ι) (events : List (Event ω)) :
    let cx := run recordEntitiesAccessed invalidator events
    let upstream := run upstreamRecord invalidator events
    let drawn := Drawn.ofLog cx.log
    (∀ e ∈ cx.entities.counts,
      (∀ w, cx.windowAt e w = if e ∈ drawn.lastDraw w then some (invalidator w) else none) ∧
      (∀ w, cx.currentWindowByEntity.get? e = some w → drawn.drewLast e = some w) ∧
      (∀ w, .closed w ∉ cx.log → drawn.drewLast e = some w →
        cx.currentWindowByEntity.get? e = some w)) ∧
    cx.log = upstream.log ∧ cx.trackedEntities = upstream.trackedEntities ∧
      (∀ e w, cx.windowAt e w = upstream.windowAt e w) ∧
      ∀ e, cx.currentWindowByEntity.get? e = upstream.currentWindowByEntity.get? e := by
  intro cx upstream drawn
  have hagrees := agrees_run invalidator events
  refine ⟨fun e he => ?_, hagrees.log, hagrees.trackedEntities, fun e w => ?_, fun e => ?_⟩
  · have hshows := (holds_run invalidator events).shows e (Or.inl he)
    refine ⟨fun w => ?_, hshows.current, hshows.drewLast⟩
    rw [hshows.windows w]
    simp only [hshows.tracked w]
    rfl
  · rw [windowAt, windowAt, hagrees.seenIn]
  · exact congrArg Prod.snd (hagrees.seenIn e)

/-- Two windows draw an entity, and the one that drew it last is closed. No window is its current
one then, though the other still shows it. -/
theorem run_closed_noCurrentWindow :
    let cx := run recordEntitiesAccessed id
      [.reserve, .insert 0, .beginDraw 0, .access 0, .endDraw, .beginDraw 1, .access 0, .endDraw,
        .close 1]
    let drawn := Drawn.ofLog cx.log
    0 ∈ cx.entities.counts ∧ cx.currentWindowByEntity.get? 0 = none ∧
      drawn.drewLast 0 = some 1 ∧ 0 ∈ drawn.lastDraw 0 ∧ .closed 0 ∉ cx.log := by
  decide

end WindowTracking

end GpuiFast
