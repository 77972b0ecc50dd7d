import GpuiFast.TrackedEntities
import Mathlib.Data.List.Induction

namespace GpuiFast

open List Option KeyMap Function

namespace EntityMap

/-- The entity is live, or not reserved yet. -/
def Unreleased (map : EntityMap) (e : ℕ) : Prop := e ∈ map.counts ∨ map.nextEntityId ≤ e

/-- The entities accessed since the draw began, in any scope. -/
def inDraw (map : EntityMap) : List ℕ := map.frame ++ map.scopes.flatten

/-- An entity not released yet is in the scopes of a draw exactly when the draw accessed it. -/
structure Holds (map : EntityMap) (accessed : List ℕ) : Prop where
  counts_lt : ∀ e ∈ map.counts, e < map.nextEntityId
  dropped_counted : ∀ e ∈ map.droppedEntityIds, e ∈ map.counts
  inDraw_counted : ∀ e ∈ map.inDraw, e ∈ map.counts
  accessed_lt : ∀ e ∈ accessed, e < map.nextEntityId
  accessed_iff : ∀ e, map.Unreleased e → (e ∈ map.inDraw ↔ e ∈ accessed)

lemma mem_extend {set entities : List ℕ} {e : ℕ} :
    e ∈ extend set entities ↔ e ∈ set ∨ e ∈ entities := by
  rw [extend, mem_append, mem_filter, decide_eq_true_eq]
  tauto

lemma mem_inDraw_extendInnermost {map : EntityMap} {entities : List ℕ} {e : ℕ} :
    e ∈ (map.extendInnermost entities).inDraw ↔ e ∈ map.inDraw ∨ e ∈ entities := by
  rw [extendInnermost]
  split
  · next hscopes =>
    rw [inDraw, inDraw, hscopes]
    simp only [flatten_nil, append_nil, mem_extend]
  · next scope scopes hscopes =>
    rw [inDraw, inDraw, hscopes]
    simp only [flatten_cons, mem_append, mem_extend]
    tauto

lemma extendInnermost_counts (map : EntityMap) (entities : List ℕ) :
    (map.extendInnermost entities).counts = map.counts ∧
      (map.extendInnermost entities).droppedEntityIds = map.droppedEntityIds ∧
      (map.extendInnermost entities).nextEntityId = map.nextEntityId := by
  rw [extendInnermost]
  split <;> exact ⟨rfl, rfl, rfl⟩

variable {map : EntityMap} {accessed : List ℕ}

lemma Holds.accesses (h : map.Holds accessed) {map' : EntityMap} {entities : List ℕ}
    (hcounts : map'.counts = map.counts ∧ map'.droppedEntityIds = map.droppedEntityIds ∧
      map'.nextEntityId = map.nextEntityId)
    (hinDraw : ∀ e, e ∈ map'.inDraw ↔ e ∈ map.inDraw ∨ e ∈ entities)
    (hentities : ∀ e ∈ entities, e ∈ map.counts) : map'.Holds (accessed ++ entities) := by
  obtain ⟨hcounts, hdropped, hnext⟩ := hcounts
  refine ⟨fun e he => ?_, fun e he => ?_, fun e he => ?_, fun e he => ?_, fun e he => ?_⟩
  · rw [hnext]
    exact h.counts_lt e (hcounts ▸ he)
  · rw [hcounts]
    exact h.dropped_counted e (hdropped ▸ he)
  · rw [hcounts]
    rcases (hinDraw e).mp he with he | he
    · exact h.inDraw_counted e he
    · exact hentities e he
  · rw [hnext]
    rcases mem_append.mp he with he | he
    · exact h.accessed_lt e he
    · exact h.counts_lt e (hentities e he)
  · rw [Unreleased, hcounts, hnext] at he
    rw [hinDraw, mem_append, h.accessed_iff e he]

lemma Holds.extendInnermost (h : map.Holds accessed) {entities : List ℕ}
    (hentities : ∀ e ∈ entities, e ∈ map.counts) :
    (map.extendInnermost entities).Holds (accessed ++ entities) :=
  h.accesses (map.extendInnermost_counts entities) (fun _ => mem_inDraw_extendInnermost) hentities

lemma Holds.same (h : map.Holds accessed) {map' : EntityMap}
    (hcounts : map'.counts = map.counts ∧ map'.droppedEntityIds = map.droppedEntityIds ∧
      map'.nextEntityId = map.nextEntityId)
    (hinDraw : ∀ e, e ∈ map'.inDraw ↔ e ∈ map.inDraw) : map'.Holds accessed := by
  have hsame := @Holds.accesses map accessed h map' [] hcounts (by simpa using hinDraw) (by simp)
  rwa [append_nil] at hsame

lemma Holds.pushAccessScope (h : map.Holds accessed) : map.pushAccessScope.Holds accessed :=
  h.same ⟨rfl, rfl, rfl⟩ (fun _ => Iff.rfl)

lemma Holds.popAccessScope (h : map.Holds accessed) : map.popAccessScope.1.Holds accessed := by
  rw [EntityMap.popAccessScope]
  split
  · exact h
  · next scope scopes hscopes =>
    refine h.same (extendInnermost_counts _ scope) (fun e => ?_)
    dsimp only
    rw [mem_inDraw_extendInnermost, inDraw, inDraw, hscopes]
    simp only [flatten_cons, mem_append]
    tauto

lemma Unreleased.of_reserve {e : ℕ} (h : map.reserve.Unreleased e) : map.Unreleased e := by
  rcases h with he | he
  · exact (mem_append.mp he).imp_right (fun he => Nat.le_of_eq (mem_singleton.mp he).symm)
  · exact .inr (Nat.le_of_succ_le he)

@[simp] lemma unreleased_extendInnermost {entities : List ℕ} {e : ℕ} :
    (map.extendInnermost entities).Unreleased e ↔ map.Unreleased e := by
  obtain ⟨hcounts, -, hnext⟩ := map.extendInnermost_counts entities
  rw [Unreleased, hcounts, hnext, Unreleased]

lemma Unreleased.of_popAccessScope {e : ℕ} (h : map.popAccessScope.1.Unreleased e) :
    map.Unreleased e := by
  rw [EntityMap.popAccessScope] at h
  split at h
  · exact h
  · next scope scopes _ =>
    exact (@unreleased_extendInnermost { map with scopes := scopes } scope e).mp h

lemma Holds.insert (h : map.Holds accessed) {id : ℕ} (hid : id ∈ map.counts) :
    (map.insert id).Holds (accessed ++ [id]) :=
  h.accesses (map.extendInnermost_counts [id])
    (fun _ => @mem_inDraw_extendInnermost map [id] _)
    (fun _ he => mem_singleton.mp he ▸ hid)

lemma Holds.reserve (h : map.Holds accessed) : map.reserve.Holds accessed := by
  refine ⟨fun e he => ?_, fun e he => mem_append_left _ (h.dropped_counted e he),
    fun e he => mem_append_left _ (h.inDraw_counted e he),
    fun e he => Nat.lt_succ_of_lt (h.accessed_lt e he), fun e he => h.accessed_iff e he.of_reserve⟩
  rcases mem_append.mp he with he | he
  · exact Nat.lt_succ_of_lt (h.counts_lt e he)
  · rw [mem_singleton.mp he]
    exact Nat.lt_succ_self _

lemma Holds.drop (h : map.Holds accessed) {id : ℕ} (hid : id ∈ map.counts) :
    (map.drop id).Holds accessed := by
  refine ⟨h.counts_lt, fun e he => ?_, h.inDraw_counted, h.accessed_lt, h.accessed_iff⟩
  rcases mem_append.mp he with he | he
  · exact h.dropped_counted e he
  · rwa [mem_singleton.mp he]

lemma Holds.clearAccessed (h : map.Holds accessed) : map.clearAccessed.Holds [] :=
  ⟨h.counts_lt, h.dropped_counted, fun e he => (by cases he), fun e he => (by cases he),
    fun e _ => ⟨fun he => (by cases he), fun he => (by cases he)⟩⟩

lemma Unreleased.of_takeDropped {e : ℕ} (h : map.takeDropped.1.Unreleased e) :
    map.Unreleased e := h.imp_left (fun he => (mem_filter.mp he).1)

lemma mem_inDraw_takeDropped {e : ℕ} :
    e ∈ map.takeDropped.1.inDraw ↔ e ∈ map.inDraw ∧ e ∉ map.droppedEntityIds := by
  rw [inDraw, inDraw, takeDropped]
  simp only [mem_append, mem_filter, mem_flatten, List.mem_map, decide_eq_true_eq]
  constructor
  · rintro (⟨he, hnot⟩ | ⟨_, ⟨scope, hscope, rfl⟩, he⟩)
    · exact ⟨.inl he, hnot⟩
    · obtain ⟨he, hnot⟩ := mem_filter.mp he
      exact ⟨.inr ⟨scope, hscope, he⟩, of_decide_eq_true hnot⟩
  · rintro ⟨he | ⟨scope, hscope, he⟩, hnot⟩
    · exact .inl ⟨he, hnot⟩
    · exact .inr ⟨_, ⟨scope, hscope, rfl⟩, mem_filter.mpr ⟨he, decide_eq_true hnot⟩⟩

lemma Holds.takeDropped (h : map.Holds accessed) : map.takeDropped.1.Holds accessed := by
  refine ⟨fun e he => h.counts_lt e (mem_filter.mp he).1, fun e he => (by cases he),
    fun e he => ?_, h.accessed_lt, fun e he => ?_⟩
  · obtain ⟨he, hnot⟩ := mem_inDraw_takeDropped.mp he
    exact mem_filter.mpr ⟨h.inDraw_counted e he, decide_eq_true hnot⟩
  · have hnot : e ∉ map.droppedEntityIds := by
      intro hdropped
      rcases he with he | he
      · exact of_decide_eq_true (mem_filter.mp he).2 hdropped
      · exact absurd (h.counts_lt e (h.dropped_counted e hdropped)) (Nat.not_lt.mpr he)
    rw [mem_inDraw_takeDropped, and_iff_left hnot, h.accessed_iff e he.of_takeDropped]

lemma Holds.takeDropped_released (h : map.Holds accessed) :
    ∀ e ∈ map.takeDropped.2, ¬ map.takeDropped.1.Unreleased e := by
  intro e he hun
  have hdropped : e ∈ map.droppedEntityIds := (mem_filter.mp he).1
  rcases hun with hun | hun
  · exact of_decide_eq_true (mem_filter.mp hun).2 hdropped
  · exact absurd (h.counts_lt e (h.dropped_counted e hdropped)) (Nat.not_lt.mpr hun)

end EntityMap

/-- A view of a map that each step of a fold changes at one key alone, the same way when repeated. -/
lemma foldl_view {M γ : Type*} (view : M → ℕ → γ) (f : ℕ → γ → γ) (step : M → ℕ → M)
    (hstep : ∀ m k j, view (step m k) j = if j = k then f k (view m k) else view m j)
    (hidem : ∀ k x, f k (f k x) = f k x) (entities : List ℕ) (m : M) (j : ℕ) :
    view (entities.foldl step m) j = if j ∈ entities then f j (view m j) else view m j := by
  induction entities generalizing m with
  | nil => rfl
  | cons k entities ih =>
    rw [foldl_cons, ih, hstep]
    by_cases hjk : j = k
    · subst hjk
      rw [if_pos rfl, if_pos (mem_cons_self ..), hidem, ite_self]
    · rw [if_neg hjk]
      simp only [mem_cons, hjk, false_or]

namespace WindowTracking

variable {ω ι : Type*} [DecidableEq ω]

/-- The invalidators an entity has, by window. -/
def windowsOf (map : KeyMap ℕ (KeyMap ω ι)) (e : ℕ) : Option (ω → Option ι) :=
  (map.get? e).map get?

def losing (window : ω) (windows : Option (ω → Option ι)) : Option (ω → Option ι) :=
  windows.map (fun windows => update windows window none)

def gaining (window : ω) (invalidator : ι) (windows : Option (ω → Option ι)) :
    Option (ω → Option ι) :=
  some (update (windows.getD (fun _ => none)) window (some invalidator))

lemma losing_losing (window : ω) (windows : Option (ω → Option ι)) :
    losing window (losing window windows) = losing window windows := by
  cases windows with
  | none => rfl
  | some windows =>
    rw [losing, losing, map_some, map_some, update_idem]

lemma gaining_gaining (window : ω) (invalidator : ι) (windows : Option (ω → Option ι)) :
    gaining window invalidator (gaining window invalidator windows) =
      gaining window invalidator windows := by
  rw [gaining, gaining, getD_some, update_idem]

lemma windowsOf_removeWindow (window : ω) (map : KeyMap ℕ (KeyMap ω ι)) (k j : ℕ) :
    windowsOf (removeWindow window map k) j =
      if j = k then losing window (windowsOf map k) else windowsOf map j := by
  rw [windowsOf, removeWindow, get?_modify]
  split
  · next hjk =>
    rw [hjk, losing, windowsOf, Option.map_map, Option.map_map]
    refine congrArg (fun f => Option.map f (map.get? k)) (funext (fun windows => ?_))
    funext w
    rw [comp_apply, get?_filter, comp_apply, update_apply]
    cases windows.get? w <;> by_cases hw : w = window <;> simp [Option.filter, hw]
  · rfl

lemma windowsOf_insertWindow (window : ω) (invalidator : ι) (map : KeyMap ℕ (KeyMap ω ι))
    (k j : ℕ) :
    windowsOf (insertWindow window invalidator map k) j =
      if j = k then gaining window invalidator (windowsOf map k) else windowsOf map j := by
  rw [windowsOf, insertWindow, get?_insert]
  split
  · rw [gaining, windowsOf, map_some]
    refine congrArg some (funext (fun w => ?_))
    rw [get?_insert, update_apply]
    cases map.get? k <;> rfl
  · rfl

def seen (maps : KeyMap ℕ (KeyMap ω ι) × KeyMap ℕ ω) (e : ℕ) :
    Option (ω → Option ι) × Option ω := (windowsOf maps.1 e, maps.2.get? e)

def seenIn (cx : WindowTracking ω ι) (e : ℕ) : Option (ω → Option ι) × Option ω :=
  seen (cx.windowInvalidatorsByEntity, cx.currentWindowByEntity) e

lemma windowsOf_losing (window : ω) (leaves : ℕ → Prop) [DecidablePred leaves] (entities : List ℕ)
    (map : KeyMap ℕ (KeyMap ω ι)) (e : ℕ) :
    windowsOf (entities.foldl
      (fun map entity => if leaves entity then removeWindow window map entity else map) map) e =
      if e ∈ entities ∧ leaves e then losing window (windowsOf map e) else windowsOf map e := by
  rw [foldl_view windowsOf (fun k x => if leaves k then losing window x else x)]
  · by_cases he : e ∈ entities <;> by_cases hl : leaves e <;> simp [he, hl]
  · intro m k j
    by_cases hk : leaves k
    · rw [if_pos hk, if_pos hk, windowsOf_removeWindow]
    · rw [if_neg hk, if_neg hk]
      split
      · next hjk => rw [hjk]
      · rfl
  · intro k x
    by_cases hk : leaves k
    · rw [if_pos hk, if_pos hk, losing_losing]
    · rw [if_neg hk, if_neg hk]

lemma seen_gaining (window : ω) (invalidator : ι) (enters : ℕ → Prop) [DecidablePred enters]
    (entities : List ℕ) (maps : KeyMap ℕ (KeyMap ω ι) × KeyMap ℕ ω) (e : ℕ) :
    seen (entities.foldl (fun (maps : KeyMap ℕ (KeyMap ω ι) × KeyMap ℕ ω) entity =>
      (if enters entity then insertWindow window invalidator maps.1 entity else maps.1,
        maps.2.insert entity window)) maps) e =
      if e ∈ entities then
        (if enters e then gaining window invalidator (seen maps e).1 else (seen maps e).1,
          some window)
      else seen maps e := by
  rw [foldl_view seen (fun k x =>
    (if enters k then gaining window invalidator x.1 else x.1, some window))]
  · intro m k j
    rw [seen]
    dsimp only
    rw [get?_insert]
    by_cases hk : enters k
    · rw [if_pos hk, if_pos hk, windowsOf_insertWindow]
      split <;> rfl
    · rw [if_neg hk, if_neg hk]
      split
      · next hjk => rw [hjk, seen]
      · rfl
  · intro k x
    by_cases hk : enters k
    · rw [if_pos hk, if_pos hk, gaining_gaining]
    · rw [if_neg hk, if_neg hk]

/-- What recording a draw leaves for an entity: the invalidators are changed only where the windows
that track it change. -/
lemma seenIn_recordEntitiesAccessed (cx : WindowTracking ω ι) (window : ω) (invalidator : ι)
    (entities : List ℕ) (e : ℕ) :
    (cx.recordEntitiesAccessed window invalidator entities).seenIn e =
      if e ∈ entities then
        (if e ∈ cx.tracked window then (cx.seenIn e).1
          else gaining window invalidator (cx.seenIn e).1, some window)
      else if e ∈ cx.tracked window then (losing window (cx.seenIn e).1, (cx.seenIn e).2)
      else cx.seenIn e := by
  rw [seenIn, recordEntitiesAccessed]
  dsimp only
  rw [seen_gaining window invalidator (fun k => k ∉ cx.tracked window), seen]
  dsimp only
  rw [windowsOf_losing window (fun k => k ∉ entities), seenIn, seen]
  by_cases he : e ∈ entities <;> by_cases ht : e ∈ cx.tracked window <;> simp [he, ht]

lemma seenIn_upstreamRecord (cx : WindowTracking ω ι) (window : ω) (invalidator : ι)
    (entities : List ℕ) (e : ℕ) :
    (cx.upstreamRecord window invalidator entities).seenIn e =
      if e ∈ entities then
        (gaining window invalidator
          (if e ∈ cx.tracked window then losing window (cx.seenIn e).1 else (cx.seenIn e).1),
          some window)
      else if e ∈ cx.tracked window then (losing window (cx.seenIn e).1, (cx.seenIn e).2)
      else cx.seenIn e := by
  have hgaining := seen_gaining window invalidator (fun _ => True) entities
  have hlosing := windowsOf_losing (ι := ι) window (fun _ => True) (cx.tracked window)
  simp only [if_true, and_true] at hgaining hlosing
  rw [seenIn, upstreamRecord]
  dsimp only
  rw [hgaining, seen]
  dsimp only
  rw [hlosing, seenIn, seen]
  by_cases he : e ∈ entities <;> by_cases ht : e ∈ cx.tracked window <;> simp [he, ht]

lemma seenIn_close (cx : WindowTracking ω ι) (window : ω) (e : ℕ) :
    (cx.close window).seenIn e =
      if e ∈ cx.tracked window then
        (losing window (cx.seenIn e).1,
          if (cx.seenIn e).2 = some window then none else (cx.seenIn e).2)
      else cx.seenIn e := by
  rw [seenIn, close]
  dsimp only
  rw [foldl_view seen (fun _ x => (losing window x.1, if x.2 = some window then none else x.2))]
  · rfl
  · intro m k j
    rw [seen]
    dsimp only
    rw [windowsOf_removeWindow]
    split
    · next hjk =>
      rw [hjk, seen]
      dsimp only
      split
      · rw [get?_filter]
        cases m.2.get? k <;> simp [Option.filter]
      · rfl
    · next hjk =>
      rw [seen]
      split
      · rw [get?_filter]
        cases m.2.get? j <;> simp [Option.filter, hjk]
      · rfl
  · intro k x
    rw [losing_losing]
    dsimp only
    by_cases hx : x.2 = some window
    · rw [if_pos hx, if_neg (Option.some_ne_none _).symm]
    · rw [if_neg hx, if_neg hx]

def windowAt (cx : WindowTracking ω ι) (e : ℕ) (window : ω) : Option ι :=
  (cx.seenIn e).1.bind (fun windows => windows window)

/-- The maps say of an entity what the draws of the log did. -/
structure Shows (invalidator : ω → ι) (cx : WindowTracking ω ι) (e : ℕ) : Prop where
  tracked : ∀ w, e ∈ cx.tracked w ↔ e ∈ (Drawn.ofLog cx.log).lastDraw w
  windows : ∀ w, cx.windowAt e w = if e ∈ cx.tracked w then some (invalidator w) else none
  current : ∀ w, (cx.seenIn e).2 = some w → (Drawn.ofLog cx.log).drewLast e = some w
  drewLast : ∀ w, .closed w ∉ cx.log → (Drawn.ofLog cx.log).drewLast e = some w →
    (cx.seenIn e).2 = some w

lemma ofLog_append (log : List (DrawObservation ω)) (o : DrawObservation ω) :
    Drawn.ofLog (log ++ [o]) = (Drawn.ofLog log).step o := by
  rw [Drawn.ofLog, foldl_append]
  rfl

/-- The two logs have the same finished draws and closed windows. -/
def SameDraws (log log' : List (DrawObservation ω)) : Prop :=
  (Drawn.ofLog log').lastDraw = (Drawn.ofLog log).lastDraw ∧
    (Drawn.ofLog log').drewLast = (Drawn.ofLog log).drewLast ∧
      ∀ w, .closed w ∈ log' ↔ .closed w ∈ log

lemma sameDraws_refl (log : List (DrawObservation ω)) : SameDraws log log :=
  ⟨rfl, rfl, fun _ => Iff.rfl⟩

lemma sameDraws_accessed (log : List (DrawObservation ω)) (entities : List ℕ) :
    SameDraws log (log ++ [.accessed entities]) := by
  rw [SameDraws, ofLog_append]
  exact ⟨rfl, rfl, by simp⟩

lemma sameDraws_began (log : List (DrawObservation ω)) (window : ω) :
    SameDraws log (log ++ [.began window]) := by
  rw [SameDraws, ofLog_append]
  exact ⟨rfl, rfl, by simp⟩

variable {invalidator : ω → ι} {cx cx' : WindowTracking ω ι} {e : ℕ}

lemma Shows.same (h : Shows invalidator cx e) (htracked : cx'.trackedEntities = cx.trackedEntities)
    (hwindows : ∀ w, cx'.windowAt e w = cx.windowAt e w)
    (hcurrent : (cx'.seenIn e).2 = (cx.seenIn e).2) (hlog : SameDraws cx.log cx'.log) :
    Shows invalidator cx' e := by
  obtain ⟨hlast, hdrew, hclosed⟩ := hlog
  have htracked' : ∀ w, cx'.tracked w = cx.tracked w := fun w => by
    rw [WindowTracking.tracked, htracked, WindowTracking.tracked]
  refine ⟨fun w => ?_, fun w => ?_, fun w hw => ?_, fun w hw hlast' => ?_⟩
  · rw [htracked', hlast]
    exact h.tracked w
  · rw [hwindows, htracked']
    exact h.windows w
  · rw [hdrew]
    exact h.current w (hcurrent ▸ hw)
  · rw [hcurrent]
    rw [hclosed] at hw
    rw [hdrew] at hlast'
    exact h.drewLast w hw hlast'

lemma tracked_insert (cx : WindowTracking ω ι) (window w : ω) (entities : List ℕ) :
    ((cx.trackedEntities.insert window entities).get? w).getD [] =
      if w = window then entities else cx.tracked w := by
  rw [get?_insert]
  split <;> rfl

lemma windowAt_losing (window w : ω) (windows : Option (ω → Option ι)) :
    (losing window windows).bind (fun windows => windows w) =
      if w = window then none else windows.bind (fun windows => windows w) := by
  cases windows with
  | none => simp [losing]
  | some windows =>
    rw [losing, map_some, bind_some, update_apply]
    rfl

lemma windowAt_gaining (window w : ω) (i : ι) (windows : Option (ω → Option ι)) :
    (gaining window i windows).bind (fun windows => windows w) =
      if w = window then some i else windows.bind (fun windows => windows w) := by
  rw [gaining, bind_some, update_apply]
  cases windows <;> rfl

lemma Shows.endDraw (h : Shows invalidator cx e) {window : ω}
    (haccessed : e ∈ cx.entities.frame ↔ e ∈ (Drawn.ofLog cx.log).accessed) :
    Shows invalidator (cx.endDraw recordEntitiesAccessed invalidator window) e := by
  have hseen := cx.seenIn_recordEntitiesAccessed window (invalidator window) cx.entities.frame e
  have htracked : ∀ w, (cx.endDraw recordEntitiesAccessed invalidator window).tracked w =
      if w = window then cx.entities.frame else cx.tracked w :=
    fun w => cx.tracked_insert window w cx.entities.frame
  have hlog : (cx.endDraw recordEntitiesAccessed invalidator window).log =
      cx.log ++ [.drew window] := rfl
  have hseen' : (cx.endDraw recordEntitiesAccessed invalidator window).seenIn e =
      (cx.recordEntitiesAccessed window (invalidator window) cx.entities.frame).seenIn e := rfl
  rw [← hseen'] at hseen
  refine ⟨fun w => ?_, fun w => ?_, fun w hw => ?_, fun w hclosed hw => ?_⟩
  · rw [htracked, hlog, ofLog_append, Drawn.step]
    dsimp only
    rw [update_apply]
    split
    · exact haccessed
    · exact h.tracked w
  · have hw := h.windows w
    have hwindow := h.windows window
    rw [windowAt] at hw hwindow
    rw [htracked, windowAt, hseen]
    by_cases hwin : w = window
    · subst hwin
      rw [if_pos rfl]
      by_cases he : e ∈ cx.entities.frame <;> by_cases ht : e ∈ cx.tracked w <;>
        simp [he, ht, hw, windowAt_gaining, windowAt_losing]
    · rw [if_neg hwin, ← hw]
      by_cases he : e ∈ cx.entities.frame <;> by_cases ht : e ∈ cx.tracked window <;>
        simp [he, ht, hwin, windowAt_gaining, windowAt_losing]
  · rw [hlog, ofLog_append, Drawn.step]
    dsimp only
    rw [hseen] at hw
    by_cases he : e ∈ cx.entities.frame
    · rw [if_pos he] at hw
      rw [if_pos (haccessed.mp he)]
      exact hw
    · rw [if_neg he] at hw
      rw [if_neg (fun ha => he (haccessed.mpr ha))]
      refine h.current w ?_
      split at hw <;> exact hw
  · rw [hlog, ofLog_append, Drawn.step] at hw
    dsimp only at hw
    rw [hlog, mem_append, not_or] at hclosed
    rw [hseen]
    by_cases he : e ∈ cx.entities.frame
    · rw [if_pos (haccessed.mp he)] at hw
      rw [if_pos he]
      exact hw
    · rw [if_neg (fun ha => he (haccessed.mpr ha))] at hw
      rw [if_neg he]
      have hcurrent := h.drewLast w hclosed.1 hw
      split <;> exact hcurrent

lemma Shows.close (h : Shows invalidator cx e) (window : ω) :
    Shows invalidator (cx.close window) e := by
  have hseen := cx.seenIn_close window e
  have htracked : ∀ w, (cx.close window).tracked w = if w = window then [] else cx.tracked w := by
    intro w
    rw [WindowTracking.tracked, WindowTracking.close]
    dsimp only
    rw [get?_filter, WindowTracking.tracked]
    by_cases hw : w = window <;> cases cx.trackedEntities.get? w <;> simp [Option.filter, hw]
  have hlog : (cx.close window).log = cx.log ++ [.closed window] := rfl
  refine ⟨fun w => ?_, fun w => ?_, fun w hw => ?_, fun w hclosed hw => ?_⟩
  · rw [htracked, hlog, ofLog_append, Drawn.step]
    dsimp only
    rw [update_apply]
    split
    · rfl
    · exact h.tracked w
  · have hw := h.windows w
    rw [windowAt] at hw
    rw [htracked, windowAt, hseen]
    by_cases hwin : w = window
    · subst hwin
      rw [if_pos rfl]
      by_cases ht : e ∈ cx.tracked w <;> simp [ht, hw, windowAt_losing]
    · rw [if_neg hwin, ← hw]
      by_cases ht : e ∈ cx.tracked window <;> simp [ht, hwin, windowAt_losing]
  · rw [hlog, ofLog_append, Drawn.step]
    refine h.current w ?_
    rw [hseen] at hw
    split at hw
    · dsimp only at hw
      split at hw
      · cases hw
      · exact hw
    · exact hw
  · rw [hlog, ofLog_append, Drawn.step] at hw
    rw [hlog, mem_append, mem_singleton, DrawObservation.closed.injEq, not_or] at hclosed
    have hcurrent := h.drewLast w hclosed.1 hw
    rw [hseen]
    split
    · rw [hcurrent, if_neg (fun heq => hclosed.2 (some.inj heq))]
    · exact hcurrent

lemma seenIn_release {cx : WindowTracking ω ι} {k : ℕ} {releasing : List ℕ}
    (hreleasing : cx.releasing = k :: releasing) (e : ℕ) :
    cx.release.seenIn e = if e = k then (none, none) else cx.seenIn e := by
  rw [seenIn, WindowTracking.release, hreleasing, seen, seenIn, seen, windowsOf, windowsOf]
  dsimp only
  rw [get?_filter, get?_filter]
  by_cases he : e = k <;> cases cx.windowInvalidatorsByEntity.get? e <;>
    cases cx.currentWindowByEntity.get? e <;> simp [Option.filter, he]

lemma Shows.release (h : Shows invalidator cx e) (he : ∀ k ∈ cx.releasing, k ≠ e) :
    Shows invalidator cx.release e := by
  cases hr : cx.releasing with
  | nil =>
    rw [WindowTracking.release, hr]
    exact h
  | cons k releasing =>
    have hne : e ≠ k := fun hek => he k (by rw [hr]; exact mem_cons_self ..) hek.symm
    have hseen : cx.release.seenIn e = cx.seenIn e := by rw [seenIn_release hr, if_neg hne]
    refine h.same ?_ (fun w => ?_) (by rw [hseen]) ?_
    · rw [WindowTracking.release, hr]
    · rw [windowAt, windowAt, hseen]
    · rw [WindowTracking.release, hr]
      exact sameDraws_refl _

lemma invalidateViews_eq (cx : WindowTracking ω ι) (entity : ℕ) (entries : List (ω × ι)) :
    ∃ dirtyViews pendingNotifications,
      entries.foldl (fun cx entry => cx.invalidateView entity entry) cx =
        { cx with dirtyViews := dirtyViews, pendingNotifications := pendingNotifications } := by
  induction entries generalizing cx with
  | nil => exact ⟨_, _, rfl⟩
  | cons entry entries ih =>
    obtain ⟨dirtyViews, pendingNotifications, heq⟩ := ih (cx.invalidateView entity entry)
    exact ⟨dirtyViews, pendingNotifications, heq⟩

lemma notify_eq (cx : WindowTracking ω ι) (entity : ℕ) :
    ∃ dirtyViews pendingNotifications, cx.notify entity = { cx with
      windowInvalidatorsByEntity := (cx.windowInvalidatorsByEntity.insert entity .empty).insert
        entity ((cx.windowInvalidatorsByEntity.get? entity).getD .empty)
      dirtyViews := dirtyViews
      pendingNotifications := pendingNotifications } := by
  rw [notify]
  dsimp only
  split
  · exact ⟨_, _, rfl⟩
  · obtain ⟨dirtyViews, pendingNotifications, heq⟩ := invalidateViews_eq
      { cx with windowInvalidatorsByEntity := cx.windowInvalidatorsByEntity.insert entity .empty }
      entity (((cx.windowInvalidatorsByEntity.get? entity).getD .empty).entries.filter
        (fun entry => entity ∈ cx.tracked entry.1))
    refine ⟨dirtyViews, pendingNotifications, ?_⟩
    exact congrArg (fun notified : WindowTracking ω ι => { notified with
      windowInvalidatorsByEntity := notified.windowInvalidatorsByEntity.insert entity
        ((cx.windowInvalidatorsByEntity.get? entity).getD .empty) }) heq

lemma seenIn_notify (cx : WindowTracking ω ι) (entity e : ℕ) :
    (cx.notify entity).seenIn e =
      if e = entity then (some ((cx.seenIn e).1.getD (fun _ => none)), (cx.seenIn e).2)
      else cx.seenIn e := by
  obtain ⟨dirtyViews, pendingNotifications, heq⟩ := cx.notify_eq entity
  rw [heq, seenIn, seenIn, seen, seen, windowsOf, windowsOf]
  dsimp only
  rw [get?_insert, get?_insert]
  by_cases he : e = entity
  · rw [if_pos he, if_pos he, ← he]
    cases cx.windowInvalidatorsByEntity.get? e <;> rfl
  · rw [if_neg he, if_neg he, if_neg he]

lemma Shows.notify (h : Shows invalidator cx e) (entity : ℕ) :
    Shows invalidator (cx.notify entity) e := by
  have hseen := cx.seenIn_notify entity e
  obtain ⟨dirtyViews, pendingNotifications, heq⟩ := cx.notify_eq entity
  refine h.same (by rw [heq]) (fun w => ?_) ?_ (by rw [heq]; exact sameDraws_refl _)
  · rw [windowAt, windowAt, hseen]
    split
    · cases (cx.seenIn e).1 <;> rfl
    · rfl
  · rw [hseen]
    split <;> rfl

/-- The invariant of the tracking, for every entity not released yet. -/
structure Holds (invalidator : ω → ι) (cx : WindowTracking ω ι) : Prop where
  entities : cx.entities.Holds (Drawn.ofLog cx.log).accessed
  releasing : ∀ e ∈ cx.releasing, ¬ cx.entities.Unreleased e
  shows : ∀ e, cx.entities.Unreleased e → Shows invalidator cx e

lemma Holds.entities_step (h : Holds invalidator cx) {map : EntityMap} {accessed : List ℕ}
    (hmap : map.Holds ((Drawn.ofLog cx.log).accessed ++ accessed))
    (hunreleased : ∀ e, map.Unreleased e → cx.entities.Unreleased e) :
    Holds invalidator { cx with entities := map, log := cx.log ++ [.accessed accessed] } where
  entities := by
    rw [ofLog_append]
    exact hmap
  releasing := fun e he hun => h.releasing e he (hunreleased e hun)
  shows := fun e hun => (h.shows e (hunreleased e hun)).same rfl (fun _ => rfl) rfl
    (sameDraws_accessed _ _)

lemma Holds.entities_only (h : Holds invalidator cx) {map : EntityMap}
    (hmap : map.Holds (Drawn.ofLog cx.log).accessed)
    (hunreleased : ∀ e, map.Unreleased e → cx.entities.Unreleased e) :
    Holds invalidator { cx with entities := map } where
  entities := hmap
  releasing := fun e he hun => h.releasing e he (hunreleased e hun)
  shows := fun e hun => (h.shows e (hunreleased e hun)).same rfl (fun _ => rfl) rfl
    (sameDraws_refl _)

lemma Holds.release (h : Holds invalidator cx) : Holds invalidator cx.release := by
  have hentities : cx.release.entities = cx.entities ∧ cx.release.log = cx.log ∧
      ∀ e ∈ cx.release.releasing, e ∈ cx.releasing := by
    rw [WindowTracking.release]
    split
    · exact ⟨rfl, rfl, fun _ he => he⟩
    · next hreleasing =>
      rw [hreleasing]
      exact ⟨rfl, rfl, fun _ he => mem_cons_of_mem _ he⟩
  obtain ⟨hentities, hlog, hreleasing⟩ := hentities
  refine ⟨?_, fun e he => ?_, fun e he => ?_⟩
  · rw [hentities, hlog]
    exact h.entities
  · rw [hentities]
    exact h.releasing e (hreleasing e he)
  · rw [hentities] at he
    exact (h.shows e he).release (fun k hk hke => h.releasing k hk (hke ▸ he))

lemma Holds.endDraw (h : Holds invalidator cx) {window : ω} (hscopes : cx.entities.scopes = []) :
    Holds invalidator (cx.endDraw recordEntitiesAccessed invalidator window) := by
  have hlog : (cx.endDraw recordEntitiesAccessed invalidator window).log =
      cx.log ++ [.drew window] := rfl
  refine ⟨?_, h.releasing, fun e he => (h.shows e he).endDraw ?_⟩
  · rw [hlog, ofLog_append]
    exact h.entities
  · rw [← h.entities.accessed_iff e he, EntityMap.inDraw, hscopes, flatten_nil, append_nil]

lemma Holds.close (h : Holds invalidator cx) (window : ω) :
    Holds invalidator (cx.close window) := by
  have hlog : (cx.close window).log = cx.log ++ [.closed window] := rfl
  refine ⟨?_, h.releasing, fun e he => (h.shows e he).close window⟩
  rw [hlog, ofLog_append]
  exact h.entities

lemma Holds.notify (h : Holds invalidator cx) (entity : ℕ) :
    Holds invalidator (cx.notify entity) := by
  obtain ⟨dirtyViews, pendingNotifications, heq⟩ := cx.notify_eq entity
  refine ⟨?_, ?_, fun e he => Shows.notify (h.shows e ?_) entity⟩
  · rw [heq]
    exact h.entities
  · rw [heq]
    exact h.releasing
  · rwa [heq] at he

/-- One event keeps the invariant. -/
lemma Holds.step (h : Holds invalidator cx) (event : Event ω) :
    Holds invalidator (cx.step recordEntitiesAccessed invalidator event) := by
  cases event with
  | reserve => exact h.entities_only h.entities.reserve (fun e he => he.of_reserve)
  | insert id =>
    simp only [WindowTracking.step]
    split
    · next hid =>
      exact h.entities_step (h.entities.insert hid)
        (fun e he => EntityMap.unreleased_extendInnermost.mp he)
    · exact h
  | access id =>
    simp only [WindowTracking.step]
    split
    · next hid =>
      exact h.entities_step (h.entities.extendInnermost (fun e he => mem_singleton.mp he ▸ hid))
        (fun e he => EntityMap.unreleased_extendInnermost.mp he)
    · exact h
  | extendAccessed entities =>
    exact h.entities_step (h.entities.extendInnermost
        (fun e he => of_decide_eq_true (mem_filter.mp he).2))
      (fun e he => EntityMap.unreleased_extendInnermost.mp he)
  | pushAccessScope => exact h.entities_only h.entities.pushAccessScope (fun e he => he)
  | popAccessScope =>
    exact h.entities_only h.entities.popAccessScope (fun e he => he.of_popAccessScope)
  | drop id =>
    exact iteInduction (fun hid => h.entities_only (h.entities.drop hid.1) (fun e he => he)) fun _ => h
  | takeDropped =>
    simp only [WindowTracking.step]
    split
    · have hmap := h.entities_only h.entities.takeDropped (fun e he => he.of_takeDropped)
      exact ⟨hmap.entities, h.entities.takeDropped_released, fun e he =>
        (hmap.shows e he).same rfl (fun _ => rfl) rfl (sameDraws_refl _)⟩
    · exact h
  | release => exact h.release
  | beginDraw window =>
    simp only [WindowTracking.step]
    split
    · refine ⟨?_, h.releasing, fun e he => (h.shows e he).same rfl (fun _ => rfl) rfl
        (sameDraws_began _ _)⟩
      rw [ofLog_append]
      exact h.entities.clearAccessed
    · exact h
  | endDraw =>
    simp only [WindowTracking.step]
    split
    · split
      · next hscopes => exact h.endDraw hscopes
      · exact h
    · exact h
  | notify entity => exact h.notify entity
  | close window =>
    simp only [WindowTracking.step]
    split
    · exact h
    · exact h.close window

end WindowTracking

end GpuiFast
