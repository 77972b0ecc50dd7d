import GpuiFast.ScrollLogWatches

namespace GpuiFast

open List

namespace ScrollWorld

/-! ## The accounts

What is noted of a view between two looks at a container it holds.
-/

/-- The notifications of a view that are not a wheel's own, and the offsets set of its containers
that a window counted as scrolls since its last frame ended. -/
structure Tally where
  sets : ℕ
  paid : ℕ
  other : ℕ
  deriving DecidableEq

def Tally.note (view : EntityId) (tally : Tally) : ScrollAction → Tally
  | .notify v .offsetSet => if v = view then { tally with paid := tally.paid + 1 } else tally
  | .notify v .other => if v = view then { tally with other := tally.other + 1 } else tally
  | .change | .offsetSet _ => tally

def Tally.noteWheel (view : EntityId) (tally : Tally) : WheelAction → Tally
  | .scroll _ | .scrollList _ _ => tally
  | .action action => tally.note view action

/-- Whether a wheel event's action scrolls a container of `view`'s. -/
def scrolls (view : EntityId) : WheelAction → Bool
  | .scroll container => container.view = view
  | .scrollList _ v => v = view
  | .action _ => false

/-- Whether a wheel event scrolls a container of `view`'s and changes nothing else: what its
listeners notify `view` for is then the scroll. -/
def scrollsOnly (view : EntityId) (actions : List WheelAction) : Bool :=
  actions.any (scrolls view) && !actions.contains (.action .change)

/-- How many scrolls of containers `view` painted the offsets set amount to, once per container
an offset set moved. -/
def offsetsSetOf (world : ScrollWorld) (window : WindowId) (view : EntityId) : ℕ :=
  (world.offsetsSet.map (fun source =>
    (world.logs window).containers.count (fun c => c.view = view && c.movedBy source))).sum

def tallyStep (window : WindowId) (view : EntityId) (world : ScrollWorld) (tally : Tally) :
    ScrollEvent → Tally
  | .action action => tally.note view action
  | .wheel _ actions =>
    if scrollsOnly view actions then tally else actions.foldl (Tally.noteWheel view) tally
  | .look w _ _ _ =>
    if w = window then { tally with sets := tally.sets + world.offsetsSetOf window view } else tally
  | .finishFrame w => if w = window then { tally with sets := 0 } else tally
  | .painted _ _ | .dropLayer _ _ => tally

/-- The tally of `view` in `window` after `events`. -/
def tally (window : WindowId) (view : EntityId) (world : ScrollWorld) (start : Tally) :
    List ScrollEvent → Tally
  | [] => start
  | event :: events =>
    tally window view (world.step event) (tallyStep window view world start event) events

/-- What the window counts as scrolls of `view`'s containers. -/
def scrollNotifies (world : ScrollWorld) (window : WindowId) (view : EntityId) : ℕ :=
  (world.logs window).scrollNotifies view

/-- A layer whose container `view` held at the last look, notified `since` times by then, and the
accounts from then on. -/
structure Accounts (world : ScrollWorld) (window : WindowId) (id : GlobalElementId)
    (view : EntityId) (since : ℕ) (tally : Tally) : Prop where
  watching : world.Watching
  policy : world.layers.get? (window, id) = some ⟨some view, since⟩
  notified : since + tally.paid + tally.other ≤ world.notifies view
  counted : world.scrollNotifies window view + since + tally.paid + tally.other ≤
    world.notifies view + tally.sets

lemma Accounts.watched {world : ScrollWorld} {window : WindowId} {id : GlobalElementId}
    {view : EntityId} {since : ℕ} {tally : Tally} (h : world.Accounts window id view since tally) :
    ∃ watched, world.ownerNotifies.get? view = some watched := by
  have hc : 0 < world.watches view := by
    rw [h.watching.watches_eq]
    exact KeyMap.count_pos h.policy (by simp [heldBy])
  cases hg : world.ownerNotifies.get? view with
  | none => simp [watches, hg] at hc
  | some watched => exact ⟨watched, rfl⟩

/-- Whether `action` notifies `view`. -/
def notifiesOf (view : EntityId) : WheelAction → ℕ
  | .scroll container => if container.view = view then 1 else 0
  | .scrollList _ v => if v = view then 1 else 0
  | .action (.notify v _) => if v = view then 1 else 0
  | .action .change | .action (.offsetSet _) => 0

variable (world : ScrollWorld) {watched : OwnerNotifies}

variable {u : EntityId} (log : ScrollLog) (window w : WindowId)

lemma notifies_noteNotify (h : world.ownerNotifies.get? u = some watched) (view : EntityId) :
    (world.noteNotify view).notifies u = world.notifies u + if view = u then 1 else 0 := by
  simp only [notifies, get?_noteNotify, h, eq_comm (a := u)]
  split <;> rfl

lemma noteNotify_watched (h : world.ownerNotifies.get? u = some watched) (view : EntityId) :
    ∃ watched, (world.noteNotify view).ownerNotifies.get? u = some watched := by
  rw [get?_noteNotify, h]
  split <;> exact ⟨_, rfl⟩

lemma noteScrolled_scrollNotifies (container : ScrollContainer) (frame : ℕ) (u : EntityId) :
    (log.noteScrolled container frame).scrollNotifies u =
      log.scrollNotifies u + if container.view = u then 1 else 0 := by
  have hcount : (log.countScroll container.view).scrollNotifies u =
      log.scrollNotifies u + if container.view = u then 1 else 0 := by
    simp only [ScrollLog.countScroll, Function.update_apply, eq_comm (a := u)]
    split
    · next h => rw [h]
    · rfl
  simp only [ScrollLog.noteScrolled]
  split
  · exact hcount
  · exact hcount

lemma noteListScrolled_scrollNotifies (version : ℕ) (view u : EntityId) :
    log.scrollNotifies u ≤ (log.noteListScrolled version view).scrollNotifies u ∧
      (log.noteListScrolled version view).scrollNotifies u ≤
        log.scrollNotifies u + if view = u then 1 else 0 := by
  simp only [ScrollLog.noteListScrolled]
  split
  · simp only [ScrollLog.countScroll, Function.update_apply, eq_comm (a := u)]
    split
    · next h => subst h; omega
    · omega
  · exact ⟨le_rfl, Nat.le_add_right _ _⟩

lemma scrollNotifies_updateLog (f : ScrollLog → ScrollLog) (view : EntityId) :
    (world.updateLog w f).scrollNotifies window view =
      if window = w then (f (world.logs w)).scrollNotifies view
      else world.scrollNotifies window view := by
  simp only [scrollNotifies, updateLog, Function.update_apply]
  split <;> rfl

/-- What one action of a wheel event in `w` does to the counts of a watched view. -/
structure WheelStep (window w : WindowId) (view : EntityId) (world world' : ScrollWorld)
    (action : WheelAction) : Prop where
  watched : ∃ watched, world'.ownerNotifies.get? view = some watched
  notified : world'.notifies view = world.notifies view + notifiesOf view action
  le_scrolls : world.scrollNotifies window view ≤ world'.scrollNotifies window view
  scrolls_le : world'.scrollNotifies window view ≤
    world.scrollNotifies window view + if scrolls view action then 1 else 0
  changes : world'.changes = world.changes + if action = .action .change then 1 else 0
  layers : world'.layers = world.layers

lemma wheelAct_spec {world : ScrollWorld} {view : EntityId}
    (h : world.ownerNotifies.get? view = some watched) (window w : WindowId) (action : WheelAction) :
    WheelStep window w view world (world.wheelAct w action) action := by
  cases action with
  | scroll container =>
    have hs : (world.wheelAct w (.scroll container)).scrollNotifies window view =
        if window = w then world.scrollNotifies window view + (if container.view = view then 1 else 0)
        else world.scrollNotifies window view := by
      refine (world.scrollNotifies_updateLog window w
        (·.noteScrolled container (world.frames w)) view).trans ?_
      by_cases hw : window = w
      · rw [if_pos hw, if_pos hw, noteScrolled_scrollNotifies, hw]
        rfl
      · rw [if_neg hw, if_neg hw]
    refine ⟨noteNotify_watched (world.updateLog w _) h _,
      notifies_noteNotify (world.updateLog w _) h _, ?_, ?_, rfl, rfl⟩
    · rw [hs]
      split <;> omega
    · rw [hs]
      simp only [scrolls, decide_eq_true_eq]
      split <;> omega
  | scrollList version v =>
    have hl := noteListScrolled_scrollNotifies (world.logs w) version v view
    have hs : (world.wheelAct w (.scrollList version v)).scrollNotifies window view =
        if window = w then ((world.logs w).noteListScrolled version v).scrollNotifies view
        else world.scrollNotifies window view :=
      world.scrollNotifies_updateLog window w (·.noteListScrolled version v) view
    refine ⟨noteNotify_watched (world.updateLog w _) h _,
      notifies_noteNotify (world.updateLog w _) h _, ?_, ?_, rfl, rfl⟩
    · rw [hs]
      split
      · next hw => rw [scrollNotifies, hw]; exact hl.1
      · exact le_rfl
    · rw [hs]
      simp only [scrolls, decide_eq_true_eq]
      split
      · next hw => rw [scrollNotifies, hw]; exact hl.2
      · omega
  | action action =>
    cases action with
    | notify v reason =>
      exact ⟨noteNotify_watched world h v, notifies_noteNotify world h v, le_rfl, Nat.le_add_right _ _,
        by simp [wheelAct, act, noteNotify], rfl⟩
    | change => exact ⟨⟨watched, h⟩, rfl, le_rfl, Nat.le_add_right _ _, rfl, rfl⟩
    | offsetSet source =>
      exact ⟨⟨watched, h⟩, rfl, le_rfl, Nat.le_add_right _ _, by simp [wheelAct, act], rfl⟩

lemma noteWheel_spec (view : EntityId) (tally : Tally) (action : WheelAction) :
    (tally.noteWheel view action).sets = tally.sets ∧
      (tally.noteWheel view action).paid + (tally.noteWheel view action).other +
        (if scrolls view action then 1 else 0) =
        tally.paid + tally.other + notifiesOf view action := by
  rcases action with container | ⟨version, v⟩ | action
  · exact ⟨rfl, by simp [Tally.noteWheel, scrolls, notifiesOf]⟩
  · exact ⟨rfl, by simp [Tally.noteWheel, scrolls, notifiesOf]⟩
  · rcases action with ⟨v, reason⟩ | _ | source
    · by_cases hv : v = view <;> cases reason <;>
        simp only [Tally.noteWheel, Tally.note, scrolls, notifiesOf, hv, if_true, if_false,
          Bool.false_eq_true, true_and] <;> omega
    · exact ⟨rfl, rfl⟩
    · exact ⟨rfl, rfl⟩

structure WheelRun (window : WindowId) (view : EntityId) (world world' : ScrollWorld)
    (tally tally' : Tally) (actions : List WheelAction) : Prop where
  watched : ∃ watched, world'.ownerNotifies.get? view = some watched
  layers : world'.layers = world.layers
  sets : tally'.sets = tally.sets
  le_tally : tally.paid + tally.other ≤ tally'.paid + tally'.other
  le_scrolls : world.scrollNotifies window view ≤ world'.scrollNotifies window view
  notified : world'.scrollNotifies window view + tally'.paid + tally'.other +
      world.notifies view ≤
    world'.notifies view + world.scrollNotifies window view + tally.paid + tally.other
  scrolls : world.scrollNotifies window view < world'.scrollNotifies window view →
    actions.any (scrolls view) = true
  le_changes : world.changes ≤ world'.changes
  changes : world'.changes = world.changes → WheelAction.action .change ∉ actions

lemma foldl_wheelAct_spec {view : EntityId} (actions : List WheelAction) (tally : Tally) :
    ∀ {world : ScrollWorld} {watched : OwnerNotifies},
    world.ownerNotifies.get? view = some watched →
    WheelRun window view world (actions.foldl (wheelAct w) world) tally
      (actions.foldl (Tally.noteWheel view) tally) actions := by
  induction actions generalizing tally with
  | nil =>
    intro world watched h
    exact ⟨⟨watched, h⟩, rfl, rfl, le_rfl, le_rfl, by simp only [foldl_nil]; omega,
      fun h => absurd h (lt_irrefl _), le_rfl, fun _ => not_mem_nil⟩
  | cons action actions ih =>
    intro world watched h
    have hs := wheelAct_spec h window w action
    obtain ⟨watched', hw'⟩ := hs.watched
    have ht := noteWheel_spec view tally action
    have hr := ih (tally.noteWheel view action) hw'
    have hn := hs.notified
    have hle := hs.scrolls_le
    have hge := hs.le_scrolls
    have hc := hs.changes
    refine ⟨hr.watched, hr.layers.trans hs.layers, hr.sets.trans ht.1, ?_,
      hge.trans hr.le_scrolls, ?_, ?_, ?_, ?_⟩
    · have h1 := hr.le_tally
      have h2 := hs.notified
      have h3 : (if ScrollWorld.scrolls view action then 1 else 0) ≤ notifiesOf view action := by
        rcases action with container | ⟨version, v⟩ | ⟨v, _ | _⟩ | _ | source <;>
          simp [ScrollWorld.scrolls, notifiesOf]
      simp only [foldl_cons]
      omega
    · have h1 := hr.notified
      simp only [foldl_cons]
      omega
    · intro hlt
      rw [any_cons, Bool.or_eq_true]
      by_cases hsc : ScrollWorld.scrolls view action = true
      · exact .inl hsc
      · rw [if_neg hsc] at hle
        refine .inr (hr.scrolls ?_)
        simp only [foldl_cons] at hlt
        omega
    · have h1 := hr.le_changes
      simp only [foldl_cons]
      omega
    · intro heq
      have h1 := hr.le_changes
      simp only [foldl_cons] at heq
      have hne : action ≠ .action .change := by
        intro ha
        rw [if_pos ha] at hc
        omega
      rw [if_neg hne] at hc
      have h2 := hr.changes (by omega)
      simp only [mem_cons, not_or]
      exact ⟨fun ha => hne ha.symm, h2⟩

lemma foldl_countDispatched (before : WheelBefore) (scrollNotifies : EntityId → ℕ) (view : EntityId) :
    world.ownerNotifies.entries.foldl (countDispatched before) scrollNotifies view =
        scrollNotifies view ∨
      ∃ notifiedBefore, before.notifies.get? view = some notifiedBefore ∧
        before.scrollNotifies view < scrollNotifies view ∧
        world.ownerNotifies.entries.foldl (countDispatched before) scrollNotifies view =
          before.scrollNotifies view + (world.notifies view - notifiedBefore.notifies) := by
  refine foldlRecOn (motive := fun counted : EntityId → ℕ =>
    counted view = scrollNotifies view ∨
      ∃ notifiedBefore, before.notifies.get? view = some notifiedBefore ∧
        before.scrollNotifies view < scrollNotifies view ∧
        counted view = before.scrollNotifies view +
          (world.notifies view - notifiedBefore.notifies))
    _ _ (.inl rfl) (fun counted hcounted e he => ?_)
  simp only [countDispatched]
  cases hb : before.notifies.get? e.1 with
  | none => exact hcounted
  | some notifiedBefore =>
    dsimp only
    split
    swap
    · exact hcounted
    next hlt =>
    by_cases hv : e.1 = view
    swap
    · rw [Function.update_of_ne (fun h => hv h.symm)]
      exact hcounted
    -- an entry of the view itself; a second one would find the count where this one put it
    have hn : world.notifies view = e.2.notifies := by
      have hg : world.ownerNotifies.get? view = some e.2 := by
        rw [KeyMap.get?_eq_some, ← hv]
        exact he
      rw [notifies, hg]
      rfl
    rw [hv] at hlt hb
    rw [hv, Function.update_self]
    right
    rcases hcounted with heq | ⟨nb, hnb, hlt', heq⟩
    · refine ⟨notifiedBefore, hb, ?_, ?_⟩
      · omega
      · rw [hn]
        omega
    · rw [hb] at hnb
      injection hnb with hnb
      subst hnb
      exact ⟨notifiedBefore, hb, hlt', by omega⟩

section

variable {world : ScrollWorld} {window : WindowId} {id : GlobalElementId} {view : EntityId}
  {since : ℕ} {start : Tally}

lemma Accounts.action (h : world.Accounts window id view since start) (action : ScrollAction) :
    (world.act action).Accounts window id view since (start.note view action) := by
  obtain ⟨watched, hw⟩ := h.watched
  have hr := foldl_wheelAct_spec window window [.action action] start hw
  have hsets := hr.sets
  have hle := hr.le_tally
  have hle' := hr.le_scrolls
  have hn := hr.notified
  have h1 := h.notified
  have h2 := h.counted
  simp only [foldl_cons, foldl_nil, wheelAct, Tally.noteWheel] at hsets hle hle' hn
  exact ⟨h.watching.act action, by rw [← h.policy]; exact congrArg (·.get? (window, id)) hr.layers,
    by omega, by omega⟩

lemma layers_endDispatch (world : ScrollWorld) (window : WindowId) (before : Option WheelBefore) :
    (world.endDispatch window before).layers = world.layers := by
  cases before with
  | none => rfl
  | some before => simp only [endDispatch]; split <;> rfl

lemma notifies_endDispatch (world : ScrollWorld) (window : WindowId) (before : Option WheelBefore)
    (view : EntityId) : (world.endDispatch window before).notifies view = world.notifies view := by
  cases before with
  | none => rfl
  | some before => simp only [endDispatch]; split <;> rfl

lemma scrollNotifies_endDispatch (world world' : ScrollWorld) (window w : WindowId)
    (view : EntityId) :
    (world'.endDispatch w (world.beginDispatch w)).scrollNotifies window view =
        world'.scrollNotifies window view ∨
      world'.changes = world.changes ∧
        world.scrollNotifies window view < world'.scrollNotifies window view ∧
        (world'.endDispatch w (world.beginDispatch w)).scrollNotifies window view =
          world.scrollNotifies window view + (world'.notifies view - world.notifies view) := by
  simp only [beginDispatch]
  split
  swap
  · exact .inl rfl
  simp only [endDispatch]
  split
  · exact .inl rfl
  next hc =>
  rw [scrollNotifies_updateLog]
  split
  swap
  · exact .inl rfl
  next hw =>
  subst hw
  rcases foldl_countDispatched world' ⟨world.changes, world.ownerNotifies,
    (world.logs window).scrollNotifies⟩ (world'.logs window).scrollNotifies view with
    heq | ⟨notifiedBefore, hb, hlt, heq⟩
  · exact .inl heq
  · have hn : world.notifies view = notifiedBefore.notifies := by
      simp only at hb
      rw [notifies, hb]
      rfl
    exact .inr ⟨not_not.mp hc, hlt, by rw [hn]; exact heq⟩

lemma Accounts.wheel (h : world.Accounts window id view since start) (w : WindowId)
    (actions : List WheelAction) :
    (world.step (.wheel w actions)).Accounts window id view since
      (tallyStep window view world start (.wheel w actions)) := by
  obtain ⟨watched, hw⟩ := h.watched
  have hr := foldl_wheelAct_spec window w actions start hw
  have hsets := hr.sets
  have hle := hr.le_tally
  have hle' := hr.le_scrolls
  have hn := hr.notified
  have h1 := h.notified
  have h2 := h.counted
  have hend := scrollNotifies_endDispatch world (actions.foldl (wheelAct w) world) window w view
  have hkeep := notifies_endDispatch (actions.foldl (wheelAct w) world) w
    (world.beginDispatch w) view
  refine ⟨h.watching.step _, ?_, ?_, ?_⟩
  · simp only [step, layers_endDispatch, hr.layers]
    exact h.policy
  · simp only [step, tallyStep, hkeep]
    split <;> omega
  · simp only [step, tallyStep, hkeep]
    rcases hend with heq | ⟨hc, hlt, heq⟩
    · rw [heq]
      split <;> omega
    · have honly : scrollsOnly view actions = true := by
        simp [scrollsOnly, hr.scrolls hlt, hr.changes hc]
      rw [heq, if_pos honly]
      omega

variable (moved : List (GlobalElementId × PaintedContainer)) (log : ScrollLog)

lemma foldl_countScroll (view : EntityId) :
    (moved.foldl (fun log e =>
      { log.countScroll e.2.view with scrolled := e.1 :: log.scrolled }) log).scrollNotifies view =
      log.scrollNotifies view + moved.countP (fun e => e.2.view = view) := by
  induction moved generalizing log with
  | nil => rfl
  | cons e moved ih =>
    rw [foldl_cons, ih, countP_cons]
    by_cases hv : e.2.view = view
    · simp [ScrollLog.countScroll, hv]
      omega
    · simp [ScrollLog.countScroll, hv, Function.update_of_ne (Ne.symm hv)]

lemma foldl_countScroll_containers :
    (moved.foldl (fun log e =>
      { log.countScroll e.2.view with scrolled := e.1 :: log.scrolled }) log).containers =
      log.containers := by
  induction moved generalizing log with
  | nil => rfl
  | cons e moved ih => rw [foldl_cons, ih]; rfl

lemma takeOffsetSet_scrollNotifies (source : ScrollSource) (view : EntityId) :
    (log.takeOffsetSet source).scrollNotifies view = log.scrollNotifies view +
      log.containers.count (fun c => c.view = view && c.movedBy source) := by
  simp only [ScrollLog.takeOffsetSet, foldl_countScroll, KeyMap.count, countP_filter]

lemma takeOffsetsSet_scrollNotifies (sources : List ScrollSource) (log : ScrollLog)
    (view : EntityId) :
    (log.takeOffsetsSet sources).scrollNotifies view = log.scrollNotifies view +
      (sources.map (fun source =>
        log.containers.count (fun c => c.view = view && c.movedBy source))).sum := by
  induction sources generalizing log with
  | nil => rfl
  | cons source sources ih =>
    have hcontainers : (log.takeOffsetSet source).containers = log.containers :=
      foldl_countScroll_containers _ log
    rw [ScrollLog.takeOffsetsSet, foldl_cons, ← ScrollLog.takeOffsetsSet, ih, hcontainers,
      takeOffsetSet_scrollNotifies, map_cons, sum_cons]
    omega

lemma scrollNotifies_takeOffsetsSet (world : ScrollWorld) (window w : WindowId) (view : EntityId) :
    (world.takeOffsetsSet w).scrollNotifies window view = world.scrollNotifies window view +
      if w = window then world.offsetsSetOf window view else 0 := by
  refine (world.scrollNotifies_updateLog window w (·.takeOffsetsSet world.offsetsSet) view).trans ?_
  by_cases hw : window = w
  · rw [if_pos hw, if_pos hw.symm, takeOffsetsSet_scrollNotifies, hw]
    rfl
  · rw [if_neg hw, if_neg (Ne.symm hw)]
    rfl

/-- The tally with the offsets set that a look of `w` takes in. -/
def Tally.takeIn (world : ScrollWorld) (window w : WindowId) (view : EntityId) (tally : Tally) :
    Tally :=
  if w = window then { tally with sets := tally.sets + world.offsetsSetOf window view } else tally

lemma Accounts.takeOffsetsSet (h : world.Accounts window id view since start) (w : WindowId) :
    (world.takeOffsetsSet w).Accounts window id view since (start.takeIn world window w view) := by
  have h1 := h.notified
  have h2 := h.counted
  refine ⟨h.watching.takeOffsetsSet w, h.policy, ?_, ?_⟩
  · simp only [Tally.takeIn]
    split <;> exact h1
  · rw [scrollNotifies_takeOffsetsSet]
    simp only [Tally.takeIn]
    split
    · exact (by omega : world.scrollNotifies window view + world.offsetsSetOf window view + since +
        start.paid + start.other ≤
          world.notifies view + (start.sets + world.offsetsSetOf window view))
    · exact h2

lemma Accounts.setOwner (h : world.Accounts window id view since start)
    (key : WindowId × GlobalElementId) (hne : (window, id) ≠ key) (owner : Option EntityId) :
    (world.setOwner key.1 key.2 owner).Accounts window id view since start := by
  have hn : (world.setOwner key.1 key.2 owner).notifies view = world.notifies view := by
    rw [setOwner_eq]
    exact notifies_rewatch (fun ho => one_lt_watches h.watching hne ho h.policy rfl)
  have hlogs : (world.setOwner key.1 key.2 owner).logs = world.logs := by
    rw [setOwner_eq]
    obtain ⟨counts, hcounts⟩ := world.rewatch_eq ((world.layers.get? key).bind (·.owner)) owner
    simp only [hcounts]
  refine ⟨h.watching.setOwner _ _ owner, ?_, hn ▸ h.notified, ?_⟩
  · rw [setOwner_eq]
    simp only [KeyMap.get?_insert, if_neg hne]
    exact h.policy
  · rw [hn, scrollNotifies, hlogs]
    exact h.counted


lemma Accounts.dropLayer (h : world.Accounts window id view since start)
    {key : WindowId × GlobalElementId} (hne : (window, id) ≠ key) :
    (world.dropLayer key).Accounts window id view since start := by
  have hwatching := h.watching.dropLayer key
  simp only [ScrollWorld.dropLayer] at hwatching ⊢
  cases hk : world.layers.get? key with
  | none => exact h
  | some policy =>
    obtain ⟨counts, hcounts⟩ := world.elim_unwatch_eq policy.owner
    have hn : (policy.owner.elim world world.unwatch).notifies view = world.notifies view :=
      notifies_elim_unwatch (fun ho =>
        one_lt_watches h.watching hne (by rw [hk]; exact ho) h.policy rfl)
    have hlogs : (policy.owner.elim world world.unwatch).logs = world.logs := by rw [hcounts]
    have hlayers : (policy.owner.elim world world.unwatch).layers = world.layers := by rw [hcounts]
    rw [hk] at hwatching
    refine ⟨hwatching, ?_, ?_, ?_⟩
    · simp only [hlayers, KeyMap.get?_filter, h.policy]
      simp [hne]
    · exact (hn ▸ h.notified : since + start.paid + start.other ≤
        (policy.owner.elim world world.unwatch).notifies view)
    · have hs : (policy.owner.elim world world.unwatch).scrollNotifies window view =
          world.scrollNotifies window view := by rw [scrollNotifies, hlogs]; rfl
      have h2 := h.counted
      rw [← hs, ← hn] at h2
      exact h2

/-- Whether `event` neither looks at the container nor drops its layer. -/
def keepsLayer (window : WindowId) (id : GlobalElementId) : ScrollEvent → Bool
  | .look w i _ bypassed => bypassed || decide ((window, id) ≠ (w, i))
  | .dropLayer w i => decide ((window, id) ≠ (w, i))
  | _ => true

lemma Accounts.step (h : world.Accounts window id view since start) {event : ScrollEvent}
    (hkeep : keepsLayer window id event = true) :
    (world.step event).Accounts window id view since (tallyStep window view world start event) := by
  cases event with
  | action action => exact h.action action
  | wheel w actions => exact h.wheel w actions
  | painted w container =>
    have hs : (world.step (.painted w container)).scrollNotifies window view =
        world.scrollNotifies window view := by
      refine (world.scrollNotifies_updateLog window w
        (·.remember container (world.frames w)) view).trans ?_
      split
      · next hw => rw [hw]; rfl
      · rfl
    exact ⟨h.watching.step _, h.policy, h.notified, by rw [hs]; exact h.counted⟩
  | look w i owner bypassed =>
    have htaken := h.takeOffsetsSet w
    simp only [ScrollWorld.step]
    split
    · exact htaken
    · next hb =>
      have hne : (window, id) ≠ (w, i) := by
        rw [keepsLayer, Bool.or_eq_true, decide_eq_true_eq] at hkeep
        exact hkeep.resolve_left hb
      exact htaken.setOwner (w, i) hne owner
  | dropLayer w i => exact h.dropLayer (of_decide_eq_true hkeep)
  | finishFrame w =>
    have hs : (world.step (.finishFrame w)).scrollNotifies window view =
        if window = w then 0 else world.scrollNotifies window view :=
      world.scrollNotifies_updateLog window w (fun log => log.finishFrame (world.frames w)
        (fun id => (world.layers.get? (w, id)).isSome)) view
    have h1 := h.notified
    have h2 := h.counted
    refine ⟨h.watching.step _, h.policy, ?_, ?_⟩
    · simp only [tallyStep]
      split <;> exact h1
    · rw [hs]
      by_cases hw : w = window
      · simp only [tallyStep, hw, if_true, Nat.zero_add]
        exact h1
      · simp only [tallyStep, hw, Ne.symm hw, if_false]
        exact h2

lemma Accounts.run (h : world.Accounts window id view since start) {events : List ScrollEvent}
    (hkeep : ∀ event ∈ events, keepsLayer window id event = true) :
    (world.run events).Accounts window id view since (tally window view world start events) := by
  induction events generalizing world start with
  | nil => exact h
  | cons event events ih =>
    exact ih (h.step (hkeep event (mem_cons_self ..)))
      (fun e he => hkeep e (mem_cons_of_mem _ he))

lemma accounts_look (h : world.Watching) (window : WindowId) (id : GlobalElementId)
    (view : EntityId) :
    let looked := world.step (.look window id (some view) false)
    looked.Accounts window id view (looked.notifies view)
      ⟨looked.scrollNotifies window view, 0, 0⟩ := by
  refine ⟨h.step _, ?_, le_rfl, by simp only; omega⟩
  simp only [ScrollWorld.step, Bool.false_eq_true, if_false]
  rw [setOwner_eq]
  simp only [KeyMap.get?_insert, if_true]
  rfl

end

/-- The tally at a look that follows a look at the same container and `events`. -/
def tallyBetween (looked : ScrollWorld) (window : WindowId) (view : EntityId)
    (events : List ScrollEvent) : Tally :=
  (tally window view looked ⟨looked.scrollNotifies window view, 0, 0⟩ events).takeIn
    (looked.run events) window window view

/-- Between two looks at a layer's container, if the offsets set that the window counted are fewer
than the notifications of the view holding it that are not a wheel's own, the second look takes the
view to be changed. -/
theorem ownerNotifiedOtherwise_of_sets_lt (history events : List ScrollEvent) (window : WindowId)
    (id : GlobalElementId) (view : EntityId) (notified : Bool)
    (hkeep : ∀ event ∈ events, keepsLayer window id event = true)
    (hsets :
      let between := tallyBetween ((new.run history).step (.look window id (some view) false))
        window view events
      between.sets < between.paid + between.other) :
    let looked := (new.run history).step (.look window id (some view) false)
    ((looked.run events).takeOffsetsSet window).ownerNotifiedOtherwise window id (some view)
      notified = true := by
  intro looked
  have h := ((accounts_look (watching_run history) window id view).run hkeep).takeOffsetsSet window
  have hcounted := h.counted
  have hlt : ((looked.run events).takeOffsetsSet window).scrollNotifies window view <
      ((looked.run events).takeOffsetsSet window).notifies view - looked.notifies view := by
    simp only [tallyBetween] at hsets
    have hlooked : looked = (new.run history).step (.look window id (some view) false) := rfl
    rw [← hlooked] at hsets hcounted
    omega
  have hpolicy : ((looked.run events).takeOffsetsSet window).layers.get? (window, id) =
      some ⟨some view, looked.notifies view⟩ := h.policy
  simp only [ownerNotifiedOtherwise, ownerNotifiesSince, hpolicy, Option.bind_some, if_true,
    decide_eq_true_eq]
  exact hlt

def tracking : ScrollContainer := ⟨0, .handle 7, some 7, 5⟩

def scrolledAndChanged : List ScrollEvent :=
  [.finishFrame 0, .wheel 0 [.scroll tracking, .action (.notify 5 .other)],
    .action (.offsetSet (.handle 7)), .action (.notify 5 .offsetSet), .action (.notify 5 .other)]

theorem ownerNotifiedOtherwise_scrolledAndChanged :
    let looked := (new.run [.painted 0 tracking]).step (.look 0 0 (some 5) false)
    tallyBetween looked 0 5 scrolledAndChanged = ⟨1, 1, 1⟩ ∧
      ((looked.run scrolledAndChanged).takeOffsetsSet 0).ownerNotifiedOtherwise 0 0 (some 5)
        true = true :=
  ⟨by decide, ownerNotifiedOtherwise_of_sets_lt [.painted 0 tracking] scrolledAndChanged 0 0 5 true
    (by decide) (by decide)⟩

/-- An offset set that notifies nobody hides the one notification the view gets, which is for
another reason. -/
theorem not_ownerNotifiedOtherwise_silentOffsetSet :
    let looked := (new.run [.painted 0 tracking]).step (.look 0 0 (some 5) false)
    let events : List ScrollEvent :=
      [.finishFrame 0, .action (.offsetSet (.handle 7)), .action (.notify 5 .other)]
    events.all (keepsLayer 0 0) = true ∧ (tallyBetween looked 0 5 events).other = 1 ∧
      ((looked.run events).takeOffsetsSet 0).ownerNotifiedOtherwise 0 0 (some 5) true = false := by
  decide

end ScrollWorld

end GpuiFast
