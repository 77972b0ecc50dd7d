import GpuiFast.ScrollLog

namespace GpuiFast

namespace ScrollWorld

def watches (world : ScrollWorld) (view : EntityId) : ℕ :=
  ((world.ownerNotifies.get? view).map (·.watches)).getD 0

/-- Whether `view` held the container of a layer of `policy` at the last look. -/
def heldBy (view : EntityId) (policy : LayerPolicy) : Bool := policy.owner = some view

structure Watching (world : ScrollWorld) : Prop where
  watches_eq : ∀ view, world.watches view = world.layers.count (heldBy view)
  watches_pos : ∀ view watched, world.ownerNotifies.get? view = some watched → 0 < watched.watches

lemma watches_watch (world : ScrollWorld) (view u : EntityId) :
    (world.watch view).watches u = world.watches u + if u = view then 1 else 0 := by
  simp only [watches, watch, KeyMap.get?_insert]
  by_cases h : u = view
  · cases hg : world.ownerNotifies.get? view <;> simp [h, hg]
  · simp [h]

lemma notifies_watch (world : ScrollWorld) (view u : EntityId) :
    (world.watch view).notifies u = world.notifies u := by
  simp only [notifies, watch, KeyMap.get?_insert]
  by_cases h : u = view
  · cases hg : world.ownerNotifies.get? view <;> simp [h, hg]
  · simp [h]

lemma get?_unwatch (world : ScrollWorld) (view u : EntityId) :
    (world.unwatch view).ownerNotifies.get? u =
      if u = view then (world.ownerNotifies.get? u).bind (fun watched =>
        if watched.watches - 1 = 0 then none
        else some { watched with watches := watched.watches - 1 })
      else world.ownerNotifies.get? u := by
  simp only [unwatch]
  cases hg : world.ownerNotifies.get? view with
  | none => by_cases h : u = view <;> simp [h, hg]
  | some watched =>
    dsimp only
    by_cases h : u = view <;> by_cases h0 : watched.watches - 1 = 0
    · simp [h, h0, hg, KeyMap.get?_filter]
    · simp [h, h0, hg, KeyMap.get?_insert]
    · cases hu : world.ownerNotifies.get? u <;> simp [h, h0, hu, KeyMap.get?_filter]
    · simp [h, h0, KeyMap.get?_insert]

lemma watches_unwatch (world : ScrollWorld) (view u : EntityId) :
    (world.unwatch view).watches u = world.watches u - if u = view then 1 else 0 := by
  simp only [watches, get?_unwatch]
  by_cases h : u = view
  · cases hg : world.ownerNotifies.get? u with
    | none => simp [h]
    | some watched => by_cases h0 : watched.watches - 1 = 0 <;> simp [h, h0]
  · simp [h]

variable {world : ScrollWorld} {watched : OwnerNotifies}

lemma notifies_unwatch {view u : EntityId} (h : u = view → 1 < world.watches u) :
    (world.unwatch view).notifies u = world.notifies u := by
  simp only [notifies, get?_unwatch]
  by_cases hu : u = view
  · have hw := h hu
    simp only [watches] at hw
    cases hg : world.ownerNotifies.get? u with
    | none => simp [hg] at hw
    | some watched =>
      have h0 : watched.watches - 1 ≠ 0 := by
        simp only [hg, Option.map_some, Option.getD_some] at hw
        omega
      simp [hu, h0]
  · simp [hu]

lemma unwatch_watches_pos
    (h : ∀ u watched, world.ownerNotifies.get? u = some watched → 0 < watched.watches)
    (view : EntityId) {u : EntityId} (hu : (world.unwatch view).ownerNotifies.get? u = some watched) :
    0 < watched.watches := by
  rw [get?_unwatch] at hu
  split at hu
  · obtain ⟨before, -, hb⟩ := Option.bind_eq_some_iff.mp hu
    split at hb
    · cases hb
    · injection hb with hb
      rw [← hb]
      dsimp only
      omega
  · exact h u watched hu

lemma watch_watches_pos
    (h : ∀ u watched, world.ownerNotifies.get? u = some watched → 0 < watched.watches)
    (view : EntityId) {u : EntityId} (hu : (world.watch view).ownerNotifies.get? u = some watched) :
    0 < watched.watches := by
  simp only [watch, KeyMap.get?_insert] at hu
  split at hu
  · injection hu with hu
    rw [← hu]
    dsimp only
    omega
  · exact h u watched hu

/-! ### Looks and drops keep the watches

`other` stands for a layer the look or the drop is not of.
-/

lemma elim_watch_eq (world : ScrollWorld) (owner : Option EntityId) :
    ∃ counts, owner.elim world world.watch = { world with ownerNotifies := counts } := by
  cases owner with
  | none => exact ⟨_, rfl⟩
  | some view => exact ⟨_, rfl⟩

lemma elim_unwatch_eq (world : ScrollWorld) (owner : Option EntityId) :
    ∃ counts, owner.elim world world.unwatch = { world with ownerNotifies := counts } := by
  cases owner with
  | none => exact ⟨_, rfl⟩
  | some view =>
    simp only [Option.elim_some, unwatch]
    cases world.ownerNotifies.get? view with
    | none => exact ⟨_, rfl⟩
    | some watched => exact ⟨_, rfl⟩

lemma watches_elim_watch (world : ScrollWorld) (owner : Option EntityId) (u : EntityId) :
    (owner.elim world world.watch).watches u =
      world.watches u + if owner = some u then 1 else 0 := by
  cases owner with
  | none => simp
  | some view => simpa [eq_comm] using watches_watch world view u

lemma watches_elim_unwatch (world : ScrollWorld) (owner : Option EntityId) (u : EntityId) :
    (owner.elim world world.unwatch).watches u =
      world.watches u - if owner = some u then 1 else 0 := by
  cases owner with
  | none => simp
  | some view => simpa [eq_comm] using watches_unwatch world view u

lemma notifies_elim_watch (world : ScrollWorld) (owner : Option EntityId) (u : EntityId) :
    (owner.elim world world.watch).notifies u = world.notifies u := by
  cases owner with
  | none => rfl
  | some view => exact notifies_watch world view u

lemma notifies_elim_unwatch {owner : Option EntityId} {u : EntityId}
    (h : owner = some u → 1 < world.watches u) :
    (owner.elim world world.unwatch).notifies u = world.notifies u := by
  cases owner with
  | none => rfl
  | some view => exact notifies_unwatch (fun hu => h (by rw [hu]))

lemma count_heldBy_erase (world : ScrollWorld) (key : WindowId × GlobalElementId) (u : EntityId) :
    (world.layers.filter (fun k _ => k ≠ key)).count (heldBy u) +
      (if ((world.layers.get? key).bind (·.owner)) = some u then 1 else 0) =
      world.layers.count (heldBy u) := by
  rw [← world.layers.count_filter_ne key (heldBy u)]
  cases world.layers.get? key with
  | none => simp
  | some policy => simp [heldBy]

lemma one_lt_watches (h : world.Watching) {key other : WindowId × GlobalElementId} {u : EntityId}
    {policy : LayerPolicy} (hne : other ≠ key)
    (ho : (world.layers.get? key).bind (·.owner) = some u)
    (hu : world.layers.get? other = some policy) (hp : policy.owner = some u) :
    1 < world.watches u := by
  have hc := world.count_heldBy_erase key u
  have hpos : 0 < (world.layers.filter (fun k _ => k ≠ key)).count (heldBy u) := by
    refine KeyMap.count_pos (k := other) (v := policy) ?_ (by simp [heldBy, hp])
    rw [KeyMap.get?_filter, hu]
    simp [hne]
  rw [if_pos ho] at hc
  rw [h.watches_eq]
  omega

def rewatch (world : ScrollWorld) (before now : Option EntityId) : ScrollWorld :=
  if before ≠ now then before.elim (now.elim world world.watch) (now.elim world world.watch).unwatch
  else world

lemma rewatch_eq (world : ScrollWorld) (before now : Option EntityId) :
    ∃ counts, world.rewatch before now = { world with ownerNotifies := counts } := by
  simp only [rewatch]
  split
  · obtain ⟨counts, hcounts⟩ := world.elim_watch_eq now
    obtain ⟨counts', hcounts'⟩ := (now.elim world world.watch).elim_unwatch_eq before
    refine ⟨counts', hcounts'.trans ?_⟩
    rw [hcounts]
  · exact ⟨_, rfl⟩

lemma setOwner_eq (world : ScrollWorld) (window : WindowId) (id : GlobalElementId)
    (owner : Option EntityId) :
    world.setOwner window id owner =
      let rewatched := world.rewatch ((world.layers.get? (window, id)).bind (·.owner)) owner
      { rewatched with
        layers := world.layers.insert (window, id)
          ⟨owner, (owner.map rewatched.notifies).getD 0⟩ } := by
  have hp : ((world.layers.get? (window, id)).getD ⟨none, 0⟩).owner =
      (world.layers.get? (window, id)).bind (·.owner) := by
    cases world.layers.get? (window, id) <;> rfl
  obtain ⟨counts, hcounts⟩ :=
    world.rewatch_eq ((world.layers.get? (window, id)).bind (·.owner)) owner
  have hlayers : (world.rewatch ((world.layers.get? (window, id)).bind (·.owner)) owner).layers =
      world.layers := by rw [hcounts]
  have hset : world.setOwner window id owner =
      { world.rewatch ((world.layers.get? (window, id)).bind (·.owner)) owner with
        layers := (world.rewatch ((world.layers.get? (window, id)).bind (·.owner))
          owner).layers.insert (window, id) ⟨owner, (owner.map
            (world.rewatch ((world.layers.get? (window, id)).bind (·.owner)) owner).notifies).getD
              0⟩ } := by
    simp only [setOwner, rewatch, hp]
  rw [hset, hlayers]

lemma watches_rewatch (world : ScrollWorld) (before now : Option EntityId) (u : EntityId) :
    (world.rewatch before now).watches u =
      world.watches u + (if now = some u then 1 else 0) - (if before = some u then 1 else 0) := by
  simp only [rewatch]
  split
  · rw [watches_elim_unwatch, watches_elim_watch]
  · next h =>
    rw [not_not.mp h]
    omega

lemma notifies_rewatch {before now : Option EntityId} {u : EntityId}
    (h : before = some u → 1 < world.watches u) :
    (world.rewatch before now).notifies u = world.notifies u := by
  simp only [rewatch]
  split
  · rw [notifies_elim_unwatch, notifies_elim_watch]
    intro hb
    rw [watches_elim_watch]
    have := h hb
    omega
  · rfl

lemma rewatch_watches_pos (h : world.Watching) (before now : Option EntityId) {u : EntityId}
    (hu : (world.rewatch before now).ownerNotifies.get? u = some watched) :
    0 < watched.watches := by
  have hnow : ∀ u watched, (now.elim world world.watch).ownerNotifies.get? u = some watched →
      0 < watched.watches := by
    cases now with
    | none => exact h.watches_pos
    | some view => exact fun _ _ => watch_watches_pos h.watches_pos view
  simp only [rewatch] at hu
  split at hu
  · cases before with
    | none => exact hnow u watched hu
    | some view => exact unwatch_watches_pos hnow view hu
  · exact h.watches_pos u watched hu

lemma Watching.setOwner (h : world.Watching) (window : WindowId) (id : GlobalElementId)
    (owner : Option EntityId) : (world.setOwner window id owner).Watching := by
  rw [setOwner_eq]
  refine ⟨fun u => ?_, fun u watched hu => rewatch_watches_pos h _ _ hu⟩
  have hc := world.layers.count_insert (window, id)
    ⟨owner, (owner.map (world.rewatch ((world.layers.get? (window, id)).bind (·.owner))
      owner).notifies).getD 0⟩ (heldBy u)
  have hw := world.watches_rewatch ((world.layers.get? (window, id)).bind (·.owner)) owner u
  have hb : (world.layers.get? (window, id)).elim 0 (fun v => if heldBy u v then 1 else 0) =
      if (world.layers.get? (window, id)).bind (·.owner) = some u then 1 else 0 := by
    cases world.layers.get? (window, id) <;> simp [heldBy]
  rw [hb, ← h.watches_eq u] at hc
  simp only [heldBy, decide_eq_true_eq] at hc
  simp only [watches] at hw hc ⊢
  rw [hw]
  omega

lemma Watching.dropLayer (h : world.Watching) (key : WindowId × GlobalElementId) :
    (world.dropLayer key).Watching := by
  simp only [ScrollWorld.dropLayer]
  cases hk : world.layers.get? key with
  | none => exact h
  | some policy =>
    have hc := world.count_heldBy_erase key
    have hw := world.watches_elim_unwatch policy.owner
    simp only [hk, Option.bind_some] at hc
    refine ⟨fun u => ?_, fun u watched hu => ?_⟩
    · have hu := hc u
      rw [← h.watches_eq u] at hu
      have hwu := hw u
      simp only [watches] at hu hwu ⊢
      obtain ⟨counts, hcounts⟩ := world.elim_unwatch_eq policy.owner
      have hlayers : (policy.owner.elim world world.unwatch).layers = world.layers := by
        rw [hcounts]
      rw [hwu, hlayers]
      omega
    · cases ho : policy.owner with
      | none => exact h.watches_pos u watched (by simpa [ho] using hu)
      | some view => exact unwatch_watches_pos h.watches_pos view (by simpa [ho] using hu)

lemma get?_noteNotify (world : ScrollWorld) (view u : EntityId) :
    (world.noteNotify view).ownerNotifies.get? u =
      if u = view then (world.ownerNotifies.get? u).map
        (fun watched => { watched with notifies := watched.notifies + 1 })
      else world.ownerNotifies.get? u := by
  simp only [noteNotify, KeyMap.get?_modify]

section

variable (h : world.Watching)
include h

lemma Watching.noteNotify (view : EntityId) : (world.noteNotify view).Watching := by
  refine ⟨fun u => (?_ : _ = world.layers.count (heldBy u)), fun u watched hu => ?_⟩
  · rw [← h.watches_eq u]
    simp only [watches, get?_noteNotify]
    split
    · cases world.ownerNotifies.get? u <;> rfl
    · rfl
  · rw [get?_noteNotify] at hu
    split at hu
    · obtain ⟨before, hb, rfl⟩ := Option.map_eq_some_iff.mp hu
      exact h.watches_pos u before hb
    · exact h.watches_pos u watched hu

lemma Watching.act (action : ScrollAction) : (world.act action).Watching := by
  cases action with
  | notify view reason => exact h.noteNotify view
  | change => exact ⟨h.watches_eq, h.watches_pos⟩
  | offsetSet source => exact ⟨h.watches_eq, h.watches_pos⟩

variable (window : WindowId)

lemma Watching.updateLog (f : ScrollLog → ScrollLog) : (world.updateLog window f).Watching :=
  ⟨h.watches_eq, h.watches_pos⟩

lemma Watching.wheelAct (action : WheelAction) : (world.wheelAct window action).Watching := by
  cases action with
  | scroll container => exact (h.updateLog window _).noteNotify _
  | scrollList version view => exact (h.updateLog window _).noteNotify _
  | action action => exact h.act action

lemma Watching.endDispatch (before : Option WheelBefore) :
    (world.endDispatch window before).Watching := by
  cases before with
  | none => exact h
  | some before =>
    simp only [ScrollWorld.endDispatch]
    split
    · exact h
    · exact h.updateLog window _

lemma Watching.foldl_wheelAct (actions : List WheelAction) :
    (actions.foldl (ScrollWorld.wheelAct window) world).Watching := by
  induction actions generalizing world with
  | nil => exact h
  | cons action actions ih => exact ih (h.wheelAct window action)

lemma Watching.takeOffsetsSet : (world.takeOffsetsSet window).Watching :=
  ⟨h.watches_eq, h.watches_pos⟩

lemma Watching.step (event : ScrollEvent) : (world.step event).Watching := by
  cases event with
  | action action => exact h.act action
  | wheel window actions => exact (h.foldl_wheelAct window actions).endDispatch window _
  | painted window container => exact ⟨h.watches_eq, h.watches_pos⟩
  | look window id owner bypassed =>
    simp only [ScrollWorld.step]
    split
    · exact h.takeOffsetsSet window
    · exact (h.takeOffsetsSet window).setOwner window id owner
  | dropLayer window id => exact h.dropLayer (window, id)
  | finishFrame window => exact ⟨h.watches_eq, h.watches_pos⟩

end

lemma watching_run (events : List ScrollEvent) : (new.run events).Watching := by
  have hnew : new.Watching := ⟨fun _ => rfl, fun _ _ h => by simp [new] at h⟩
  induction events using List.reverseRecOn with
  | nil => exact hnew
  | append_singleton events event ih =>
    rw [run, List.foldl_append]
    exact ih.step event

end ScrollWorld

end GpuiFast
