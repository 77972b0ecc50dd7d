import GpuiFast.CompositionInput
import GpuiFast.CompositionUndo

namespace GpuiFast

open WindowCompositionState

namespace WindowCompositionState

variable {S : Type*} [DecidableEq S]

variable {state state' : WindowCompositionState S} {answers : PlatformAnswers} {x : S}

lemma synchronize_accepted {accepts : Bool} {after : WindowCompositionState S × Except String Unit →
      Option (WindowCompositionState S × Except String Unit)}
    (h : (state.synchronizePlatformOrder accepts).bind after = some (state', .ok ()))
    (hok : ∀ changed, after (changed, .ok ()) = some (changed, .ok ()))
    (herror : ∀ changed refusal state', after (changed, .error refusal) ≠ some (state', .ok ())) :
    state'.platformSurfaces = state.platformSurfaces := by
  obtain ⟨⟨changed, outcome⟩, hsync, hrest⟩ := Option.bind_eq_some_iff.mp h
  cases outcome with
  | ok =>
    rw [hok] at hrest
    simp only [Option.some.injEq, Prod.mk.injEq] at hrest
    exact hrest.1 ▸ (synchronize_keeps hsync).2
  | error refusal => exact absurd hrest (herror changed refusal state')

lemma again_ne_ok (state state' : WindowCompositionState S) (accepts : Bool) (refusal : String) :
    ((state.synchronizePlatformOrder accepts).bind fun undone =>
      some (undone.1, (.error refusal : Except String Unit))) ≠ some (state', .ok ()) := by
  intro h
  obtain ⟨undone, -, hlast⟩ := Option.bind_eq_some_iff.mp h
  simp at hlast

lemma changeTree_ok {change : CompositionTree S × Except String Unit}
    (h : state.changeTree answers change = some (state', .ok ())) :
    state'.platformSurfaces = state.platformSurfaces := by
  obtain ⟨tree, outcome⟩ := change
  cases outcome with
  | error failure => simp [changeTree] at h
  | ok =>
    exact @synchronize_accepted S _ { state with tree := tree } state' answers.orders _ h
      (fun _ => rfl) (fun _ _ _ => again_ne_ok _ _ _ _)

lemma placeAbove_ok {y : S} (h : state.placeAbove x y answers = some (state', .ok ())) :
    state'.platformSurfaces = state.platformSurfaces := by
  rw [placeAbove] at h
  split at h
  · simp at h
  · exact changeTree_ok h

lemma placeBelow_ok {y : S} (h : state.placeBelow x y answers = some (state', .ok ())) :
    state'.platformSurfaces = state.platformSurfaces := by
  rw [placeBelow] at h
  split at h
  · simp at h
  · exact changeTree_ok h

variable {p : Option S}

lemma reparent_ok (h : state.reparent x p answers = some (state', .ok ())) :
    state'.platformSurfaces = state.platformSurfaces := by
  rw [reparent] at h
  split at h
  · simp at h
  · obtain ⟨change, -, hrest⟩ := Option.bind_eq_some_iff.mp h
    exact changeTree_ok hrest

lemma createGpuiSurface_ok (h : state.createGpuiSurface x p answers = some (state', .ok ())) :
    state'.platformSurfaces = state.platformSurfaces := by
  rw [createGpuiSurface] at h
  split at h
  · simp at h
  · refine (synchronize_accepted h (fun _ => rfl) ?_).trans rfl
    intro changed refusal state' hrest
    dsimp only at hrest
    split at hrest
    · simp at hrest
    · exact again_ne_ok _ _ _ _ hrest

lemma registerPlatformSurface_ok {k : CompositionSurfaceKind}
    (h : state.registerPlatformSurface x k answers = some (state', .ok ())) :
    state'.platformSurfaces = state.platformSurfaces.insert x ⟨true, .base, false⟩ := by
  rw [registerPlatformSurface] at h
  split at h
  · simp at h
  · split at h
    · simp at h
    · refine (synchronize_accepted h (fun _ => rfl) ?_).trans rfl
      intro changed refusal state' hrest
      dsimp only at hrest
      split at hrest
      · simp at hrest
      · exact again_ne_ok _ _ _ _ hrest

lemma removeSurface_ok (h : state.removeSurface x answers = some (state', .ok ())) (y : S) :
    (state'.platformSurfaces.get? y).isSome ↔ y ≠ x ∧ (state.platformSurfaces.get? y).isSome := by
  rw [removeSurface] at h
  split at h
  · simp at h
  · have hsame := hide_same state x answers.hides
    rcases houtcome : state.hide x answers.hides with ⟨hidden, result⟩
    rw [houtcome] at h hsame
    split at h
    · simp at h
    · rename_i hout
      obtain ⟨rfl, -⟩ := Prod.mk.inj hout
      split at h
      · simp at h
      · rw [synchronize_accepted h (fun _ => rfl) (fun _ _ _ => again_ne_ok _ _ _ _),
          isSome_get?_filter_ne, hsame.platform]

lemma restackNativeSurfaces_platform (order : List S) (y : S) :
    ∀ state : WindowCompositionState S,
      ((state.restackNativeSurfaces order).1.platformSurfaces.get? y).isSome =
        (state.platformSurfaces.get? y).isSome := by
  induction order with
  | nil => exact fun _ => rfl
  | cons x order ih =>
    intro state
    rw [restackNativeSurfaces]
    split
    · exact ih state
    · split
      · rw [ih, isSome_get?_modify]
      · split
        · exact isSome_get?_modify _ x y _
        · split
          · rw [ih, isSome_get?_modify]
          · split
            · exact isSome_get?_modify _ x y _
            · rw [ih, isSome_get?_modify]

lemma synchronizeGeometry_platform {order : List S}
    (h : state.synchronizeGeometry order answers = some state') (y : S) :
    (state'.platformSurfaces.get? y).isSome = (state.platformSurfaces.get? y).isSome := by
  rw [synchronizeGeometry] at h
  split at h
  · obtain ⟨⟨synced, outcome⟩, hsync, hlast⟩ := Option.bind_eq_some_iff.mp h
    rw [← Option.some.inj hlast, (synchronize_keeps hsync).2, restackNativeSurfaces_platform]
  · rw [Option.some.inj h]

lemma enableWindowComposition_platform (h : state.enableWindowComposition answers = some state')
    (y : S) : (state'.platformSurfaces.get? y).isSome = (state.platformSurfaces.get? y).isSome := by
  rw [enableWindowComposition] at h
  split at h
  · rw [Option.some.inj h]
  · obtain ⟨⟨synced, outcome⟩, hsync, hlast⟩ := Option.bind_eq_some_iff.mp h
    have hplatform := (synchronize_keeps hsync).2
    cases outcome with
    | ok => rw [← Option.some.inj hlast, hplatform]
    | error refusal => rw [← Option.some.inj hlast, hplatform]

end WindowCompositionState

namespace InputCompositionState

variable {S H : Type*} [DecidableEq S]

structure Holds (state : InputCompositionState S H) : Prop where
  composition : state.composition.Holds
  forwards : ∀ x, (state.composition.platformSurfaces.get? x).isSome →
    state.inputForwarding x = (state.inputHandlers.get? x).isSome
  handled : ∀ x, (state.inputHandlers.get? x).isSome →
    (state.composition.platformSurfaces.get? x).isSome

lemma attempt_step (state : InputCompositionState S H) (action : CompositionAction S) :
    (state.attempt (.change action)).map (fun outcome => outcome.1.composition) =
      state.composition.step action := by
  have hchanged : ∀ (state : InputCompositionState S H) outcome,
      (state.changed outcome).map (fun outcome => outcome.1.composition) = outcome.map Prod.fst := by
    intro state outcome
    cases outcome <;> rfl
  have hanyway : ∀ outcome : Option (WindowCompositionState S),
      (outcome.map (fun c => (c, (Except.ok () : Except String Unit)))).map Prod.fst = outcome := by
    intro outcome
    cases outcome <;> rfl
  cases action with
  | createNativeSurface x answers =>
    rw [attempt, step]
    split
    · rw [createNativeSurface, hchanged]
    · rfl
  | createExternalGpuSurface x answers =>
    rw [attempt, step]
    split
    · rw [createExternalGpuSurface, hchanged]
    · rfl
  | createGpuiSurface x p answers =>
    rw [attempt, step]
    split
    · rw [hchanged]
    · rfl
  | placeAbove x y answers => exact hchanged _ _
  | placeBelow x y answers => exact hchanged _ _
  | reparent x p answers => exact hchanged _ _
  | removeSurface x answers =>
    rw [attempt, step, removeSurface]
    rcases state.composition.removeSurface x answers with _ | ⟨composition, _ | _⟩ <;> rfl
  | synchronizeGeometry order answers => exact (hchanged _ _).trans (hanyway _)
  | enableWindowComposition answers => exact (hchanged _ _).trans (hanyway _)
  | setBounds x host moves => exact (hchanged _ _).trans (hanyway _)
  | setVisible x visible => exact (hchanged _ _).trans (hanyway _)

lemma Unchanged.refl (state : InputCompositionState S H) : Unchanged state state :=
  ⟨rfl, fun _ => rfl, fun _ => rfl, fun _ _ => rfl, fun _ => rfl⟩

variable {state next : InputCompositionState S H} {result : Except String Unit}

variable {composition : WindowCompositionState S}
  {outcome : Option (WindowCompositionState S × Except String Unit)}

lemma unchanged_of_same (h : state.composition.SameContents composition) :
    Unchanged state { state with composition := composition } :=
  ⟨h.tree.roots, h.tree.surfaces, h.platform, fun _ _ => rfl, fun _ => rfl⟩

lemma Unchanged.holds (hsame : Unchanged state next) (h : state.Holds)
    (hnext : next.composition.Holds) : next.Holds where
  composition := hnext
  forwards := by
    intro x hx
    rw [hsame.platformSurfaces] at hx
    rw [hsame.inputForwarding x hx, hsame.inputHandlers]
    exact h.forwards x hx
  handled := by
    intro x hx
    rw [hsame.inputHandlers] at hx
    rw [hsame.platformSurfaces]
    exact h.handled x hx

lemma Unchanged.attempted (hsame : Unchanged state next) (h : state.Holds)
    (hnext : next.composition.Holds) :
    next.Holds ∧ ∀ error, result = .error error → Unchanged state next :=
  ⟨hsame.holds h hnext, fun _ _ => hsame⟩

lemma Holds.changed (h : state.Holds) (hattempt : state.changed outcome = some (next, result))
    (hnext : next.composition.Holds)
    (hok : ∀ {composition}, outcome = some (composition, .ok ()) → ∀ x,
      (composition.platformSurfaces.get? x).isSome =
        (state.composition.platformSurfaces.get? x).isSome)
    (hfails : ∀ {composition error}, outcome = some (composition, .error error) →
      state.composition.SameContents composition) :
    next.Holds ∧ ∀ error, result = .error error → Unchanged state next := by
  obtain ⟨⟨composition, outcome'⟩, houtcome, hpair⟩ := Option.map_eq_some_iff.mp hattempt
  obtain ⟨rfl, rfl⟩ := Prod.mk.inj hpair
  cases outcome' with
  | error failure =>
    exact (unchanged_of_same (hfails houtcome)).attempted h hnext
  | ok =>
    refine ⟨⟨hnext, ?_, ?_⟩, by simp⟩
    · intro x hx
      exact h.forwards x (by rwa [← hok houtcome])
    · intro x hx
      rw [hok houtcome]
      exact h.handled x hx

lemma Holds.logged (h : state.Holds) {outcome : Option (WindowCompositionState S)}
    (hattempt : state.changed (outcome.map (·, .ok ())) = some (next, result))
    (hnext : next.composition.Holds) (hkeys : ∀ {composition}, outcome = some composition → ∀ x,
      (composition.platformSurfaces.get? x).isSome =
        (state.composition.platformSurfaces.get? x).isSome) :
    next.Holds ∧ ∀ error, result = .error error → Unchanged state next := by
  refine h.changed hattempt hnext ?_ ?_
  · intro composition hok
    obtain ⟨composition', houtcome, hpair⟩ := Option.map_eq_some_iff.mp hok
    obtain ⟨rfl, -⟩ := Prod.mk.inj hpair
    exact hkeys houtcome
  · intro composition error hfails
    obtain ⟨composition', -, hpair⟩ := Option.map_eq_some_iff.mp hfails
    simp at hpair

lemma Holds.registers (h : state.Holds) {id : S} (hid : id ∉ state.composition.tree.nodes)
    (hattempt : (state.newPlatformSurface id).changed outcome = some (next, result))
    (hnext : next.composition.Holds) (hok : ∀ {composition}, outcome = some (composition, .ok ()) →
      composition.platformSurfaces =
        state.composition.platformSurfaces.insert id ⟨true, .base, false⟩)
    (hfails : ∀ {composition error}, outcome = some (composition, .error error) →
      state.composition.SameContents composition) :
    next.Holds ∧ ∀ error, result = .error error → Unchanged state next := by
  obtain ⟨⟨composition, outcome'⟩, houtcome, hpair⟩ := Option.map_eq_some_iff.mp hattempt
  obtain ⟨rfl, rfl⟩ := Prod.mk.inj hpair
  have hmissing : (state.composition.platformSurfaces.get? id).isSome = false := by
    rw [h.composition.platform_none hid]
    rfl
  have hunhandled : (state.inputHandlers.get? id).isSome = false := by
    rw [← Bool.not_eq_true]
    intro hhandled
    rw [h.handled id hhandled] at hmissing
    simp at hmissing
  have hflags : ∀ x, x ≠ id →
      (state.newPlatformSurface id).inputForwarding x = state.inputForwarding x :=
    fun x hx => Function.update_of_ne hx _ _
  cases outcome' with
  | error failure =>
    have hsame := hfails houtcome
    refine Unchanged.attempted ?_ h hnext
    refine ⟨hsame.tree.roots, hsame.tree.surfaces, hsame.platform, ?_, fun _ => rfl⟩
    intro x hx
    refine hflags x ?_
    rintro rfl
    simp [hmissing] at hx
  | ok =>
    have hget : ∀ x, x ≠ id →
        composition.platformSurfaces.get? x = state.composition.platformSurfaces.get? x := by
      intro x hx
      rw [hok houtcome, KeyMap.get?_insert, if_neg hx]
    refine ⟨⟨hnext, ?_, ?_⟩, by simp⟩
    · intro x hx
      change (state.newPlatformSurface id).inputForwarding x = (state.inputHandlers.get? x).isSome
      by_cases hxid : x = id
      · subst hxid
        rw [hunhandled]
        exact Function.update_self _ _ _
      · rw [hflags x hxid]
        exact h.forwards x (by rwa [← hget x hxid])
    · intro x hx
      have hxid : x ≠ id := by
        rintro rfl
        rw [show ((state.newPlatformSurface x).inputHandlers.get? x).isSome = false from hunhandled]
          at hx
        simp at hx
      change (composition.platformSurfaces.get? x).isSome
      rw [hget x hxid]
      exact h.handled x hx

lemma Holds.removes (h : state.Holds) {x : S} {answers : PlatformAnswers}
    (hundoes : state.undoes (.change (.removeSurface x answers)))
    (hattempt : state.removeSurface x answers = some (next, result))
    (hnext : next.composition.Holds) :
    next.Holds ∧ ∀ error, result = .error error → Unchanged state next := by
  obtain ⟨⟨composition, outcome⟩, houtcome, hpair⟩ := Option.map_eq_some_iff.mp hattempt
  cases outcome with
  | error failure =>
    obtain ⟨rfl, rfl⟩ := Prod.mk.inj hpair
    exact (unchanged_of_same (h.composition.removeSurface_undone hundoes houtcome)).attempted h hnext
  | ok =>
    obtain ⟨rfl, rfl⟩ := Prod.mk.inj hpair
    have hkeys := WindowCompositionState.removeSurface_ok houtcome
    have hhandlers : ∀ y, y ≠ x →
        ((state.inputHandlers.filter (fun s _ => s ≠ x)).get? y) = state.inputHandlers.get? y := by
      intro y hy
      rw [KeyMap.get?_filter]
      cases state.inputHandlers.get? y <;> simp [hy]
    refine ⟨⟨hnext, ?_, ?_⟩, by simp⟩
    · intro y hy
      obtain ⟨hyx, hy'⟩ := (hkeys y).mp hy
      change state.inputForwarding y = _
      rw [hhandlers y hyx]
      exact h.forwards y hy'
    · intro y hy
      have hyx : y ≠ x := by
        rintro rfl
        rw [KeyMap.get?_filter] at hy
        cases hget : state.inputHandlers.get? y <;> simp [hget] at hy
      rw [hhandlers y hyx] at hy
      exact (hkeys y).mpr ⟨hyx, h.handled y hy⟩

lemma holds_of_synchronized {composition' : WindowCompositionState S} (h : composition.Holds)
    {accepts : Bool}
    (hsync : composition.synchronizePlatformOrder accepts = some (composition', result)) :
    composition'.Holds := by
  obtain ⟨synced, outcome, hsync', hsame⟩ :=
    synchronize_same h.forest accepts
  rw [hsync, Option.some.injEq, Prod.mk.injEq] at hsync'
  rw [hsync'.1]
  exact h.same hsame

/-- The handler of before, or none, is put back where another stood for a while. -/
lemma get?_restored (handlers : KeyMap S H) (x : S) (handler : H) (y : S) :
    (match handlers.get? x with
      | some previous => (handlers.insert x handler).insert x previous
      | none => (handlers.insert x handler).filter (fun s _ => s ≠ x)).get? y =
    handlers.get? y := by
  cases hget : handlers.get? x with
  | none =>
    dsimp only
    rw [KeyMap.get?_filter, KeyMap.get?_insert]
    by_cases hyx : y = x
    · simp [hyx, hget]
    · cases handlers.get? y <;> simp [hyx]
  | some previous =>
    dsimp only
    rw [KeyMap.get?_insert, KeyMap.get?_insert]
    by_cases hyx : y = x
    · rw [if_pos hyx, hyx, hget]
    · rw [if_neg hyx, if_neg hyx]

lemma Holds.onInput (h : state.Holds) (x : S) (handler : H) (answers : PlatformAnswers) :
    ∃ next result, state.onInput x handler answers = some (next, result) ∧ next.Holds ∧
      ∀ error, result = .error error → Unchanged state next := by
  rw [InputCompositionState.onInput]
  by_cases hx : (state.composition.platformSurfaces.get? x).isSome
  · rw [if_pos hx]
    obtain ⟨synced, outcome, hsync, -⟩ :=
      synchronize_same h.composition.forest answers.orders
    have hsynced := holds_of_synchronized h.composition hsync
    obtain ⟨htree, hplatform⟩ := WindowCompositionState.synchronize_keeps hsync
    rw [hsync]
    cases outcome with
    | ok =>
      refine ⟨_, _, rfl, ⟨hsynced, ?_, ?_⟩, by simp⟩
      · intro y hy
        dsimp only at hy ⊢
        rw [hplatform] at hy
        rw [KeyMap.get?_insert]
        by_cases hyx : y = x
        · subst hyx
          simp
        · rw [Function.update_of_ne hyx, if_neg hyx]
          exact h.forwards y hy
      · intro y hy
        dsimp only at hy ⊢
        rw [hplatform]
        rw [KeyMap.get?_insert] at hy
        by_cases hyx : y = x
        · exact hyx ▸ hx
        · rw [if_neg hyx] at hy
          exact h.handled y hy
    | error refusal =>
      obtain ⟨undone, outcome, hundo, -⟩ :=
        synchronize_same hsynced.forest answers.ordersBack
      obtain ⟨htree', hplatform'⟩ := WindowCompositionState.synchronize_keeps hundo
      -- the flag stood for the handler before, and stands for it again
      have hflags : ∀ y, (state.composition.platformSurfaces.get? y).isSome →
          Function.update (Function.update state.inputForwarding x true) x
            (state.inputHandlers.get? x).isSome y = state.inputForwarding y := by
        intro y hy
        by_cases hyx : y = x
        · rw [hyx, Function.update_self, h.forwards x hx]
        · rw [Function.update_of_ne hyx, Function.update_of_ne hyx]
      have hhandlers := get?_restored state.inputHandlers x handler
      have hkeys : undone.platformSurfaces = state.composition.platformSurfaces := by
        rw [hplatform', hplatform]
      simp only [Option.bind_some, hundo, Option.map_some]
      refine ⟨_, _, rfl, Unchanged.attempted ⟨?_, ?_, ?_, hflags, hhandlers⟩ h
        (holds_of_synchronized hsynced hundo)⟩
      · exact congrArg CompositionTree.roots (htree'.trans htree)
      · exact fun y => congrArg (fun tree => tree.surfaces.get? y) (htree'.trans htree)
      · exact fun y => congrArg (fun platform => platform.get? y) hkeys
  · exact ⟨state, _, if_neg hx, h, fun _ _ => .refl state⟩

/-- A step that undoes what it changes before it fails returns, and changes nothing if it fails. -/
lemma Holds.attempt (h : state.Holds) (action : InputCompositionAction S H)
    (hundoes : state.undoes action) :
    ∃ next result, state.attempt action = some (next, result) ∧ next.Holds ∧
      ∀ error, result = .error error → Unchanged state next := by
  cases action with
  | onInput x handler answers => exact h.onInput x handler answers
  | change action =>
    have hbelow : state.composition.registersBelowRoot action := by
      cases action <;> first | rfl | exact hundoes
    obtain ⟨composition, hstep, hheld⟩ := h.composition.step action hbelow
    have hattempt := state.attempt_step action
    rw [hstep, Option.map_eq_some_iff] at hattempt
    obtain ⟨⟨next, result⟩, hattempt, hnext⟩ := hattempt
    have hnext : next.composition.Holds := by
      rw [show next.composition = composition from hnext]
      exact hheld
    refine ⟨next, result, hattempt, ?_⟩
    have hfresh : ∀ {x}, state.composition.isFresh x = true →
        x ∉ state.composition.tree.nodes := by
      intro x hx
      rw [CompositionTree.not_mem_nodes]
      simpa [isFresh] using hx
    have hnothing : some (state, (.ok () : Except String Unit)) = some (next, result) →
        next.Holds ∧ ∀ error, result = .error error → Unchanged state next := by
      intro hsame
      obtain ⟨rfl, rfl⟩ := Prod.mk.inj (Option.some.inj hsame)
      exact ⟨h, by simp⟩
    cases action with
    | createNativeSurface x answers =>
      rw [InputCompositionState.attempt] at hattempt
      split at hattempt
      · rename_i hx
        rw [createNativeSurface] at hattempt
        by_cases hcreates : answers.creates = true
        · rw [if_pos hcreates, WindowCompositionState.createNativeSurface, if_pos hcreates]
            at hattempt
          have hroot : state.composition.tree.parent state.composition.overlaySurface = none := by
            simpa [undoes, hcreates] using hundoes
          exact h.registers (hfresh hx) hattempt hnext
            WindowCompositionState.registerPlatformSurface_ok
            (h.composition.registerPlatformSurface_undone (hfresh hx) hroot)
        · rw [if_neg hcreates, WindowCompositionState.createNativeSurface, if_neg hcreates]
            at hattempt
          exact h.changed hattempt hnext (by simp)
            (fun hfails => eq_of_some_error hfails ▸ .refl _)
      · exact hnothing hattempt
    | createExternalGpuSurface x answers =>
      rw [InputCompositionState.attempt] at hattempt
      split at hattempt
      · rename_i hx
        have hroot : state.composition.tree.parent state.composition.overlaySurface = none := by
          simpa [undoes] using hundoes
        exact h.registers (hfresh hx) hattempt hnext
          WindowCompositionState.registerPlatformSurface_ok
          (h.composition.registerPlatformSurface_undone (hfresh hx) hroot)
      · exact hnothing hattempt
    | createGpuiSurface x p answers =>
      rw [InputCompositionState.attempt] at hattempt
      split at hattempt
      · rename_i hx
        exact h.changed hattempt hnext
          (fun hok _ => by rw [WindowCompositionState.createGpuiSurface_ok hok])
          (h.composition.createGpuiSurface_undone (hfresh hx))
      · exact hnothing hattempt
    | placeAbove x y answers =>
      exact h.changed hattempt hnext
        (fun hok _ => by rw [WindowCompositionState.placeAbove_ok hok])
        h.composition.placeAbove_undone
    | placeBelow x y answers =>
      exact h.changed hattempt hnext
        (fun hok _ => by rw [WindowCompositionState.placeBelow_ok hok])
        h.composition.placeBelow_undone
    | reparent x p answers =>
      exact h.changed hattempt hnext
        (fun hok _ => by rw [WindowCompositionState.reparent_ok hok])
        h.composition.reparent_undone
    | removeSurface x answers => exact h.removes hundoes hattempt hnext
    | synchronizeGeometry order answers =>
      exact h.logged hattempt hnext WindowCompositionState.synchronizeGeometry_platform
    | enableWindowComposition answers =>
      exact h.logged hattempt hnext WindowCompositionState.enableWindowComposition_platform
    | setBounds x host moves =>
      refine h.logged hattempt hnext (fun hstep y => ?_)
      rw [← Option.some.inj hstep, WindowCompositionState.setBounds]
      split
      · rfl
      · exact WindowCompositionState.isSome_get?_modify _ x y _
    | setVisible x visible =>
      refine h.logged hattempt hnext (fun hstep y => ?_)
      rw [← Option.some.inj hstep]
      exact WindowCompositionState.isSome_get?_modify _ x y _

lemma holds_new {base overlay : S} (hne : base ≠ overlay) :
    (new base overlay : InputCompositionState S H).Holds where
  composition := WindowCompositionState.holds_new hne
  forwards := fun _ _ => rfl
  handled := fun _ hx => by simp [new] at hx

lemma Holds.run (before : List (InputCompositionAction S H)) (action : InputCompositionAction S H) :
    ∀ {state : InputCompositionState S H}, state.Holds → state.undoesAll (before ++ [action]) →
      ∃ last next result,
        before.foldlM (fun state action => (state.attempt action).map Prod.fst) state = some last ∧
        last.attempt action = some (next, result) ∧
        ∀ error, result = .error error → Unchanged last next := by
  induction before with
  | nil =>
    intro state h hundoes
    simp only [List.nil_append, undoesAll, Bool.and_eq_true] at hundoes
    obtain ⟨next, result, hattempt, -, hfails⟩ := h.attempt action hundoes.1
    exact ⟨state, next, result, rfl, hattempt, hfails⟩
  | cons first before ih =>
    intro state h hundoes
    rw [List.cons_append, undoesAll, Bool.and_eq_true] at hundoes
    obtain ⟨second, result, hattempt, hsecond, -⟩ := h.attempt first hundoes.1
    have hrest := hundoes.2
    rw [hattempt] at hrest
    rw [List.foldlM_cons, hattempt]
    exact ih hsecond hrest

/-- In every run whose steps undo what they change before they fail, an operation that fails leaves
the tree, the platform surfaces, their visibility, the forwarding flags and the handlers. -/
theorem failed_changes_nothing {base overlay : S} (hne : base ≠ overlay)
    (before : List (InputCompositionAction S H)) (action : InputCompositionAction S H)
    (hundoes : (new base overlay : InputCompositionState S H).undoesAll (before ++ [action])) :
    ∃ state next result, run base overlay before = some state ∧
      state.attempt action = some (next, result) ∧
      ∀ error, result = .error error → Unchanged state next :=
  Holds.run before action (holds_new hne) hundoes

def refusesOrder : PlatformAnswers := ⟨true, true, false, true, true⟩

/-- A visible native surface with a handler whose removal is refused, after a refused handler. -/
theorem failed_removal_changes_nothing :
    ∃ (state next : InputCompositionState ℕ String) (result : Except String Unit),
      run 0 1 [.change (.createNativeSurface 2 willing),
        .onInput 2 "first" willing, .onInput 2 "second" refusesOrder] = some state ∧
      state.attempt (.change (.removeSurface 2 refusesOrder)) = some (next, result) ∧
      ∀ error, result = .error error → Unchanged state next :=
  failed_changes_nothing (by decide) _ _ (by decide)

/-- With the overlay surface under the base surface, a native surface whose creation fails stays in
the tree; and a surface whose removal is refused stays hidden if the platform does not show it. -/
theorem failed_changes_something :
    (∃ (state next : InputCompositionState ℕ String) (error : String),
      run 0 1 [.change (.reparent 1 (some 0) willing)] = some state ∧
      state.attempt (.change (.createNativeSurface 2 willing)) =
        some (next, .error error) ∧ ¬ Unchanged state next) ∧
    ∃ (state next : InputCompositionState ℕ String) (error : String),
      run 0 1 [.change (.createNativeSurface 2 willing)] = some state ∧
      state.attempt (.change (.removeSurface 2 ⟨true, true, false, true, false⟩)) =
        some (next, .error error) ∧ ¬ Unchanged state next := by
  refine ⟨⟨_, _, _, rfl, rfl, fun h => ?_⟩, ⟨_, _, _, rfl, rfl, fun h => ?_⟩⟩
  · exact absurd h.roots (by decide)
  · exact absurd (h.platformSurfaces 2) (by decide)

end InputCompositionState

end GpuiFast
