import GpuiFast.CompositionTreeRuns

/-! A surface that was added, and perhaps placed among its siblings, is taken out again without a trace,
and an operation that fails leaves the tree and the platform surfaces as they were. -/

namespace GpuiFast

open List Option Function CompositionTree

namespace CompositionTree

variable {S : Type*} [DecidableEq S]

structure SameTree (tree tree' : CompositionTree S) : Prop where
  roots : tree'.roots = tree.roots
  surfaces : ∀ x, tree'.surfaces.get? x = tree.surfaces.get? x

lemma SameTree.refl (tree : CompositionTree S) : SameTree tree tree := ⟨rfl, fun _ => rfl⟩

variable {tree : CompositionTree S} {x : S} {tree' : CompositionTree S}

lemma children_of_not_mem (hx : x ∉ tree.nodes) : tree.children (some x) = [] := by
  simp [children, siblings_eq_none hx]

lemma parent_of_not_mem (hx : x ∉ tree.nodes) : tree.parent x = none := by
  simp [parent, not_mem_nodes.mp hx]

lemma kind_of_not_mem (hx : x ∉ tree.nodes) : tree.kind x = none := by
  simp [kind, not_mem_nodes.mp hx]

lemma sameTree_of_eq (hkind : tree'.kind = tree.kind) (hparent : tree'.parent = tree.parent)
    (hchildren : tree'.children = tree.children) : SameTree tree tree' := by
  refine ⟨congrFun hchildren none, fun x => ?_⟩
  have hk := congrFun hkind x
  have hp := congrFun hparent x
  have hc := congrFun hchildren (some x)
  simp only [kind, parent, children, siblings] at hk hp hc
  cases h : tree.surfaces.get? x with
  | none => simpa [h] using hk
  | some node =>
    obtain ⟨node', h', hkind'⟩ : ∃ node', tree'.surfaces.get? x = some node' ∧
        node'.kind = node.kind := by simpa [h] using hk
    rw [h', some.injEq]
    simp only [h, h', bind_some, map_some, getD_some] at hp hc
    obtain ⟨k, p, c⟩ := node
    obtain ⟨k', p', c'⟩ := node'
    simp_all

/-- `tree'` is `tree` with a surface added that has no children. -/
structure Adds (tree tree' : CompositionTree S) (x : S) : Prop where
  fresh : x ∉ tree.nodes
  nodes : tree'.nodes = Insert.insert x tree.nodes
  parent : ∀ y, y ≠ x → tree'.parent y = tree.parent y
  kind : ∀ y, y ≠ x → tree'.kind y = tree.kind y
  children : ∀ p, (tree'.children p).filter (· ≠ x) = tree.children p
  leaf : tree'.children (some x) = []

lemma filter_ne_of_not_mem {l : List S} (hx : x ∉ l) : l.filter (· ≠ x) = l := by
  apply filter_eq_self.mpr
  rintro y hy
  have hyx : y ≠ x := by
    rintro rfl
    exact hx hy
  simpa using hyx

lemma filter_insertIdx (l : List S) (i : ℕ) (x : S) :
    (l.insertIdx i x).filter (· ≠ x) = l.filter (· ≠ x) := by
  induction l generalizing i with
  | nil => cases i <;> simp
  | cons y l ih =>
    cases i with
    | zero => simp
    | succ i => simp only [insertIdx_succ_cons, filter_cons, ih]

variable {p : Option S} {y : S} {above : Bool} {error : String}

lemma insert_adds (h : tree.Forest) (hx : x ∉ tree.nodes) (hp : ∀ q, p = some q → q ∈ tree.nodes)
    (k : CompositionSurfaceKind) :
    ∃ tree', tree.insert x k p = (tree', .ok ()) ∧ tree'.parent x = p ∧ tree'.Forest ∧
      Adds tree tree' x := by
  obtain ⟨tree', hok, hnodes, hparent, hkind, hchildren⟩ := insert_ok hx hp k
  have hlisted : ∀ q, x ∉ tree.children q := fun q hq => hx (h.mem_children.mp hq).1
  have hforest : tree'.Forest := by
    change IsForest _ _ _
    rw [hnodes, hparent, hchildren]
    exact h.insert hx hp
  refine ⟨tree', hok, by rw [hparent, update_self], hforest, hx, hnodes, ?_, ?_, ?_, ?_⟩
  · intro y hy
    rw [hparent, update_of_ne hy]
  · intro y hy
    rw [hkind, update_of_ne hy]
  · intro q
    rw [hchildren]
    by_cases hq : q = p
    · subst hq
      rw [update_self, filter_append, filter_ne_of_not_mem (hlisted q)]
      simp
    · rw [update_of_ne hq, filter_ne_of_not_mem (hlisted q)]
  · have hxp : some x ≠ p := fun hxp => hx (hp x hxp.symm)
    rw [hchildren, update_of_ne hxp, children_of_not_mem hx]

lemma placeRelative_filter (h : tree.Forest) (hok : tree.placeRelative x y above = (tree', .ok ())) :
    ∃ l, tree' = tree.setSiblings (tree.parent x) l ∧ x ∈ tree.nodes ∧
      l.filter (· ≠ x) = (tree.children (tree.parent x)).filter (· ≠ x) := by
  rw [placeRelative] at hok
  split at hok
  · simp at hok
  · split at hok
    · rename_i node other hx hy
      have hxn : x ∈ tree.nodes := mem_nodes.mpr ⟨node, hx⟩
      have hmem : ∀ q, tree.parent x = some q → q ∈ tree.nodes := fun q hq => h.parent_mem hxn hq
      rw [← parent_eq hx, siblings_eq_some hmem] at hok
      split at hok
      · simp at hok
      · dsimp only at hok
        split at hok
        · obtain ⟨rfl, -⟩ := Prod.mk.inj hok
          refine ⟨_, rfl, hxn, ?_⟩
          rw [filter_insertIdx, List.filter_filter]
          simp
        · simp at hok
    · simp at hok

lemma placeRelative_error (h : tree.Forest) (x y : S) (above : Bool)
    (herror : (tree.placeRelative x y above).2 = .error error) :
    (tree.placeRelative x y above).1 = tree := by
  rcases placeRelative_cases h x y above with ⟨failure, hfails⟩ | ⟨-, -, -, l, hok, -, -⟩
  · rw [hfails]
  · rw [hok] at herror
    simp at herror

lemma placeRelative_forest (h : tree.Forest) (x y : S) (above : Bool) :
    (tree.placeRelative x y above).1.Forest := by
  rcases placeRelative_cases h x y above with ⟨failure, hfails⟩ | ⟨hxn, -, -, l, hok, hperm, -⟩
  · rw [hfails]
    exact h
  · have hmem : ∀ q, tree.parent x = some q → q ∈ tree.nodes := fun q hq => h.parent_mem hxn hq
    rw [hok]
    change IsForest _ _ _
    rw [nodes_setSiblings, parent_setSiblings, children_setSiblings hmem]
    exact h.reorder hperm

lemma reparent_error (h : tree.Forest) {change : CompositionTree S × Except String Unit}
    (hchange : tree.reparent x p = some change) (herror : change.2 = .error error) :
    change.1 = tree := by
  rcases reparent_cases h x p with ⟨failure, hfails⟩ | ⟨hxn, hpn, -, hmoves⟩
  · rw [hfails, some.injEq] at hchange
    rw [← hchange]
  · obtain ⟨tree', hok, -⟩ := moveUnder_ok h hxn hpn
    rw [hmoves, hok, some.injEq] at hchange
    rw [← hchange] at herror
    simp at herror

lemma Adds.place {added placed : CompositionTree S} (h : Adds tree added x) (hforest : added.Forest)
    (hok : added.placeRelative x y above = (placed, .ok ())) : Adds tree placed x := by
  obtain ⟨l, rfl, hxn, hl⟩ := placeRelative_filter hforest hok
  have hmem : ∀ q, added.parent x = some q → q ∈ added.nodes :=
    fun q hq => hforest.parent_mem hxn hq
  refine ⟨h.fresh, ?_, ?_, ?_, ?_, ?_⟩
  · rw [nodes_setSiblings, h.nodes]
  · rw [parent_setSiblings]
    exact h.parent
  · rw [kind_setSiblings]
    exact h.kind
  · intro p
    rw [children_setSiblings hmem]
    by_cases hp : p = added.parent x
    · subst hp
      rw [update_self, hl, h.children]
    · rw [update_of_ne hp, h.children]
  · have hne : some x ≠ added.parent x := by
      intro hx
      have hlisted := hforest.mem_children.mpr ⟨hxn, hx.symm⟩
      rw [h.leaf] at hlisted
      simp at hlisted
    rw [children_setSiblings hmem, update_of_ne hne, h.leaf]

lemma Adds.remove (h : Adds tree tree' x) (hforest : tree'.Forest) :
    ∃ back, tree'.remove x = (back, .ok ()) ∧ SameTree tree back := by
  have hx : x ∈ tree'.nodes := by
    rw [h.nodes]
    exact Finset.mem_insert_self x _
  obtain ⟨back, l₁, l₂, hok, hsplit, hnodes, hparent, hkind, hchildren, hnone⟩ :=
    remove_ok hforest hx
  have hback : back.nodes = tree.nodes := by
    rw [hnodes, h.nodes, Finset.erase_insert h.fresh]
  refine ⟨back, hok, sameTree_of_eq ?_ ?_ ?_⟩
  · funext y
    rw [hkind]
    by_cases hy : y = x
    · subst hy
      rw [update_self, kind_of_not_mem h.fresh]
    · rw [update_of_ne hy, h.kind y hy]
  · funext y
    by_cases hy : y ∈ tree.nodes
    · have hyx : y ≠ x := fun hyx => h.fresh (hyx ▸ hy)
      have hy' : y ∈ tree'.nodes := by
        rw [h.nodes]
        exact Finset.mem_insert_of_mem hy
      have hchild : tree'.parent y ≠ some x := by
        intro hyp
        have hlisted := hforest.mem_children.mpr ⟨hy', hyp⟩
        rw [h.leaf] at hlisted
        simp at hlisted
      rw [hparent y hy' hyx, if_neg hchild, h.parent y hyx]
    · rw [parent_of_not_mem hy, parent_of_not_mem (hback ▸ hy)]
  · funext p
    by_cases hp : p = some x
    · rw [hp, hnone, children_of_not_mem h.fresh]
    · rw [hchildren p hp, ← h.children p, h.leaf, append_nil]
      by_cases hpx : p = tree'.parent x
      · have hnodup := hforest.nodup_children p
        rw [hpx, hsplit] at hnodup
        obtain ⟨h₁, h₂⟩ : x ∉ l₁ ∧ x ∉ l₂ := by
          simp only [nodup_append, nodup_cons, mem_cons] at hnodup
          exact ⟨fun hx₁ => hnodup.2.2 x hx₁ x (.inl rfl) rfl, hnodup.2.1.1⟩
        rw [if_pos hpx, hpx, hsplit, filter_append, filter_ne_of_not_mem h₁,
          filter_cons_of_neg (by simp), filter_ne_of_not_mem h₂]
      · have hlisted : x ∉ tree'.children p :=
          fun hxp => hpx (hforest.mem_children.mp hxp).2.symm
        rw [if_neg hpx, filter_ne_of_not_mem hlisted]

end CompositionTree

namespace WindowCompositionState

variable {S : Type*} [DecidableEq S]

structure SameContents (state state' : WindowCompositionState S) : Prop where
  tree : state.tree.SameTree state'.tree
  platform : ∀ x, state'.platformSurfaces.get? x = state.platformSurfaces.get? x

lemma SameContents.refl (state : WindowCompositionState S) : SameContents state state :=
  ⟨.refl _, fun _ => rfl⟩

variable {state state' : WindowCompositionState S} {accepts : Bool} {x : S} {error : String}
  {answers : PlatformAnswers}

variable {result : Except String Unit} {y : S} {p : Option S}

lemma synchronize_keeps (h : state.synchronizePlatformOrder accepts = some (state', result)) :
    state'.tree = state.tree ∧ state'.platformSurfaces = state.platformSurfaces := by
  rw [synchronizePlatformOrder, map_eq_some_iff] at h
  obtain ⟨order, -, h⟩ := h
  cases order with
  | error error =>
    obtain ⟨rfl, -⟩ := Prod.mk.inj h
    exact ⟨rfl, rfl⟩
  | ok ids =>
    dsimp only at h
    split at h
    · obtain ⟨rfl, -⟩ := Prod.mk.inj h
      exact ⟨rfl, rfl⟩
    · obtain ⟨rfl, -⟩ := Prod.mk.inj h
      exact ⟨rfl, rfl⟩

lemma Holds.synchronize_ok (h : state.Holds)
    (hsync : state.synchronizePlatformOrder true = some (state', result)) : result = .ok () := by
  obtain ⟨out, hout, -, hmem, -, -⟩ := flattened_spec h.forest
  have hall : ∀ x ∈ out.filter (fun id => state.splits || id ≠ state.overlaySurface),
      state.platformSurface x = .ok x := by
    intro x hx
    obtain ⟨k, hk⟩ := kind_isSome_iff.mpr ((hmem x).mp (mem_of_mem_filter hx))
    rw [platformSurface, hk]
    cases k with
    | gpui => rfl
    | native => exact if_pos ((h.platform x).mpr ⟨_, hk, by simp⟩)
    | externalGpu => exact if_pos ((h.platform x).mpr ⟨_, hk, by simp⟩)
  have horder : ∀ l : List S, (∀ x ∈ l, state.platformSurface x = .ok x) →
      l.mapM state.platformSurface = .ok l := by
    intro l
    induction l with
    | nil => exact fun _ => rfl
    | cons x l ih =>
      intro hl
      rw [mapM_cons, hl x mem_cons_self, ih (fun y hy => hl y (mem_cons_of_mem x hy))]
      rfl
  rw [synchronizePlatformOrder, platformOrder, hout, map_some, horder _ hall] at hsync
  simp only [map_some, if_true, some.injEq, Prod.mk.injEq] at hsync
  exact hsync.2.symm

lemma Holds.platform_none (h : state.Holds) (hx : x ∉ state.tree.nodes) :
    state.platformSurfaces.get? x = none := by
  rw [← not_isSome_iff_eq_none, h.platform]
  rintro ⟨k, hk, -⟩
  exact hx (kind_isSome_iff.mp ⟨k, hk⟩)

lemma synchronize_refused {after : WindowCompositionState S × Except String Unit →
      Option (WindowCompositionState S × Except String Unit)}
    (h : (state.synchronizePlatformOrder accepts).bind after = some (state', .error error))
    (hok : ∀ changed, after (changed, .ok ()) = some (changed, .ok ())) :
    ∃ changed refusal, changed.tree = state.tree ∧
      changed.platformSurfaces = state.platformSurfaces ∧
      state.synchronizePlatformOrder accepts = some (changed, .error refusal) ∧
      after (changed, .error refusal) = some (state', .error error) := by
  obtain ⟨⟨changed, result⟩, hsync, hrest⟩ := bind_eq_some_iff.mp h
  obtain ⟨htree, hplatform⟩ := synchronize_keeps hsync
  cases result with
  | ok =>
    rw [hok] at hrest
    simp at hrest
  | error refusal => exact ⟨changed, refusal, htree, hplatform, hsync, hrest⟩

lemma synchronize_again {refusal : String}
    (h : ((state.synchronizePlatformOrder accepts).bind fun undone =>
      some (undone.1, (.error refusal : Except String Unit))) = some (state', .error error)) :
    state'.tree = state.tree ∧ state'.platformSurfaces = state.platformSurfaces := by
  obtain ⟨⟨undone, result⟩, hsync, hrest⟩ := bind_eq_some_iff.mp h
  simp only [some.injEq, Prod.mk.injEq] at hrest
  obtain ⟨rfl, -⟩ := hrest
  exact synchronize_keeps hsync

omit [DecidableEq S] in
lemma eq_of_some_error {failure : String}
    (h : some (state, (.error failure : Except String Unit)) = some (state', .error error)) :
    state' = state := by
  simp only [some.injEq, Prod.mk.injEq] at h
  exact h.1.symm

lemma changeTree_undone {change : CompositionTree S × Except String Unit}
    (hchange : ∀ {error}, change.2 = .error error → change.1 = state.tree)
    (h : state.changeTree answers change = some (state', .error error)) :
    SameContents state state' := by
  obtain ⟨tree, result⟩ := change
  cases result with
  | error failure =>
    obtain rfl := eq_of_some_error h
    rw [show tree = state.tree from hchange rfl]
    exact .refl state
  | ok =>
    obtain ⟨changed, refusal, -, hplatform, -, hrest⟩ := synchronize_refused h (fun _ => rfl)
    obtain ⟨htree', hplatform'⟩ := synchronize_again hrest
    exact ⟨htree' ▸ .refl _, fun x => by rw [hplatform', hplatform]⟩

lemma Holds.placeAbove_undone (h : state.Holds)
    (hfails : state.placeAbove x y answers = some (state', .error error)) :
    SameContents state state' := by
  rw [placeAbove] at hfails
  split at hfails
  · exact eq_of_some_error hfails ▸ .refl state
  · exact changeTree_undone (CompositionTree.placeRelative_error h.forest x y true) hfails

lemma Holds.placeBelow_undone (h : state.Holds)
    (hfails : state.placeBelow x y answers = some (state', .error error)) :
    SameContents state state' := by
  rw [placeBelow] at hfails
  split at hfails
  · exact eq_of_some_error hfails ▸ .refl state
  · exact changeTree_undone (CompositionTree.placeRelative_error h.forest x y false) hfails

lemma Holds.reparent_undone (h : state.Holds)
    (hfails : state.reparent x p answers = some (state', .error error)) :
    SameContents state state' := by
  rw [WindowCompositionState.reparent] at hfails
  split at hfails
  · exact eq_of_some_error hfails ▸ .refl state
  · obtain ⟨change, hchange, hrest⟩ := bind_eq_some_iff.mp hfails
    exact changeTree_undone (CompositionTree.reparent_error h.forest hchange) hrest

lemma Holds.createGpuiSurface_undone (h : state.Holds) (hx : x ∉ state.tree.nodes)
    (hfails : state.createGpuiSurface x p answers = some (state', .error error)) :
    SameContents state state' := by
  rw [WindowCompositionState.createGpuiSurface] at hfails
  by_cases hp : ∀ q, p = some q → q ∈ state.tree.nodes
  · obtain ⟨added, hinsert, -, hforest, hadds⟩ :=
      CompositionTree.insert_adds h.forest hx hp .gpui
    rw [hinsert] at hfails
    obtain ⟨changed, refusal, htree, hplatform, -, hrest⟩ :=
      synchronize_refused hfails (fun _ => rfl)
    obtain ⟨back, hremove, hsame⟩ := hadds.remove hforest
    dsimp only at hrest
    rw [show changed.tree = added from htree, hremove] at hrest
    obtain ⟨htree', hplatform'⟩ := synchronize_again hrest
    exact ⟨htree' ▸ hsame, fun y => by rw [hplatform', hplatform]⟩
  · obtain ⟨q, rfl, hq⟩ : ∃ q, p = some q ∧ q ∉ state.tree.nodes := by
      simpa using hp
    rw [insert_error hq] at hfails
    exact eq_of_some_error hfails ▸ .refl state

lemma Holds.registerPlatformSurface_undone (h : state.Holds) (hx : x ∉ state.tree.nodes)
    (hroot : state.tree.parent state.overlaySurface = none) {k : CompositionSurfaceKind}
    (hfails : state.registerPlatformSurface x k answers = some (state', .error error)) :
    SameContents state state' := by
  rw [WindowCompositionState.registerPlatformSurface] at hfails
  obtain ⟨added, hinsert, hparent, hforest, hadds⟩ :=
    CompositionTree.insert_adds h.forest hx (p := none) (by simp) k
  have hoverlay : state.overlaySurface ∈ state.tree.nodes :=
    kind_isSome_iff.mp ⟨_, h.overlay_gpui⟩
  have hne : state.overlaySurface ≠ x := fun hne => hx (hne ▸ hoverlay)
  have hsiblings : added.parent x = added.parent state.overlaySurface := by
    rw [hparent, hadds.parent _ hne, hroot]
  have hxn : x ∈ added.nodes := by
    rw [hadds.nodes]
    exact Finset.mem_insert_self x _
  have hoverlay' : state.overlaySurface ∈ added.nodes := by
    rw [hadds.nodes]
    exact Finset.mem_insert_of_mem hoverlay
  obtain ⟨placed, hplace⟩ :=
    placeRelative_ok hforest hxn hoverlay' hne.symm hsiblings false
  rw [hinsert] at hfails
  dsimp only at hfails
  rw [CompositionTree.placeBelow, hplace] at hfails
  obtain ⟨changed, refusal, htree, hplatform, -, hrest⟩ :=
    synchronize_refused hfails (fun _ => rfl)
  have hplaced : placed.Forest := by
    have := CompositionTree.placeRelative_forest hforest x state.overlaySurface false
    rwa [hplace] at this
  obtain ⟨back, hremove, hsame⟩ := (hadds.place hforest hplace).remove hplaced
  dsimp only at hrest
  rw [show changed.tree = placed from htree, hremove] at hrest
  obtain ⟨htree', hplatform'⟩ := synchronize_again hrest
  refine ⟨htree' ▸ hsame, fun y => ?_⟩
  have hnone := h.platform_none hx
  rw [hplatform']
  dsimp only
  rw [hplatform, KeyMap.get?_filter, KeyMap.get?_insert]
  by_cases hy : y = x
  · simp [hy, hnone]
  · cases state.platformSurfaces.get? y <;> simp [hy]

lemma hide_cases (state : WindowCompositionState S) (x : S) (hides : Bool) :
    state.hide x hides = (state, .error refused) ∨
      ∃ hidden, state.hide x hides = (hidden, .ok ()) ∧
        (∀ y, y ≠ x → hidden.platformSurfaces.get? y = state.platformSurfaces.get? y) ∧
        (state.platformSurfaces.get? x = none → hidden = state) ∧
        ((state.platformSurfaces.get? x).any (·.visible) → hides = true) := by
  rw [hide]
  cases hx : state.platformSurfaces.get? x with
  | none => exact .inr ⟨state, rfl, fun _ _ => rfl, fun _ => rfl, by simp⟩
  | some platformSurface =>
    dsimp only
    by_cases hvisible : platformSurface.visible
    · by_cases hhides : hides = true
      · refine .inr ⟨_, by rw [if_neg (by simpa using hvisible), if_pos hhides], ?_, by simp, ?_⟩
        · intro y hy
          rw [KeyMap.get?_modify, if_neg hy]
        · exact fun _ => hhides
      · exact .inl (by rw [if_neg (by simpa using hvisible), if_neg hhides])
    · exact .inr ⟨state, if_pos (by simpa using hvisible), fun _ _ => rfl, by simp,
        by simp [hvisible]⟩

lemma Holds.removeSurface_undone (h : state.Holds)
    (hshows : !answers.hides || answers.orders || answers.shows ||
      !(state.platformSurfaces.get? x).any (·.visible))
    (hfails : state.removeSurface x answers = some (state', .error error)) :
    SameContents state state' := by
  rw [WindowCompositionState.removeSurface] at hfails
  split at hfails
  · exact eq_of_some_error hfails ▸ .refl state
  rename_i hx
  obtain ⟨hbase, hoverlay⟩ := not_or.mp hx
  have hsame := hide_same state x answers.hides
  rcases hide_cases state x answers.hides with hhide | ⟨hidden, hhide, hothers, hnone, hasked⟩
  · rw [hhide] at hfails
    exact eq_of_some_error hfails ▸ .refl state
  rw [hhide] at hfails hsame
  have htree : hidden.tree = state.tree := hsame.tree
  dsimp only at hfails
  by_cases hxn : x ∈ hidden.tree.nodes
  · obtain ⟨tree', hremove, hremoved⟩ := (h.same hsame).remove hxn
      (fun hx' => hbase (hx'.trans hsame.base)) (fun hx' => hoverlay (hx'.trans hsame.overlay))
      (hidden.platformSurfaces.filter (fun s _ => s ≠ x)) (fun y => isSome_get?_filter_ne _ x y)
    rw [hremove] at hfails
    obtain ⟨changed, refusal, -, hplatform, hsync, hrest⟩ :=
      synchronize_refused hfails (fun _ => rfl)
    obtain ⟨htree', hplatform'⟩ := synchronize_again hrest
    have horders : answers.orders = false := by
      cases horders : answers.orders with
      | false => rfl
      | true =>
        rw [horders] at hsync
        simpa using hremoved.synchronize_ok hsync
    dsimp only at hplatform
    cases hp : state.platformSurfaces.get? x with
    | none =>
      rw [hp] at htree' hplatform'
      refine ⟨htree' ▸ .refl _, fun y => ?_⟩
      rw [hplatform']
      dsimp only [restore]
      rw [hplatform, KeyMap.get?_filter]
      by_cases hy : y = x
      · subst hy
        simp [hp, hnone hp]
      · rw [hothers y hy]
        cases state.platformSurfaces.get? y <;> simp [hy]
    | some platformSurface =>
      rw [hp] at htree' hplatform'
      refine ⟨htree' ▸ .refl _, fun y => ?_⟩
      rw [hplatform']
      dsimp only [restore]
      rw [hplatform, KeyMap.get?_insert, KeyMap.get?_filter]
      by_cases hy : y = x
      · -- the surface itself is visible again if it was
        have hagain : (platformSurface.visible && answers.shows) = platformSurface.visible := by
          simp only [hp, any_some] at hshows hasked
          cases hvisible : platformSurface.visible with
          | false => rfl
          | true =>
            rw [hasked hvisible, horders, hvisible] at hshows
            simpa using hshows
        rw [if_pos hy, hagain, hy, hp]
      · rw [if_neg hy, hothers y hy]
        cases state.platformSurfaces.get? y <;> simp [hy]
  · have hxn' : x ∉ state.tree.nodes := htree ▸ hxn
    rw [remove_error hxn, hnone (h.platform_none hxn')] at hfails
    exact eq_of_some_error hfails ▸ .refl state

end WindowCompositionState

end GpuiFast
