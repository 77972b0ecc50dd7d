import GpuiFast.CompositionTreeHolds

namespace GpuiFast

open List Option CompositionTree Function

namespace WindowCompositionState

variable {S : Type*} [DecidableEq S]

structure InStep (state : WindowCompositionState S) : Prop where
  listed : ∀ x node, state.tree.surfaces.get? x = some node →
    ∃ l, state.tree.siblings node.parent = some l ∧ l.count x = 1
  listed_only : ∀ x p l, state.tree.siblings p = some l → x ∈ l →
    ∃ node, state.tree.surfaces.get? x = some node ∧ node.parent = p
  acyclic : ∀ x, ¬ Relation.TransGen (fun y p => state.tree.parent y = some p) x x
  /-- `flattened` lists each surface once, parents before children and the base surface first. -/
  flattened : ∃ out, state.tree.flattened = some out ∧ out.Nodup ∧
    (∀ x, x ∈ out ↔ (state.tree.surfaces.get? x).isSome) ∧
    (∀ x p, state.tree.parent x = some p → [p, x].Sublist out) ∧
    out.head? = some state.baseSurface
  platform : ∀ x, (state.platformSurfaces.get? x).isSome ↔
    ∃ node, state.tree.surfaces.get? x = some node ∧ node.kind ≠ .gpui

structure Holds (state : WindowCompositionState S) : Prop where
  forest : state.tree.Forest
  base_first : state.tree.roots.head? = some state.baseSurface
  base_gpui : state.tree.kind state.baseSurface = some .gpui
  overlay_gpui : state.tree.kind state.overlaySurface = some .gpui
  base_ne : state.baseSurface ≠ state.overlaySurface
  platform : ∀ x, (state.platformSurfaces.get? x).isSome ↔
    ∃ k, state.tree.kind x = some k ∧ k ≠ .gpui

structure SameSurfaces (state state' : WindowCompositionState S) : Prop where
  tree : state'.tree = state.tree
  platform : ∀ x, (state'.platformSurfaces.get? x).isSome = (state.platformSurfaces.get? x).isSome
  base : state'.baseSurface = state.baseSurface
  overlay : state'.overlaySurface = state.overlaySurface

variable {state : WindowCompositionState S} {x : S}

lemma Holds.same {state' : WindowCompositionState S} (h : state.Holds)
    (hs : SameSurfaces state state') : state'.Holds where
  forest := hs.tree ▸ h.forest
  base_first := by rw [hs.tree, hs.base]; exact h.base_first
  base_gpui := by rw [hs.tree, hs.base]; exact h.base_gpui
  overlay_gpui := by rw [hs.tree, hs.overlay]; exact h.overlay_gpui
  base_ne := by rw [hs.base, hs.overlay]; exact h.base_ne
  platform := by intro x; rw [hs.tree, hs.platform]; exact h.platform x

lemma Holds.inStep (h : state.Holds) : state.InStep := by
  have hkind : ∀ x, (∃ k, state.tree.kind x = some k ∧ k ≠ .gpui) ↔
      ∃ node, state.tree.surfaces.get? x = some node ∧ node.kind ≠ .gpui := by
    intro x
    rw [kind]
    cases state.tree.surfaces.get? x <;> simp
  have hlink : ∀ {x p}, state.tree.parent x = some p → x ∈ state.tree.nodes := by
    intro x p hp
    rw [mem_nodes]
    cases hx : state.tree.surfaces.get? x with
    | none => simp [parent, hx] at hp
    | some node => exact ⟨node, rfl⟩
  constructor
  case listed =>
    intro x node hx
    have hxn : x ∈ state.tree.nodes := mem_nodes.mpr ⟨node, hx⟩
    have hparent := parent_eq hx
    refine ⟨_, siblings_eq_some (fun q hq => h.forest.parent_mem hxn
      (hparent.trans hq)), ?_⟩
    exact count_eq_one_of_mem (h.forest.nodup_children _)
      (h.forest.mem_children.mpr ⟨hxn, hparent⟩)
  case listed_only =>
    intro x p l hl hx
    have hchildren : state.tree.children p = l := by rw [children, hl]; rfl
    obtain ⟨hxn, hxp⟩ := h.forest.mem_children.mp (hchildren.symm ▸ hx)
    obtain ⟨node, hnode⟩ := mem_nodes.mp hxn
    exact ⟨node, hnode, (parent_eq hnode).symm.trans hxp⟩
  case acyclic =>
    intro x hx
    exact h.forest.acyclic x (Relation.TransGen.mono (fun y p hp => ⟨hlink hp, hp⟩) x x hx)
  case flattened =>
    obtain ⟨out, hout, hnodup, hmem, hfirst, hhead⟩ := flattened_spec h.forest
    refine ⟨out, hout, hnodup, ?_, fun x p hp => hfirst x p (hlink hp) hp,
      hhead.trans h.base_first⟩
    intro x
    rw [hmem, mem_nodes, isSome_iff_exists]
  case platform => exact fun x => (h.platform x).trans (hkind x)

lemma synchronize_same (h : state.tree.Forest) (accepts : Bool) :
    ∃ state' result, state.synchronizePlatformOrder accepts = some (state', result) ∧
      SameSurfaces state state' := by
  obtain ⟨out, hout, _⟩ := flattened_spec h
  rw [synchronizePlatformOrder, platformOrder, hout]
  simp only [map_some, some.injEq]
  split
  · exact ⟨_, _, rfl, rfl, fun _ => rfl, rfl, rfl⟩
  · split
    · exact ⟨_, _, rfl, rfl, fun _ => rfl, rfl, rfl⟩
    · exact ⟨_, _, rfl, rfl, fun _ => rfl, rfl, rfl⟩

lemma Holds.changeTree (h : state.Holds) (answers : PlatformAnswers)
    {change : CompositionTree S × Except String Unit}
    (hchange : Holds { state with tree := change.1 }) :
    ∃ state' result, state.changeTree answers change = some (state', result) ∧ state'.Holds := by
  obtain ⟨tree, result⟩ := change
  cases result with
  | error error => exact ⟨_, _, rfl, hchange⟩
  | ok =>
    obtain ⟨changed, result, hsync, hsame⟩ := synchronize_same hchange.forest answers.orders
    rw [WindowCompositionState.changeTree, hsync]
    cases result with
    | ok => exact ⟨_, _, rfl, hchange.same hsame⟩
    | error error =>
      have hback : Holds { changed with tree := state.tree } :=
        h.same ⟨rfl, hsame.platform, hsame.base, hsame.overlay⟩
      obtain ⟨undone, result, hundo, hsame'⟩ := synchronize_same hback.forest answers.ordersBack
      refine ⟨undone, .error error, ?_, hback.same hsame'⟩
      change (synchronizePlatformOrder { changed with tree := state.tree }
        answers.ordersBack).bind _ = _
      rw [hundo]
      rfl

lemma Holds.placeRelative (h : state.Holds) (x y : S) (above : Bool) (hx : x ≠ state.baseSurface)
    (hy : above = true ∨ y ≠ state.baseSurface) :
    Holds { state with tree := (state.tree.placeRelative x y above).1 } := by
  rcases placeRelative_cases h.forest x y above with
    ⟨error, herror⟩ | ⟨hxn, -, -, l, hok, hperm, hhead⟩
  · rw [herror]
    exact h
  · have hmem : ∀ q, state.tree.parent x = some q → q ∈ state.tree.nodes :=
      fun q hq => h.forest.parent_mem hxn hq
    rw [hok]
    constructor
    case forest =>
      change IsForest _ _ _
      rw [nodes_setSiblings, parent_setSiblings, children_setSiblings hmem]
      exact h.forest.reorder hperm
    case base_first =>
      cases hp : state.tree.parent x with
      | none =>
        rw [hp] at hhead
        exact hhead _ h.base_first hx hy
      | some q => exact h.base_first
    case base_gpui =>
      rw [kind_setSiblings]
      exact h.base_gpui
    case overlay_gpui =>
      rw [kind_setSiblings]
      exact h.overlay_gpui
    case base_ne => exact h.base_ne
    case platform =>
      intro z
      rw [kind_setSiblings]
      exact h.platform z

lemma Holds.reparent_tree (h : state.Holds) {q : Option S} (hx : x ≠ state.baseSurface) :
    ∃ change, state.tree.reparent x q = some change ∧ Holds { state with tree := change.1 } := by
  rcases reparent_cases h.forest x q with
    ⟨error, herror⟩ | ⟨hxn, hqn, hunder, hok⟩
  · exact ⟨_, herror, h⟩
  · obtain ⟨tree', hmove, hnodes, hparent, hkind, without, hwithout, hchildren⟩ :=
      moveUnder_ok h.forest hxn hqn
    refine ⟨_, hok, ?_⟩
    rw [hmove]
    have hroots : ∀ p, (tree'.children p).head? =
        if p = q then (without q ++ [x]).head? else (without p).head? := by
      intro p
      rw [hchildren]
      by_cases hp : p = q
      · rw [hp, update_self, if_pos rfl]
      · rw [update_of_ne hp, if_neg hp]
    have hwithout_none : (without none).head? = some state.baseSurface := by
      rw [hwithout]
      obtain ⟨l, hl⟩ : ∃ l, state.tree.children none = state.baseSurface :: l :=
        ⟨_, eq_cons_of_mem_head? h.base_first⟩
      rw [hl, filter_cons_of_pos (by simpa using Ne.symm hx), head?_cons]
    constructor
    case forest =>
      change IsForest _ _ _
      rw [hnodes, hparent, hchildren]
      exact h.forest.move hxn hqn hunder hwithout
    case base_first =>
      change (tree'.children none).head? = _
      rw [hroots]
      by_cases hq : none = q
      · rw [if_pos hq, ← hq, head?_append, hwithout_none]
        rfl
      · rw [if_neg hq, hwithout_none]
    case base_gpui =>
      rw [hkind]
      exact h.base_gpui
    case overlay_gpui =>
      rw [hkind]
      exact h.overlay_gpui
    case base_ne => exact h.base_ne
    case platform =>
      intro z
      rw [hkind]
      exact h.platform z

lemma Holds.insert (h : state.Holds) {p : Option S} (hx : x ∉ state.tree.nodes)
    (hp : ∀ q, p = some q → q ∈ state.tree.nodes) (k : CompositionSurfaceKind)
    (platform : KeyMap S ManagedPlatformSurface) (hplatform : ∀ y, (platform.get? y).isSome ↔
      if y = x then k ≠ .gpui else (state.platformSurfaces.get? y).isSome) :
    ∃ tree', state.tree.insert x k p = (tree', .ok ()) ∧ x ∈ tree'.nodes ∧
      tree'.parent = update state.tree.parent x p ∧
      Holds { state with tree := tree', platformSurfaces := platform } := by
  obtain ⟨tree', hok, hnodes, hparent, hkind, hchildren⟩ := insert_ok hx hp k
  have hne : ∀ y k', state.tree.kind y = some k' → y ≠ x := by
    rintro y k' hy rfl
    exact hx (kind_isSome_iff.mp ⟨k', hy⟩)
  refine ⟨tree', hok, hnodes ▸ Finset.mem_insert_self _ _, hparent, ?_⟩
  constructor
  case forest =>
    change IsForest _ _ _
    rw [hnodes, hparent, hchildren]
    exact h.forest.insert hx hp
  case base_first =>
    change (tree'.children none).head? = _
    rw [hchildren]
    have hroots : (state.tree.children none).head? = some state.baseSurface := h.base_first
    by_cases hnone : none = p
    · rw [← hnone, update_self, head?_append, hroots]
      rfl
    · rw [update_of_ne hnone, hroots]
  case base_gpui =>
    rw [hkind]
    exact (update_of_ne (hne _ _ h.base_gpui) _ _).trans h.base_gpui
  case overlay_gpui =>
    rw [hkind]
    exact (update_of_ne (hne _ _ h.overlay_gpui) _ _).trans h.overlay_gpui
  case base_ne => exact h.base_ne
  case platform =>
    intro y
    rw [hplatform, hkind]
    by_cases hy : y = x
    · subst hy
      simp
    · simpa [hy] using h.platform y

lemma Holds.remove (h : state.Holds) (hx : x ∈ state.tree.nodes) (hbase : x ≠ state.baseSurface)
    (hoverlay : x ≠ state.overlaySurface) (platform : KeyMap S ManagedPlatformSurface)
    (hplatform : ∀ y, (platform.get? y).isSome ↔ y ≠ x ∧ (state.platformSurfaces.get? y).isSome) :
    ∃ tree', state.tree.remove x = (tree', .ok ()) ∧
      Holds { state with tree := tree', platformSurfaces := platform } := by
  obtain ⟨tree', l₁, l₂, hok, hsplit, hnodes, hparent, hkind, hchildren, hnone⟩ :=
    remove_ok h.forest hx
  refine ⟨tree', hok, ?_⟩
  constructor
  case forest =>
    change IsForest _ _ _
    rw [hnodes]
    exact h.forest.remove hx hsplit hparent hchildren hnone
  case base_first =>
    change (tree'.children none).head? = _
    have hroots : (state.tree.children none).head? = some state.baseSurface := h.base_first
    rw [hchildren none (by simp)]
    by_cases hp : none = state.tree.parent x
    · rw [if_pos hp]
      rw [hp, hsplit] at hroots
      cases l₁ with
      | nil => exact absurd (by simpa using hroots) hbase
      | cons a l₁ => simpa using hroots
    · rw [if_neg hp, hroots]
  case base_gpui =>
    rw [hkind]
    exact (update_of_ne hbase.symm _ _).trans h.base_gpui
  case overlay_gpui =>
    rw [hkind]
    exact (update_of_ne hoverlay.symm _ _).trans h.overlay_gpui
  case base_ne => exact h.base_ne
  case platform =>
    intro y
    rw [hplatform, hkind]
    by_cases hy : y = x
    · subst hy
      simp
    · simpa [hy] using h.platform y

lemma Holds.not_gpui (h : state.Holds) (hx : (state.platformSurfaces.get? x).isSome) :
    x ≠ state.baseSurface ∧ x ≠ state.overlaySurface := by
  obtain ⟨k, hk, hne⟩ := (h.platform x).mp hx
  constructor
  · rintro rfl
    exact hne (some_injective _ (hk.symm.trans h.base_gpui))
  · rintro rfl
    exact hne (some_injective _ (hk.symm.trans h.overlay_gpui))

variable (platform : KeyMap S ManagedPlatformSurface)

lemma isSome_get?_filter_ne (x y : S) :
    ((platform.filter (fun s _ => s ≠ x)).get? y).isSome ↔ y ≠ x ∧ (platform.get? y).isSome := by
  rw [KeyMap.get?_filter]
  by_cases hy : y = x <;> cases platform.get? y <;> simp [hy]

lemma isSome_get?_modify (x y : S) (f : ManagedPlatformSurface → ManagedPlatformSurface) :
    ((platform.modify x f).get? y).isSome = (platform.get? y).isSome := by
  rw [KeyMap.get?_modify]
  split <;> cases platform.get? y <;> rfl

lemma Holds.createGpuiSurface (h : state.Holds) (hx : x ∉ state.tree.nodes) (p : Option S)
    (answers : PlatformAnswers) :
    ∃ state' result, state.createGpuiSurface x p answers = some (state', result) ∧
      state'.Holds := by
  by_cases hp : ∀ q, p = some q → q ∈ state.tree.nodes
  · obtain ⟨tree', hok, hxn, -, hadded⟩ := h.insert hx hp .gpui state.platformSurfaces
      (by
        intro y
        by_cases hy : y = x
        · subst hy
          rw [h.platform]
          simp only [if_true, ne_eq, not_true_eq_false, iff_false]
          rintro ⟨k, hk, -⟩
          exact hx (kind_isSome_iff.mp ⟨k, hk⟩)
        · simp [hy])
    obtain ⟨synced, result, hsync, hsame⟩ := synchronize_same hadded.forest answers.orders
    rw [WindowCompositionState.createGpuiSurface, hok]
    dsimp only
    rw [hsync]
    cases result with
    | ok => exact ⟨_, _, rfl, hadded.same hsame⟩
    | error error =>
      have hsynced := hadded.same hsame
      have hne : ∀ k, state.tree.kind k = some .gpui → x ≠ k := by
        rintro k hk rfl
        exact hx (kind_isSome_iff.mp ⟨_, hk⟩)
      obtain ⟨tree'', hremove, hremoved⟩ := hsynced.remove (x := x)
        (by rw [hsame.tree]; exact hxn)
        (by rw [hsame.base]; exact hne _ h.base_gpui)
        (by rw [hsame.overlay]; exact hne _ h.overlay_gpui) synced.platformSurfaces
        (by
          intro y
          refine ⟨fun hy => ⟨?_, hy⟩, fun hy => hy.2⟩
          rintro rfl
          rw [hsame.platform, h.platform] at hy
          obtain ⟨k, hk, -⟩ := hy
          exact hx (kind_isSome_iff.mp ⟨k, hk⟩))
      obtain ⟨undone, result, hundo, hsame'⟩ :=
        synchronize_same hremoved.forest answers.ordersBack
      refine ⟨undone, .error error, ?_, hremoved.same hsame'⟩
      simp only [Option.bind_eq_bind, Option.bind_some, hremove]
      rw [hundo]
      rfl
  · obtain ⟨q, rfl, hq⟩ : ∃ q, p = some q ∧ q ∉ state.tree.nodes := by
      simpa using hp
    rw [WindowCompositionState.createGpuiSurface, insert_error hq]
    exact ⟨_, _, rfl, h⟩

lemma Holds.registerPlatformSurface (h : state.Holds) (hx : x ∉ state.tree.nodes)
    {k : CompositionSurfaceKind} (hk : k ≠ .gpui)
    (hroot : state.tree.parent state.overlaySurface = none) (answers : PlatformAnswers) :
    ∃ state' result, state.registerPlatformSurface x k answers = some (state', result) ∧
      state'.Holds := by
  obtain ⟨tree', hok, hxn, hparent, hadded⟩ := h.insert hx (p := none) (by simp) k
    (state.platformSurfaces.insert x ⟨true, .base, false⟩)
    (by
      intro y
      rw [KeyMap.get?_insert]
      by_cases hy : y = x <;> simp [hy, hk])
  have hbase : x ≠ state.baseSurface := by
    rintro rfl
    exact hx (kind_isSome_iff.mp ⟨_, h.base_gpui⟩)
  have hoverlay : x ≠ state.overlaySurface := by
    rintro rfl
    exact hx (kind_isSome_iff.mp ⟨_, h.overlay_gpui⟩)
  -- both are roots of the tree, so that placing the surface cannot fail
  have hplaced : ∃ tree'', tree'.placeBelow x state.overlaySurface = (tree'', .ok ()) ∧
      x ∈ tree''.nodes := by
    have hoverlay_mem : state.overlaySurface ∈ tree'.nodes :=
      kind_isSome_iff.mp ⟨_, hadded.overlay_gpui⟩
    have hsiblings : tree'.parent x = tree'.parent state.overlaySurface := by
      rw [hparent, update_self, update_of_ne hoverlay.symm, hroot]
    obtain ⟨tree'', hplace⟩ :=
      placeRelative_ok hadded.forest hxn hoverlay_mem hoverlay hsiblings false
    rcases placeRelative_cases hadded.forest x state.overlaySurface false with
      ⟨error, herror⟩ | ⟨-, -, -, l, hok', -, -⟩
    · dsimp only at hplace herror
      rw [hplace] at herror
      simp at herror
    · exact ⟨_, hok', by rw [nodes_setSiblings]; exact hxn⟩
  obtain ⟨tree'', hplace, hxn'⟩ := hplaced
  have hregistered := hadded.placeRelative x state.overlaySurface false hbase
    (.inr h.base_ne.symm)
  dsimp only at hregistered
  rw [← CompositionTree.placeBelow, hplace] at hregistered
  obtain ⟨synced, result, hsync, hsame⟩ := synchronize_same hregistered.forest answers.orders
  rw [WindowCompositionState.registerPlatformSurface, hok]
  dsimp only
  rw [hplace]
  dsimp only
  rw [hsync]
  cases result with
  | ok => exact ⟨_, _, rfl, hregistered.same hsame⟩
  | error error =>
    have hsynced := hregistered.same hsame
    obtain ⟨tree₃, hremove, hremoved⟩ := hsynced.remove (x := x)
      (by rw [hsame.tree]; exact hxn') (by rw [hsame.base]; exact hbase)
      (by rw [hsame.overlay]; exact hoverlay) (synced.platformSurfaces.filter (fun s _ => s ≠ x))
      (fun y => isSome_get?_filter_ne _ x y)
    obtain ⟨undone, result, hundo, hsame'⟩ := synchronize_same hremoved.forest answers.ordersBack
    refine ⟨undone, .error error, ?_, hremoved.same hsame'⟩
    simp only [bind_eq_bind, bind_some, hremove]
    rw [hundo]
    rfl

lemma hide_same (state : WindowCompositionState S) (x : S) (hides : Bool) :
    SameSurfaces state (state.hide x hides).1 := by
  rw [hide]
  split
  · exact ⟨rfl, fun _ => rfl, rfl, rfl⟩
  · split
    · exact ⟨rfl, fun _ => rfl, rfl, rfl⟩
    · split
      · exact ⟨rfl, fun y => isSome_get?_modify _ x y _, rfl, rfl⟩
      · exact ⟨rfl, fun _ => rfl, rfl, rfl⟩

lemma Holds.removeSurface (h : state.Holds) (x : S) (answers : PlatformAnswers) :
    ∃ state' result, state.removeSurface x answers = some (state', result) ∧ state'.Holds := by
  rw [WindowCompositionState.removeSurface]
  by_cases hx : x = state.baseSurface ∨ x = state.overlaySurface
  · exact ⟨_, _, if_pos hx, h⟩
  · rw [if_neg hx]
    obtain ⟨hbase, hoverlay⟩ := not_or.mp hx
    have hhide := hide_same state x answers.hides
    rcases houtcome : state.hide x answers.hides with ⟨hidden, result⟩
    rw [houtcome] at hhide
    have hhidden : hidden.Holds := h.same hhide
    cases result with
    | error error => exact ⟨_, _, rfl, hhidden⟩
    | ok =>
      dsimp only
      by_cases hxn : x ∈ hidden.tree.nodes
      · obtain ⟨tree', hremove, hremoved⟩ := hhidden.remove hxn
          (fun hx' => hbase (hx'.trans hhide.base)) (fun hx' => hoverlay (hx'.trans hhide.overlay))
          (hidden.platformSurfaces.filter (fun s _ => s ≠ x))
          (fun y => isSome_get?_filter_ne _ x y)
        obtain ⟨synced, result, hsync, hsame⟩ := synchronize_same hremoved.forest answers.orders
        rw [hremove]
        dsimp only
        rw [hsync]
        cases result with
        | ok => exact ⟨_, _, rfl, hremoved.same hsame⟩
        | error error =>
          -- the tree and the platform surface are put back
          have hback : (synced.restore state.tree x (state.platformSurfaces.get? x)
              answers.shows).Holds := by
            refine h.same ?_
            have hothers : ∀ y, (synced.platformSurfaces.get? y).isSome ↔
                y ≠ x ∧ (state.platformSurfaces.get? y).isSome := by
              intro y
              rw [hsame.platform, isSome_get?_filter_ne, hhide.platform]
            cases hp : state.platformSurfaces.get? x with
            | none =>
              refine ⟨rfl, fun y => ?_, hsame.base.trans hhide.base,
                hsame.overlay.trans hhide.overlay⟩
              rw [Bool.eq_iff_iff]
              refine (hothers y).trans (and_iff_right_of_imp ?_)
              rintro hy rfl
              simp [hp] at hy
            | some platformSurface =>
              refine ⟨rfl, fun y => ?_, hsame.base.trans hhide.base,
                hsame.overlay.trans hhide.overlay⟩
              dsimp only [restore]
              rw [KeyMap.get?_insert]
              by_cases hy : y = x
              · simp [hy, hp]
              · rw [if_neg hy, Bool.eq_iff_iff, hothers]
                exact and_iff_right hy
          obtain ⟨undone, result, hundo, hsame'⟩ :=
            synchronize_same hback.forest answers.ordersBack
          refine ⟨undone, .error error, ?_, hback.same hsame'⟩
          change (synchronizePlatformOrder _ answers.ordersBack).bind _ = _
          rw [hundo]
          rfl
      · rw [remove_error hxn]
        exact ⟨_, _, rfl, hhidden⟩

lemma Holds.restackNativeSurfaces (order : List S) :
    ∀ {state : WindowCompositionState S}, state.Holds →
      (state.restackNativeSurfaces order).1.Holds := by
  induction order with
  | nil => exact fun h => h
  | cons x order ih =>
    intro state h
    rw [WindowCompositionState.restackNativeSurfaces]
    cases hx : state.platformSurfaces.get? x with
    | none => exact ih h
    | some platformSurface =>
      have hcleared : Holds { state with
          platformSurfaces :=
            state.platformSurfaces.modify x (fun s => { s with restack := false }) } :=
        h.same ⟨rfl, fun y => isSome_get?_modify _ x y _, rfl, rfl⟩
      dsimp only
      split
      · exact ih hcleared
      · split
        · exact hcleared
        · split
          · exact ih hcleared
          · have hplaced := hcleared.placeRelative x state.overlaySurface
              (decide (platformSurface.host = .overlay))
              (h.not_gpui (by rw [hx]; rfl)).1 (.inr h.base_ne.symm)
            dsimp only at hplaced
            split
            · rename_i tree error hplace
              rw [hplace] at hplaced
              exact hplaced
            · rename_i tree hplace
              rw [hplace] at hplaced
              exact ih hplaced

def registersBelowRoot (state : WindowCompositionState S) : CompositionAction S → Bool
  | .createNativeSurface _ answers =>
    !answers.creates || decide (state.tree.parent state.overlaySurface = none)
  | .createExternalGpuSurface _ _ => decide (state.tree.parent state.overlaySurface = none)
  | _ => true

/-- Every step of a run registers platform surfaces only while the overlay surface is a root. -/
def registersBelowRoots (state : WindowCompositionState S) : List (CompositionAction S) → Bool
  | [] => true
  | action :: actions =>
    state.registersBelowRoot action &&
      match state.step action with
      | none => true
      | some state => registersBelowRoots state actions

lemma holds_map (state : WindowCompositionState S)
    {outcome : Option (WindowCompositionState S × Except String Unit)}
    (h : ∃ state' result, outcome = some (state', result) ∧ state'.Holds)
    (hstate : state.Holds) (fresh : Bool) :
    ∃ state', (if fresh then outcome.map Prod.fst else some state) = some state' ∧
      state'.Holds := by
  obtain ⟨state', result, rfl, h'⟩ := h
  cases fresh with
  | true => exact ⟨state', rfl, h'⟩
  | false => exact ⟨state, rfl, hstate⟩

lemma Holds.step (h : state.Holds) (action : CompositionAction S)
    (hmeets : state.registersBelowRoot action) :
    ∃ state', state.step action = some state' ∧ state'.Holds := by
  have hfresh : ∀ {x}, state.isFresh x = true → x ∉ state.tree.nodes := by
    intro x hx
    rw [not_mem_nodes]
    simpa [isFresh] using hx
  cases action with
  | createNativeSurface x answers =>
    rw [WindowCompositionState.step]
    by_cases hx : state.isFresh x = true
    · refine holds_map state ?_ h _
      rw [createNativeSurface]
      by_cases hcreates : answers.creates = true
      · rw [if_pos hcreates]
        refine h.registerPlatformSurface (hfresh hx) (by simp) ?_ answers
        simpa [registersBelowRoot, hcreates] using hmeets
      · exact ⟨_, _, if_neg hcreates, h⟩
    · exact ⟨_, if_neg hx, h⟩
  | createExternalGpuSurface x answers =>
    rw [WindowCompositionState.step]
    by_cases hx : state.isFresh x = true
    · refine holds_map state ?_ h _
      refine h.registerPlatformSurface (hfresh hx) (by simp) ?_ answers
      simpa [registersBelowRoot] using hmeets
    · exact ⟨_, if_neg hx, h⟩
  | createGpuiSurface x p answers =>
    rw [WindowCompositionState.step]
    by_cases hx : state.isFresh x = true
    · exact holds_map state (h.createGpuiSurface (hfresh hx) p answers) h _
    · exact ⟨_, if_neg hx, h⟩
  | placeAbove x y answers =>
    refine holds_map state ?_ h true
    rw [placeAbove]
    by_cases hx : x = state.baseSurface
    · exact ⟨_, _, if_pos hx, h⟩
    · rw [if_neg hx]
      exact h.changeTree answers (h.placeRelative x y true hx (.inl rfl))
  | placeBelow x y answers =>
    refine holds_map state ?_ h true
    rw [placeBelow]
    by_cases hxy : x = state.baseSurface ∨ y = state.baseSurface
    · exact ⟨_, _, if_pos hxy, h⟩
    · rw [if_neg hxy]
      obtain ⟨hx, hy⟩ := not_or.mp hxy
      exact h.changeTree answers (h.placeRelative x y false hx (.inr hy))
  | reparent x p answers =>
    refine holds_map state ?_ h true
    rw [WindowCompositionState.reparent]
    by_cases hx : x = state.baseSurface
    · exact ⟨_, _, if_pos hx, h⟩
    · rw [if_neg hx]
      obtain ⟨change, hchange, hheld⟩ := h.reparent_tree (q := p) hx
      rw [hchange]
      exact h.changeTree answers hheld
  | removeSurface x answers => exact holds_map state (h.removeSurface x answers) h true
  | synchronizeGeometry order answers =>
    rw [WindowCompositionState.step, synchronizeGeometry]
    split
    · have hrestacked := Holds.restackNativeSurfaces order h
      obtain ⟨synced, result, hsync, hsame⟩ := synchronize_same hrestacked.forest answers.orders
      rw [hsync]
      exact ⟨synced, rfl, hrestacked.same hsame⟩
    · exact ⟨_, rfl, h⟩
  | enableWindowComposition answers =>
    rw [WindowCompositionState.step, enableWindowComposition]
    split
    · exact ⟨_, rfl, h⟩
    · obtain ⟨synced, result, hsync, hsame⟩ := synchronize_same h.forest answers.orders
      rw [hsync]
      cases result with
      | ok => exact ⟨_, rfl, h.same ⟨hsame.tree, hsame.platform, hsame.base, hsame.overlay⟩⟩
      | error error => exact ⟨_, rfl, h.same hsame⟩
  | setBounds x host moves =>
    refine ⟨_, rfl, h.same ?_⟩
    rw [setBounds]
    split
    · exact ⟨rfl, fun _ => rfl, rfl, rfl⟩
    · exact ⟨rfl, fun y => isSome_get?_modify _ x y _, rfl, rfl⟩
  | setVisible x visible =>
    exact ⟨_, rfl, h.same ⟨rfl, fun y => isSome_get?_modify _ x y _, rfl, rfl⟩⟩

lemma holds_new {base overlay : S} (hne : base ≠ overlay) : (new base overlay).Holds := by
  have hnodes : ∀ x, x ∉ (CompositionTree.new : CompositionTree S).nodes :=
    fun x => not_mem_nodes.mpr rfl
  have hbase := hnodes base
  obtain ⟨tree₁, hok₁, hnodes₁, hparent₁, hkind₁, hchildren₁⟩ :=
    insert_ok hbase (p := none) (by simp) .gpui
  have hoverlay : overlay ∉ tree₁.nodes := by
    rw [hnodes₁, Finset.mem_insert, not_or]
    exact ⟨hne.symm, hnodes overlay⟩
  obtain ⟨tree₂, hok₂, hnodes₂, hparent₂, hkind₂, hchildren₂⟩ :=
    insert_ok hoverlay (p := none) (by simp) .gpui
  have htree : (new base overlay).tree = tree₂ := by
    rw [new]
    dsimp only
    rw [hok₁]
    dsimp only
    rw [hok₂]
  have hforest₁ : tree₁.Forest := by
    change IsForest _ _ _
    rw [hnodes₁, hparent₁, hchildren₁]
    exact IsForest.insert forest_new hbase (by simp)
  constructor
  case forest =>
    rw [htree]
    change IsForest _ _ _
    rw [hnodes₂, hparent₂, hchildren₂]
    exact IsForest.insert hforest₁ hoverlay (by simp)
  case base_first =>
    rw [htree]
    change (tree₂.children none).head? = some base
    rw [hchildren₂, update_self, hchildren₁, update_self]
    rfl
  case base_gpui =>
    change (new base overlay).tree.kind base = _
    rw [htree, hkind₂, update_of_ne hne, hkind₁, update_self]
  case overlay_gpui =>
    change (new base overlay).tree.kind overlay = _
    rw [htree, hkind₂, update_self]
  case base_ne => exact hne
  case platform =>
    intro x
    have hnone : (new base overlay).platformSurfaces.get? x = none := rfl
    rw [hnone, htree, hkind₂, hkind₁]
    by_cases hx₂ : x = overlay
    · simp [hx₂]
    · by_cases hx₁ : x = base
      · simp [hx₁, update_of_ne hne]
      · simp [hx₁, hx₂, kind, CompositionTree.new]

lemma Holds.run (actions : List (CompositionAction S)) :
    ∀ {state : WindowCompositionState S}, state.Holds → state.registersBelowRoots actions →
      ∃ state', actions.foldlM WindowCompositionState.step state = some state' ∧ state'.Holds := by
  induction actions with
  | nil => exact fun h _ => ⟨_, rfl, h⟩
  | cons action actions ih =>
    intro state h hmeets
    rw [registersBelowRoots, Bool.and_eq_true] at hmeets
    obtain ⟨next, hstep, hnext⟩ := h.step action hmeets.1
    have hrest := hmeets.2
    rw [hstep] at hrest
    rw [foldlM_cons, hstep]
    exact ih hnext hrest

/-- In every run that registers platform surfaces only while the overlay surface is a root, every
operation returns and the tree stays a forest in step with the platform surfaces. -/
theorem run_inStep {base overlay : S} (hne : base ≠ overlay) (actions : List (CompositionAction S))
    (hmeets : (new base overlay).registersBelowRoots actions) :
    ∃ state, run base overlay actions = some state ∧ state.InStep := by
  obtain ⟨state, hrun, h⟩ := Holds.run actions (holds_new hne) hmeets
  exact ⟨state, hrun, h.inStep⟩

def willing : PlatformAnswers := ⟨true, true, true, true, true⟩

/-- Two native surfaces, one of which is restacked above the overlay surface and the other removed
after the overlay surface was moved under it, and a surface that the platform refuses. -/
theorem run_inStep_restacked : ∃ state : WindowCompositionState ℕ,
    run 0 1
      [.createNativeSurface 2 willing, .createNativeSurface 3 willing,
        .enableWindowComposition willing, .setBounds 2 (some .overlay) true,
        .synchronizeGeometry [2, 3] willing, .reparent 1 (some 3) willing, .removeSurface 3 willing,
        .createGpuiSurface 4 (some 1) ⟨true, true, false, true, true⟩] = some state ∧
      state.InStep :=
  run_inStep (by decide) _ (by decide)

/-- With the overlay surface under the base surface, a native surface cannot be placed below it, and
is left in the tree without a platform surface. -/
theorem registered_below_nested_overlay : ∃ state : WindowCompositionState ℕ,
    run 0 1 [.reparent 1 (some 0) willing, .createNativeSurface 2 willing] = some state ∧
      ¬ state.InStep := by
  refine ⟨_, rfl, fun h => ?_⟩
  exact absurd ((h.platform 2).mpr ⟨⟨.native, none, []⟩, rfl, by decide⟩) (by decide)

end WindowCompositionState

end GpuiFast
