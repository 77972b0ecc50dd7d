import GpuiFast.CompositionTree

namespace GpuiFast

open List Function

namespace CompositionTree

variable {S : Type*} [DecidableEq S]

def nodes (tree : CompositionTree S) : Finset S := tree.surfaces.keys.toFinset

def Forest (tree : CompositionTree S) : Prop := IsForest tree.nodes tree.parent tree.children

variable {tree : CompositionTree S} {x : S}

lemma mem_nodes : x ∈ tree.nodes ↔ ∃ node, tree.surfaces.get? x = some node := by
  rw [nodes, mem_toFinset, KeyMap.mem_keys]

lemma not_mem_nodes : x ∉ tree.nodes ↔ tree.surfaces.get? x = none := by
  rw [mem_nodes, Option.eq_none_iff_forall_ne_some]
  exact not_exists

lemma card_nodes_le (tree : CompositionTree S) : tree.nodes.card ≤ tree.len + 1 := by
  have h : tree.nodes.card ≤ tree.surfaces.keys.length := toFinset_card_le _
  rw [KeyMap.keys, length_map] at h
  exact h.trans (Nat.le_succ _)

lemma parent_eq {node : CompositionSurfaceNode S} (h : tree.surfaces.get? x = some node) :
    tree.parent x = node.parent := by
  rw [parent, h, Option.bind_some]

lemma kind_isSome_iff : (∃ k, tree.kind x = some k) ↔ x ∈ tree.nodes := by
  rw [mem_nodes, kind]
  cases tree.surfaces.get? x <;> simp

lemma siblings_eq_some {p : Option S} (h : ∀ q, p = some q → q ∈ tree.nodes) :
    tree.siblings p = some (tree.children p) := by
  cases p with
  | none => rfl
  | some q =>
    obtain ⟨node, hnode⟩ := mem_nodes.mp (h q rfl)
    simp [children, siblings, hnode]

variable {q : S}

lemma siblings_eq_none (h : q ∉ tree.nodes) : tree.siblings (some q) = none := by
  simp [siblings, not_mem_nodes.mp h]

lemma get?_setSiblings (tree : CompositionTree S) (p : Option S) (l : List S) (x : S) :
    (tree.setSiblings p l).surfaces.get? x =
      if some x = p then (tree.surfaces.get? x).map (fun node => { node with children := l })
      else tree.surfaces.get? x := by
  cases p with
  | none => simp [setSiblings]
  | some q => simp [setSiblings, KeyMap.get?_modify]

lemma nodes_setSiblings (tree : CompositionTree S) (p : Option S) (l : List S) :
    (tree.setSiblings p l).nodes = tree.nodes := by
  ext x
  rw [mem_nodes, mem_nodes, get?_setSiblings]
  split <;> cases tree.surfaces.get? x <;> simp

lemma parent_setSiblings (tree : CompositionTree S) (p : Option S) (l : List S) :
    (tree.setSiblings p l).parent = tree.parent := by
  funext x
  rw [parent, parent, get?_setSiblings]
  split <;> cases tree.surfaces.get? x <;> simp

lemma kind_setSiblings (tree : CompositionTree S) (p : Option S) (l : List S) :
    (tree.setSiblings p l).kind = tree.kind := by
  funext x
  rw [kind, kind, get?_setSiblings]
  split <;> cases tree.surfaces.get? x <;> simp

lemma children_setSiblings {p : Option S} (h : ∀ q, p = some q → q ∈ tree.nodes) (l : List S) :
    (tree.setSiblings p l).children = update tree.children p l := by
  funext r
  cases r with
  | none =>
    cases p with
    | none => simp [children, siblings, setSiblings]
    | some q => simp [children, siblings, setSiblings]
  | some x =>
    simp only [children, siblings, get?_setSiblings]
    by_cases hx : some x = p
    · obtain ⟨node, hnode⟩ := mem_nodes.mp (h x hx.symm)
      rw [if_pos hx, hnode, ← hx, update_self]
      rfl
    · rw [if_neg hx, update_of_ne hx, children, siblings]

lemma get?_setParent (tree : CompositionTree S) (x y : S) (p : Option S) :
    (tree.setParent x p).surfaces.get? y =
      if y = x then (tree.surfaces.get? y).map (fun node => { node with parent := p })
      else tree.surfaces.get? y := by
  rw [setParent, KeyMap.get?_modify]

lemma nodes_setParent (tree : CompositionTree S) (x : S) (p : Option S) :
    (tree.setParent x p).nodes = tree.nodes := by
  ext y
  rw [mem_nodes, mem_nodes, get?_setParent]
  split <;> cases tree.surfaces.get? y <;> simp

lemma kind_setParent (tree : CompositionTree S) (x : S) (p : Option S) :
    (tree.setParent x p).kind = tree.kind := by
  funext y
  rw [kind, kind, get?_setParent]
  split <;> cases tree.surfaces.get? y <;> simp

lemma children_setParent (tree : CompositionTree S) (x : S) (p : Option S) :
    (tree.setParent x p).children = tree.children := by
  funext r
  cases r with
  | none => rfl
  | some y =>
    rw [children, children, siblings, siblings, get?_setParent]
    split <;> cases tree.surfaces.get? y <;> simp

lemma parent_setParent (hx : x ∈ tree.nodes) (p : Option S) :
    (tree.setParent x p).parent = update tree.parent x p := by
  funext y
  rw [parent, get?_setParent]
  by_cases hy : y = x
  · subst hy
    obtain ⟨node, hnode⟩ := mem_nodes.mp hx
    rw [if_pos rfl, hnode, update_self]
    rfl
  · rw [if_neg hy, update_of_ne hy, parent]

lemma forest_new : (new : CompositionTree S).Forest := by
  have hnodes : ∀ x, x ∉ (new : CompositionTree S).nodes := fun x => not_mem_nodes.mpr rfl
  have hchildren : ∀ p, (new : CompositionTree S).children p = [] := by
    intro p
    cases p <;> rfl
  refine ⟨?_, ?_, ?_, ⟨fun _ => 0, ?_⟩⟩
  · intro p x
    simp [hchildren, hnodes]
  · intro p
    simp [hchildren]
  · exact fun hx => absurd hx (hnodes _)
  · exact fun hx => absurd hx (hnodes _)

lemma insert_surfaces (hx : x ∉ tree.nodes) (k : CompositionSurfaceKind) (p : Option S) :
    let added : CompositionTree S :=
      { tree with surfaces := tree.surfaces.insert x ⟨k, p, []⟩ }
    added.nodes = Insert.insert x tree.nodes ∧ added.parent = update tree.parent x p ∧
      added.kind = update tree.kind x (some k) ∧ added.children = tree.children := by
  intro added
  have hget : ∀ y, added.surfaces.get? y =
      if y = x then some ⟨k, p, []⟩ else tree.surfaces.get? y :=
    fun y => KeyMap.get?_insert _ _ _ _
  refine ⟨?_, ?_, ?_, ?_⟩
  · ext y
    rw [Finset.mem_insert, mem_nodes, mem_nodes, hget]
    by_cases hy : y = x <;> simp [hy]
  · funext y
    rw [parent, hget]
    by_cases hy : y = x
    · subst hy
      simp
    · simp [hy, parent]
  · funext y
    rw [kind, hget]
    by_cases hy : y = x
    · subst hy
      simp
    · simp [hy, kind]
  · funext r
    cases r with
    | none => rfl
    | some y =>
      rw [children, children, siblings, siblings, hget]
      by_cases hy : y = x
      · subst hy
        simp [not_mem_nodes.mp hx]
      · simp [hy]

lemma insert_ok {p : Option S} (hx : x ∉ tree.nodes) (hp : ∀ q, p = some q → q ∈ tree.nodes)
    (k : CompositionSurfaceKind) :
    ∃ tree', tree.insert x k p = (tree', .ok ()) ∧ tree'.nodes = Insert.insert x tree.nodes ∧
      tree'.parent = update tree.parent x p ∧ tree'.kind = update tree.kind x (some k) ∧
      tree'.children = update tree.children p (tree.children p ++ [x]) := by
  obtain ⟨hnodes, hparent, hkind, hchildren⟩ := insert_surfaces hx k p
  have hp' : ∀ q, p = some q → q ∈ CompositionTree.nodes
      { tree with surfaces := tree.surfaces.insert x ⟨k, p, []⟩ } := by
    intro q hq
    rw [hnodes]
    exact Finset.mem_insert_of_mem (hp q hq)
  refine ⟨_, by rw [insert, siblings_eq_some hp]; dsimp only; rw [siblings_eq_some hp'],
    ?_, ?_, ?_, ?_⟩
  · rw [nodes_setSiblings, hnodes]
  · rw [parent_setSiblings, hparent]
  · rw [kind_setSiblings, hkind]
  · rw [children_setSiblings hp', hchildren]

lemma insert_error (hq : q ∉ tree.nodes) (k : CompositionSurfaceKind) :
    tree.insert x k (some q) = (tree, .error doesNotExist) := by
  rw [insert, siblings_eq_none hq]

lemma perm_insertIdx {l : List S} {y : S} (hx : x ∈ l) (hl : l.Nodup) (b : Bool) :
    ((l.filter (· ≠ x)).insertIdx ((l.filter (· ≠ x)).idxOf y + b.toNat) x).Perm l ∨
      y ∉ l.filter (· ≠ x) := by
  by_cases hy : y ∈ l.filter (· ≠ x)
  · left
    have hlt : (l.filter (· ≠ x)).idxOf y < (l.filter (· ≠ x)).length := idxOf_lt_length_iff.mpr hy
    have hle : (l.filter (· ≠ x)).idxOf y + b.toNat ≤ (l.filter (· ≠ x)).length := by
      have := b.toNat_le
      omega
    refine (List.perm_insertIdx x _ hle).trans ?_
    have herase : l.filter (· ≠ x) = l.erase x := by
      rw [hl.erase_eq_filter]
      refine filter_congr (fun z _ => ?_)
      by_cases hz : z = x <;> simp [hz]
    rw [herase]
    exact (perm_cons_erase hx).symm
  · exact .inr hy

omit [DecidableEq S] in
lemma head_insertIdx {l : List S} {b : S} {i : ℕ} (hl : l.head? = some b) (hi : 0 < i) :
    (l.insertIdx i x).head? = some b := by
  cases l with
  | nil => simp at hl
  | cons a l =>
    obtain ⟨j, rfl⟩ : ∃ j, i = j + 1 := ⟨i - 1, by omega⟩
    simpa [insertIdx_succ_cons] using hl

lemma placeRelative_cases (h : tree.Forest) (x y : S) (above : Bool) :
    (∃ error, tree.placeRelative x y above = (tree, .error error)) ∨
      (x ∈ tree.nodes ∧ x ≠ y ∧ tree.parent x = tree.parent y ∧
        ∃ l, tree.placeRelative x y above = (tree.setSiblings (tree.parent x) l, .ok ()) ∧
          l.Perm (tree.children (tree.parent x)) ∧
          ∀ b, (tree.children (tree.parent x)).head? = some b → x ≠ b → (above = true ∨ y ≠ b) →
            l.head? = some b) := by
  rw [placeRelative]
  by_cases hxy : x = y
  · exact .inl ⟨_, if_pos hxy⟩
  · rw [if_neg hxy]
    cases hx : tree.surfaces.get? x with
    | none => exact .inl ⟨_, rfl⟩
    | some node =>
      cases hy : tree.surfaces.get? y with
      | none => exact .inl ⟨_, rfl⟩
      | some other =>
        dsimp only
        by_cases hp : other.parent = node.parent
        · right
          have hxn : x ∈ tree.nodes := mem_nodes.mpr ⟨node, hx⟩
          have hyn : y ∈ tree.nodes := mem_nodes.mpr ⟨other, hy⟩
          rw [parent_eq hx, parent_eq hy]
          have hmem : ∀ q, node.parent = some q → q ∈ tree.nodes :=
            fun q hq => h.parent_mem hxn ((parent_eq hx).trans hq)
          have hxc : x ∈ tree.children node.parent :=
            h.mem_children.mpr ⟨hxn, parent_eq hx⟩
          have hyc : y ∈ (tree.children node.parent).filter (· ≠ x) := by
            refine mem_filter.mpr ⟨h.mem_children.mpr ⟨hyn, (parent_eq hy).trans hp⟩, ?_⟩
            simpa using Ne.symm hxy
          rw [if_neg (not_not.mpr hp), siblings_eq_some hmem]
          dsimp only
          rw [if_pos hyc]
          refine ⟨hxn, hxy, hp.symm, _, rfl, ?_, ?_⟩
          · exact (perm_insertIdx hxc (h.nodup_children _) above).resolve_right (not_not.mpr hyc)
          · intro b hb hxb hab
            have hb' : ((tree.children node.parent).filter (· ≠ x)).head? = some b := by
              obtain ⟨l, hl⟩ : ∃ l, tree.children node.parent = b :: l :=
                ⟨_, eq_cons_of_mem_head? hb⟩
              rw [hl, filter_cons_of_pos (by simpa using Ne.symm hxb), head?_cons]
            refine head_insertIdx hb' ?_
            rcases hab with rfl | hyb
            · simp
            · obtain ⟨l, hl⟩ : ∃ l, (tree.children node.parent).filter (· ≠ x) = b :: l :=
                ⟨_, eq_cons_of_mem_head? hb'⟩
              rw [hl, idxOf_cons_ne _ (Ne.symm hyb)]
              omega
        · exact .inl ⟨_, if_pos hp⟩

lemma placeRelative_ok (h : tree.Forest) {y : S} (hx : x ∈ tree.nodes) (hy : y ∈ tree.nodes)
    (hxy : x ≠ y) (hparent : tree.parent x = tree.parent y) (above : Bool) :
    ∃ tree', tree.placeRelative x y above = (tree', .ok ()) := by
  obtain ⟨node, hnode⟩ := mem_nodes.mp hx
  obtain ⟨other, hother⟩ := mem_nodes.mp hy
  rw [parent_eq hnode, parent_eq hother] at hparent
  have hmem : ∀ q, node.parent = some q → q ∈ tree.nodes :=
    fun q hq => h.parent_mem hx ((parent_eq hnode).trans hq)
  have hsibling : y ∈ (tree.children node.parent).filter (· ≠ x) := by
    refine mem_filter.mpr ⟨?_, by simpa using hxy.symm⟩
    exact h.mem_children.mpr ⟨hy, (parent_eq hother).trans hparent.symm⟩
  rw [placeRelative, if_neg hxy, hnode, hother]
  dsimp only
  rw [if_neg (not_not.mpr hparent.symm), siblings_eq_some hmem]
  dsimp only
  rw [if_pos hsibling]
  exact ⟨_, rfl⟩

lemma isDescendant_eq (h : tree.Forest) {a : S} (fuel : ℕ) :
    ∀ x ∈ tree.nodes, tree.isDescendant a fuel x = (climbsTo tree.parent a fuel x).map .ok := by
  induction fuel with
  | zero => exact fun _ _ => rfl
  | succ fuel ih =>
    intro x hx
    obtain ⟨node, hnode⟩ := mem_nodes.mp hx
    rw [isDescendant, climbsTo]
    by_cases hxa : x = a
    · rw [if_pos hxa, if_pos hxa]
      rfl
    · rw [if_neg hxa, if_neg hxa, hnode, parent_eq hnode]
      dsimp only
      cases hp : node.parent with
      | none => rfl
      | some p => exact ih p (h.parent_mem hx ((parent_eq hnode).trans hp))

lemma moveUnder_ok (h : tree.Forest) {q : Option S} (hx : x ∈ tree.nodes)
    (hq : ∀ p, q = some p → p ∈ tree.nodes) :
    ∃ tree', tree.moveUnder x (tree.parent x) q = (tree', .ok ()) ∧ tree'.nodes = tree.nodes ∧
      tree'.parent = update tree.parent x q ∧ tree'.kind = tree.kind ∧
      ∃ without : Option S → List S, (∀ p, without p = (tree.children p).filter (· ≠ x)) ∧
        tree'.children = update without q (without q ++ [x]) := by
  have hprev : ∀ p, tree.parent x = some p → p ∈ tree.nodes := fun p hp => h.parent_mem hx hp
  set taken := (tree.setSiblings (tree.parent x)
    ((tree.children (tree.parent x)).filter (· ≠ x))).setParent x q with htaken
  have hnodes : taken.nodes = tree.nodes := by rw [htaken, nodes_setParent, nodes_setSiblings]
  have hchildren : taken.children = update tree.children (tree.parent x)
      ((tree.children (tree.parent x)).filter (· ≠ x)) := by
    rw [htaken, children_setParent, children_setSiblings hprev]
  have hq' : ∀ p, q = some p → p ∈ taken.nodes := fun p hp => hnodes ▸ hq p hp
  refine ⟨taken.setSiblings q (taken.children q ++ [x]), ?_, ?_, ?_, ?_, taken.children, ?_, ?_⟩
  · rw [moveUnder, siblings_eq_some hprev]
    dsimp only
    rw [← htaken, siblings_eq_some hq']
  · rw [nodes_setSiblings, hnodes]
  · rw [parent_setSiblings, htaken, parent_setParent (by rwa [nodes_setSiblings]),
      parent_setSiblings]
  · rw [kind_setSiblings, htaken, kind_setParent, kind_setSiblings]
  · intro p
    rw [hchildren]
    by_cases hp : p = tree.parent x
    · subst hp
      rw [update_self]
    · rw [update_of_ne hp, filter_eq_self.mpr]
      intro y hy
      have hyx : y ≠ x := fun hyx => hp (by rw [← hyx, (h.mem_children.mp hy).2])
      simpa using hyx
  · rw [children_setSiblings hq']

lemma reparent_cases (h : tree.Forest) (x : S) (q : Option S) :
    (∃ error, tree.reparent x q = some (tree, .error error)) ∨
      (x ∈ tree.nodes ∧ (∀ p, q = some p → p ∈ tree.nodes) ∧
        (∀ p, q = some p → ¬ Under tree.nodes tree.parent p x) ∧
        tree.reparent x q = some (tree.moveUnder x (tree.parent x) q)) := by
  rw [reparent]
  cases hx : tree.surfaces.get? x with
  | none => exact .inl ⟨_, rfl⟩
  | some node =>
    have hxn : x ∈ tree.nodes := mem_nodes.mpr ⟨node, hx⟩
    dsimp only
    cases q with
    | none => exact .inr ⟨hxn, by simp, by simp, by rw [parent_eq hx]⟩
    | some p =>
      dsimp only
      cases hp : tree.surfaces.get? p with
      | none => exact .inl ⟨_, rfl⟩
      | some other =>
        have hpn : p ∈ tree.nodes := mem_nodes.mpr ⟨other, hp⟩
        dsimp only
        by_cases hpx : p = x
        · exact .inl ⟨_, if_pos hpx⟩
        · rw [if_neg hpx, isDescendant_eq h _ p hpn]
          obtain ⟨b, hb, hiff⟩ := h.climbsTo_under (a := x) hpn tree.card_nodes_le
          rw [hb]
          cases b with
          | true => exact .inl ⟨_, rfl⟩
          | false =>
            refine .inr ⟨hxn, ?_, ?_, by rw [parent_eq hx]; rfl⟩
            · rintro r ⟨⟩
              exact hpn
            · rintro r ⟨⟩ hu
              exact absurd (hiff.mpr hu) (by simp)

lemma setParents_ok (p : Option S) (l : List S) :
    ∀ {tree : CompositionTree S}, (∀ x ∈ l, x ∈ tree.nodes) →
      ∃ tree', tree.setParents p l = (tree', .ok ()) ∧ tree'.nodes = tree.nodes ∧
        (∀ y, tree'.parent y = if y ∈ l then p else tree.parent y) ∧ tree'.kind = tree.kind ∧
        tree'.children = tree.children := by
  induction l with
  | nil => exact fun _ => ⟨_, rfl, rfl, fun y => by simp, rfl, rfl⟩
  | cons x l ih =>
    intro tree hl
    have hx : x ∈ tree.nodes := hl x mem_cons_self
    obtain ⟨node, hnode⟩ := mem_nodes.mp hx
    obtain ⟨tree', hset, hnodes, hparent, hkind, hchildren⟩ :=
      @ih (tree.setParent x p) (fun y hy => by
        rw [nodes_setParent]
        exact hl y (mem_cons_of_mem x hy))
    refine ⟨tree', by rw [setParents, hnode]; exact hset, ?_, ?_, ?_, ?_⟩
    · rw [hnodes, nodes_setParent]
    · intro y
      rw [hparent, parent_setParent hx]
      by_cases hyl : y ∈ l
      · simp [hyl]
      · by_cases hyx : y = x
        · subst hyx
          simp
        · simp [hyl, hyx]
    · rw [hkind, kind_setParent]
    · rw [hchildren, children_setParent]

lemma filter_surfaces (tree : CompositionTree S) (x : S) :
    let removed : CompositionTree S :=
      { tree with surfaces := tree.surfaces.filter (fun s _ => s ≠ x) }
    removed.nodes = tree.nodes.erase x ∧ (∀ y, y ≠ x → removed.parent y = tree.parent y) ∧
      removed.kind = update tree.kind x none ∧
      (∀ p, p ≠ some x → removed.children p = tree.children p) ∧
      removed.children (some x) = [] := by
  intro removed
  have hget : ∀ y, removed.surfaces.get? y = if y = x then none else tree.surfaces.get? y := by
    intro y
    refine (KeyMap.get?_filter _ _ _).trans ?_
    by_cases hy : y = x
    · simp [hy]
    · cases tree.surfaces.get? y <;> simp [hy]
  refine ⟨?_, ?_, ?_, ?_, ?_⟩
  · ext y
    rw [Finset.mem_erase, mem_nodes, mem_nodes, hget]
    by_cases hy : y = x <;> simp [hy]
  · intro y hy
    rw [parent, hget, if_neg hy, parent]
  · funext y
    rw [kind, hget]
    by_cases hy : y = x
    · subst hy
      simp
    · simp [hy, kind]
  · intro p hp
    cases p with
    | none => rfl
    | some y =>
      rw [children, children, siblings, siblings, hget, if_neg (fun hy => hp (by rw [hy]))]
  · rw [children, siblings, hget, if_pos rfl]
    rfl

lemma remove_ok (h : tree.Forest) (hx : x ∈ tree.nodes) :
    ∃ tree' l₁ l₂, tree.remove x = (tree', .ok ()) ∧
      tree.children (tree.parent x) = l₁ ++ x :: l₂ ∧ tree'.nodes = tree.nodes.erase x ∧
      (∀ y ∈ tree.nodes, y ≠ x →
        tree'.parent y = if tree.parent y = some x then tree.parent x else tree.parent y) ∧
      tree'.kind = update tree.kind x none ∧
      (∀ p, p ≠ some x → tree'.children p =
        if p = tree.parent x then l₁ ++ tree.children (some x) ++ l₂ else tree.children p) ∧
      tree'.children (some x) = [] := by
  obtain ⟨node, hnode⟩ := mem_nodes.mp hx
  have hparent := parent_eq hnode
  have hmem : ∀ q, tree.parent x = some q → q ∈ tree.nodes := fun q hq => h.parent_mem hx hq
  have hxc : x ∈ tree.children (tree.parent x) := h.mem_children.mpr ⟨hx, rfl⟩
  have hbelow : node.children = tree.children (some x) := by
    simp [children, siblings, hnode]
  set l := tree.children (tree.parent x) with hl
  have hsplit : l = l.take (l.idxOf x) ++ x :: l.drop (l.idxOf x + 1) := by
    have hlt := idxOf_lt_length_iff.mpr hxc
    conv_lhs => rw [← take_append_drop (l.idxOf x) l, drop_eq_getElem_cons hlt]
    rw [getElem_idxOf hlt]
  have hchild : ∀ y ∈ node.children, y ∈ (tree.setSiblings node.parent
      (l.take (l.idxOf x) ++ node.children ++ l.drop (l.idxOf x + 1))).nodes := by
    intro y hy
    rw [nodes_setSiblings]
    exact (h.mem_children.mp (hbelow ▸ hy)).1
  obtain ⟨tree₁, hset, hnodes₁, hparent₁, hkind₁, hchildren₁⟩ :=
    setParents_ok node.parent node.children hchild
  obtain ⟨hnodes₂, hparent₂, hkind₂, hchildren₂, hnone₂⟩ := filter_surfaces tree₁ x
  refine ⟨_, l.take (l.idxOf x), l.drop (l.idxOf x + 1), ?_, hsplit, ?_, ?_, ?_, ?_, hnone₂⟩
  · rw [remove, hnode]
    dsimp only
    rw [← hparent, siblings_eq_some hmem, ← hl]
    dsimp only
    rw [if_pos hxc, hparent, hset]
  · rw [hnodes₂, hnodes₁, nodes_setSiblings]
  · intro y hy hyx
    rw [hparent₂ y hyx, hparent₁, parent_setSiblings, hbelow, hparent]
    have hiff : y ∈ tree.children (some x) ↔ tree.parent y = some x := by
      rw [h.mem_children]
      exact and_iff_right hy
    simp only [hiff]
  · rw [hkind₂, hkind₁, kind_setSiblings]
  · intro p hp
    rw [hchildren₂ p hp, hchildren₁, ← hparent, children_setSiblings hmem, hbelow]
    by_cases hpx : p = tree.parent x
    · subst hpx
      rw [update_self, if_pos rfl]
    · rw [update_of_ne hpx, if_neg hpx]

lemma remove_error (hx : x ∉ tree.nodes) : tree.remove x = (tree, .error doesNotExist) := by
  rw [remove, not_mem_nodes.mp hx]

lemma flattened_spec (h : tree.Forest) :
    ∃ out, tree.flattened = some out ∧ out.Nodup ∧ (∀ x, x ∈ out ↔ x ∈ tree.nodes) ∧
      (∀ x p, x ∈ tree.nodes → tree.parent x = some p → [p, x].Sublist out) ∧
      out.head? = tree.roots.head? := by
  obtain ⟨outs, houts, hnodup, hmem, hfirst, hhead⟩ := h.flatten_roots tree.card_nodes_le
  refine ⟨outs.flatten, ?_, hnodup, hmem, fun x p hx hp => hfirst ⟨hx, hp⟩, hhead⟩
  have hroots : tree.children none = tree.roots := rfl
  rw [flattened, ← hroots, houts]
  rfl

end CompositionTree

end GpuiFast
