import GpuiFast.SumTreeAppend

namespace GpuiFast

open List Option

namespace SumTree

variable {T S : Type} [Summary S] [Item T S] [LawfulSummary S]

variable (items : List T) {nodes : List (SumTree T S)}

lemma leavesOf_spec :
    (∀ tree ∈ (leavesOf items : List (SumTree T S)), WellFormed 0 tree) ∧
      itemsOf (leavesOf items : List (SumTree T S)) = items := by
  induction items using leavesOf.induct with
  | case1 =>
    rw [leavesOf]
    exact ⟨fun tree h => absurd h not_mem_nil, itemsOf_nil⟩
  | case2 item rest ih =>
    obtain ⟨hwf, hitems⟩ := ih
    have hsum : ((((item :: rest).take (2 * TREE_BASE)).map Item.summary).tail.foldl
        Summary.addSummary (Item.summary item) : S) = total ((item :: rest).take (2 * TREE_BASE)) := by
      rw [total, sum, TREE_BASE, take_succ_cons, map_cons, tail_cons, foldl_cons,
        LawfulSummary.zero_add]
    rw [leavesOf, hsum]
    refine ⟨fun tree htree => ?_, ?_⟩
    · rcases mem_cons.mp htree with rfl | htree
      · refine .leaf ?_ (length_take_le ..)
        rw [TREE_BASE, take_succ_cons]
        exact cons_ne_nil _ _
      · exact hwf tree htree
    · rw [itemsOf_cons, items_leaf, hitems, take_append_drop]

def Filling (h : ℕ) (parent : Option (S × List S × List (SumTree T S)))
    (trees : List (SumTree T S)) : Prop :=
  parent.getD (Summary.zero, [], []) =
      (total (itemsOf trees), trees.map (fun tree => total tree.items), trees) ∧
    (parent = none ↔ trees = []) ∧ trees.length < 2 * TREE_BASE ∧ ∀ tree ∈ trees, WellFormed h tree

omit [LawfulSummary S] in
lemma filling_none (h : ℕ) : Filling h (none : Option (S × List S × List (SumTree T S))) [] := by
  refine ⟨?_, by simp, Nat.zero_lt_succ 11, fun tree ht => absurd ht not_mem_nil⟩
  rw [itemsOf_nil]
  rfl

variable {h : ℕ} {tree : SumTree T S} (f : T → T)

lemma parentsOf_spec {parent : Option (S × List S × List (SumTree T S))}
    {trees : List (SumTree T S)} (hparent : Filling h parent trees)
    (hnodes : ∀ tree ∈ nodes, WellFormed h tree) :
    ∃ parents, parentsOf (h + 1) parent nodes = some parents ∧
      (∀ tree ∈ parents, WellFormed (h + 1) tree) ∧
      itemsOf parents = itemsOf trees ++ itemsOf nodes := by
  induction nodes generalizing parent trees with
  | nil =>
    obtain ⟨hget, hnone, hlt, htrees⟩ := hparent
    cases parent with
    | none =>
      obtain rfl := hnone.mp rfl
      exact ⟨[], rfl, fun tree ht => absurd ht not_mem_nil, by simp⟩
    | some p =>
      obtain rfl : p = _ := hget
      have hwf := WellFormed.internal (fun heq => nomatch hnone.mpr heq) hlt.le htrees
      exact ⟨_, rfl, fun tree ht => mem_singleton.mp ht ▸ hwf, by simp⟩
  | cons child nodes ih =>
    obtain ⟨hget, hnone, hlt, htrees⟩ := hparent
    have hchild := hnodes child (mem_cons_self ..)
    have hrest : ∀ tree ∈ nodes, WellFormed h tree := fun t ht => hnodes t (mem_cons_of_mem _ ht)
    have hall : ∀ tree ∈ trees ++ [child], WellFormed h tree := fun t ht =>
      (mem_append.mp ht).elim (htrees t) (fun ht => mem_singleton.mp ht ▸ hchild)
    have hlen : (trees ++ [child]).length ≤ 2 * TREE_BASE := by
      rw [length_append, length_singleton]
      omega
    have hsum : Summary.addSummary (total (itemsOf trees) : S) child.summary =
        total (itemsOf (trees ++ [child])) := by
      rw [hchild.summary_eq, itemsOf_append, itemsOf_cons, itemsOf_nil, append_nil,
        total_append _ hchild.items_ne_nil]
    have hitems : itemsOf (trees ++ [child]) ++ itemsOf nodes =
        itemsOf trees ++ itemsOf (child :: nodes) := by simp
    have hmap : trees.map (fun tree => (total tree.items : S)) ++ [child.summary] =
        (trees ++ [child]).map (fun tree => total tree.items) := by
      rw [hchild.summary_eq, map_append, map_singleton]
    rw [parentsOf.eq_def]
    simp only [hget, hsum, hmap]
    rw [fit_eq_some (by rwa [length_map]), fit_eq_some hlen]
    simp only [bind_eq_bind, bind_some]
    split
    · -- the parent is full
      obtain ⟨parents, hr, hwf, hparents⟩ := ih (filling_none h) hrest
      refine ⟨_, by rw [hr]; rfl, fun tree ht => ?_, ?_⟩
      · rcases mem_cons.mp ht with rfl | ht
        · exact .internal (concat_ne_nil _ _) hlen hall
        · exact hwf tree ht
      · rw [itemsOf_cons, items_internal, hparents, itemsOf_nil, nil_append, hitems]
    · next hfull =>
      have hfilling : Filling h (some ((total (itemsOf (trees ++ [child])) : S),
          (trees ++ [child]).map (fun tree => total tree.items), trees ++ [child]))
          (trees ++ [child]) := ⟨rfl, by simp, lt_of_le_of_ne hlen hfull, hall⟩
      obtain ⟨parents, hr, hwf, hparents⟩ := ih hfilling hrest
      exact ⟨parents, hr, hwf, hparents.trans hitems⟩

lemma fromNodes_spec (hnodes : ∀ tree ∈ nodes, WellFormed h tree) :
    ∃ top, fromNodes h nodes = some top ∧ top.length ≤ 1 ∧ (∃ h', ∀ tree ∈ top, WellFormed h' tree) ∧
      itemsOf top = itemsOf nodes := by
  -- each level is shorter than the one below it
  induction hlen : nodes.length using Nat.strong_induction_on generalizing h nodes with
  | _ len ih =>
    rw [fromNodes]
    split
    · next hmore =>
      obtain ⟨parents, hr, hwf, hitems⟩ := parentsOf_spec (filling_none h) hnodes
      have hshorter := length_of_parentsOf hr (fun p hp => nomatch hp)
      rw [getD_none, length_nil, TREE_BASE] at hshorter
      rw [itemsOf_nil, nil_append] at hitems
      obtain ⟨top, htop, hone, hwf', hitems'⟩ := ih parents.length (by omega) hwf rfl
      split
      · next hnone =>
        rw [hr] at hnone
        cases hnone
      · next parents' hsome =>
        rw [hr, some.injEq] at hsome
        rw [← hsome]
        exact ⟨top, htop, hone, hwf', hitems'.trans hitems⟩
    · next hone => exact ⟨nodes, rfl, not_lt.mp hone, ⟨h, hnodes⟩, rfl⟩

theorem fromIter_spec :
    ∃ tree : SumTree T S, fromIter items = some tree ∧ tree.Valid ∧ tree.items = items := by
  obtain ⟨hwf, hitems⟩ := leavesOf_spec (S := S) items
  obtain ⟨top, htop, hone, ⟨h, hwf'⟩, hitems'⟩ := fromNodes_spec hwf
  rw [fromIter, htop]
  match top, hone with
  | [], _ => exact ⟨new, rfl, .inl rfl, by rw [new, items_leaf, ← hitems, ← hitems', itemsOf_nil]⟩
  | [tree], _ =>
    refine ⟨tree, rfl, .inr ⟨h, hwf' tree (mem_singleton_self tree)⟩, ?_⟩
    rw [← hitems, ← hitems', itemsOf_cons, itemsOf_nil, append_nil]

theorem push_spec (htree : tree.Valid) (item : T) :
    ∃ tree', tree.push item = some tree' ∧ tree'.Valid ∧ tree'.items = tree.items ++ [item] := by
  have hleaf : WellFormed 0 (leaf (Item.summary item : S) [item] [Item.summary item]) := by
    have hwf := WellFormed.leaf (S := S) (cons_ne_nil item []) (one_fits item)
    rwa [total, map_singleton, sum_singleton] at hwf
  obtain ⟨tree', htree', hvalid, hitems⟩ := append_spec htree (.inr ⟨0, hleaf⟩)
  exact ⟨tree', htree', hvalid, by rw [hitems, items_leaf]⟩

theorem extend_spec (htree : tree.Valid) (items : List T) :
    ∃ tree', tree.extend items = some tree' ∧ tree'.Valid ∧ tree'.items = tree.items ++ items := by
  obtain ⟨other, hother, hvalid, hitems⟩ := fromIter_spec (S := S) items
  obtain ⟨tree', htree', hvalid', hitems'⟩ := append_spec htree hvalid
  rw [extend, hother]
  exact ⟨tree', htree', hvalid', hitems ▸ hitems'⟩

omit [LawfulSummary S] in
lemma WellFormed.leftmostLeaf (hwf : WellFormed h tree) :
    ∃ items : List T, tree.leftmostLeaf =
        some (SumTree.leaf (total items) items (items.map Item.summary)) ∧ items ≠ [] ∧
      ∃ rest, tree.items = items ++ rest := by
  induction hwf with
  | @leaf items hne hle =>
    exact ⟨items, by rw [SumTree.leftmostLeaf], hne, [], by rw [items_leaf, append_nil]⟩
  | @internal h trees hne hle htrees ih =>
    obtain ⟨first, trees, rfl⟩ := exists_cons_of_ne_nil hne
    obtain ⟨items, hleaf, hitems, rest, hrest⟩ := ih first (mem_cons_self ..)
    refine ⟨items, ?_, hitems, rest ++ itemsOf trees, ?_⟩
    · rw [SumTree.leftmostLeaf, hleaf]
    · rw [items_internal, itemsOf_cons, hrest, append_assoc]

omit [LawfulSummary S] in
lemma WellFormed.rightmostLeaf (hwf : WellFormed h tree) :
    ∃ items : List T, tree.rightmostLeaf =
        some (SumTree.leaf (total items) items (items.map Item.summary)) ∧ items ≠ [] ∧
      ∃ rest, tree.items = rest ++ items := by
  induction hwf with
  | @leaf items hne hle =>
    exact ⟨items, by rw [SumTree.rightmostLeaf], hne, [], by rw [items_leaf, nil_append]⟩
  | @internal h trees hne hle htrees ih =>
    obtain ⟨trees, last, rfl⟩ := (eq_nil_or_concat' trees).resolve_left hne
    obtain ⟨items, hleaf, hitems, rest, hrest⟩ :=
      ih last (mem_append_right _ (mem_singleton_self last))
    refine ⟨items, ?_, hitems, itemsOf trees ++ rest, ?_⟩
    · rw [SumTree.rightmostLeaf]
      split
      · next hnone => simp at hnone
      · next last' hlast =>
        obtain rfl : last = last' := by simpa using hlast
        exact hleaf
    · rw [items_internal, itemsOf_append, itemsOf_cons, itemsOf_nil, append_nil, hrest,
        append_assoc]

omit [LawfulSummary S] in
theorem first_spec (htree : tree.Valid) : tree.first = some tree.items.head? := by
  rcases htree with rfl | ⟨h, hwf⟩
  · rw [new, items_leaf]
    rfl
  · obtain ⟨items, hleaf, hitems, rest, hrest⟩ := hwf.leftmostLeaf
    obtain ⟨item, items, rfl⟩ := exists_cons_of_ne_nil hitems
    rw [first, hleaf, hrest]
    rfl

omit [LawfulSummary S] in
theorem last_spec (htree : tree.Valid) : tree.last = some tree.items.getLast? := by
  rcases htree with rfl | ⟨h, hwf⟩
  · rw [new, items_leaf, last, SumTree.rightmostLeaf]
    rfl
  · obtain ⟨items, hleaf, hitems, rest, hrest⟩ := hwf.rightmostLeaf
    rw [last, hleaf, hrest, getLast?_append_of_ne_nil _ hitems]
    rfl

end SumTree

end GpuiFast
