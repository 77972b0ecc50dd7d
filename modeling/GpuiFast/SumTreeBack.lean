import GpuiFast.SumTreeSeek

namespace GpuiFast

open List Option

open SumTree

namespace Cursor

variable {T S D A : Type} [Dimension D S]

def Linked (tree : SumTree T S) : List (StackEntry T S D) → Prop
  | [] => True
  | entry :: stack =>
    match stack with
    | [] => entry.tree = tree
    | parent :: _ =>
      (∃ trees, parent.tree.childTrees = some trees ∧ trees[parent.index]? = some entry.tree) ∧
        Linked tree stack

variable {tree : SumTree T S} {entry : StackEntry T S D} {stack : List (StackEntry T S D)}

omit [Dimension D S] in
lemma Linked.tail (h : Linked tree (entry :: stack)) : Linked tree stack := by
  cases stack with
  | nil => trivial
  | cons parent stack => exact h.2

variable {entry' : StackEntry T S D} {aggregate : SeekAggregate T S A} {target : D → Ordering}
  {bias : Bias} {position : D} {a : A}

omit [Dimension D S] in
lemma Linked.of_tree_eq (h : Linked tree (entry :: stack)) (htree : entry'.tree = entry.tree) :
    Linked tree (entry' :: stack) := by
  cases stack with
  | nil => exact htree.trans h
  | cons parent stack => exact ⟨by rw [htree]; exact h.1, h.2⟩

omit [Dimension D S] in
lemma Linked.push (h : Linked tree (entry :: stack)) {height : ℕ} {summary : S} {sums : List S}
    {trees : List (SumTree T S)} (ht : entry.tree = internal height summary sums trees)
    (hget : trees[entry.index]? = some entry'.tree) : Linked tree (entry' :: entry :: stack) :=
  ⟨⟨trees, by rw [ht]; rfl, hget⟩, h⟩

lemma seekItems_tree {children : List (T × S)} {r : StackEntry T S D × D × A × Bool}
    (h : seekItems aggregate target bias children entry position a = some r) :
    r.1.tree = entry.tree := by
  induction children generalizing entry position a with
  | nil =>
    rw [seekItems, some.injEq] at h
    rw [← h]
  | cons child children ih =>
    obtain ⟨item, summary⟩ := child
    rw [seekItems] at h
    split at h
    · obtain ⟨a', -, h⟩ := bind_eq_some_iff.mp h
      have htree := ih h
      exact htree
    · rw [← some.inj h]

lemma seekLoop_linked {ascending : Bool} (hlinked : Linked tree stack)
    {r : List (StackEntry T S D) × D × A}
    (h : seekLoop aggregate target bias stack position ascending a = some r) : Linked tree r.1 := by
  induction hw : weightAhead stack (!ascending) using Nat.strong_induction_on
    generalizing stack position ascending a with
  | _ weight ih =>
  cases stack with
  | nil =>
    rw [seekLoop, some.injEq] at h
    rw [← h]
    trivial
  | cons entry stack =>
    have hpop := weightAhead_pop entry stack (!ascending)
    rw [hw] at hpop
    rw [seekLoop] at h
    split at h
    · next height summary sums trees ht =>
      dsimp only at h
      split at h
      · cases h
      · split at h
        · cases h
        · next entry' position' a' childTree hr =>
          obtain ⟨htree, hchild⟩ := seekChildren_spec hr
          obtain ⟨i, s, hi, hs⟩ := hchild childTree rfl
          obtain ⟨hget, -⟩ := getElem?_zip_eq_some.mp hs
          rw [getElem?_drop, ← hi] at hget
          have htree' : entry'.tree = entry.tree := htree.trans (StackEntry.resume_tree ..)
          split at h
          · refine ih _ ?_ ((hlinked.of_tree_eq htree').push (htree'.trans ht) hget) h rfl
            rw [← hw]
            refine weightAhead_push ht htree' ?_ hget _
            rw [hi, ← StackEntry.resume_index entry _ position]
            exact Nat.le_add_right ..
          · cases h
        · exact ih _ hpop hlinked.tail h rfl
    · split at h
      · cases h
      · split at h
        · cases h
        · next entry' position' a' found hr =>
          split at h
          · cases h
          · split at h
            · rw [← some.inj h]
              exact hlinked.of_tree_eq (seekItems_tree hr)
            · exact ih _ hpop hlinked.tail h rfl

def entryBehind (descending : Bool) (entry : StackEntry T S D) : List T :=
  match entry.tree with
  | leaf _ items _ => items.take (if descending then entry.index + 1 else entry.index)
  | internal _ _ _ childTrees =>
    itemsOf (childTrees.take (if descending then entry.index + 1 else entry.index))

def stackBehind : Bool → List (StackEntry T S D) → List T
  | _, [] => []
  | descending, entry :: stack => stackBehind false stack ++ entryBehind descending entry

section Behind

omit [Dimension D S]

lemma entryBehind_append_entryAhead (entry : StackEntry T S D) :
    entryBehind false entry ++ entryAhead false entry = entry.tree.items := by
  cases ht : entry.tree with
  | leaf summary items sums =>
    rw [entryBehind, entryAhead_leaf ht, ht, items_leaf]
    exact take_append_drop ..
  | internal height summary sums trees =>
    rw [entryBehind, entryAhead_internal ht, ht, items_internal]
    dsimp only
    rw [← itemsOf_append]
    exact congrArg itemsOf (take_append_drop ..)

lemma entryBehind_last (tree : SumTree T S) (hpos : 0 < tree.childSummaries.length)
    (hlength : ∀ trees, tree.childTrees = some trees → trees.length = tree.childSummaries.length)
    (hlength' : ∀ items, tree.leafItems = some items → items.length = tree.childSummaries.length)
    (position : D) :
    entryBehind true (⟨tree, tree.childSummaries.length - 1, position⟩ : StackEntry T S D) =
      tree.items := by
  have hsub : tree.childSummaries.length - 1 + 1 = tree.childSummaries.length :=
    Nat.sub_add_cancel hpos
  cases tree with
  | leaf summary items sums =>
    rw [entryBehind, items_leaf]
    dsimp only
    rw [if_pos rfl, hsub, ← hlength' items rfl, take_length]
  | internal height summary sums trees =>
    rw [entryBehind, items_internal]
    dsimp only
    rw [if_pos rfl, hsub, ← hlength trees rfl, take_length]

lemma linked_items {tree : SumTree T S} {entry : StackEntry T S D}
    {stack : List (StackEntry T S D)} (h : Linked tree (entry :: stack)) :
    tree.items = stackBehind false stack ++ entry.tree.items ++ stackAhead true stack := by
  induction stack generalizing entry with
  | nil =>
    rw [stackBehind, stackAhead, nil_append, append_nil]
    exact congrArg SumTree.items h.symm
  | cons parent stack ih =>
    obtain ⟨⟨trees, htrees, hget⟩, hlinked⟩ := h
    obtain ⟨hlt, hchild⟩ := List.getElem?_eq_some_iff.mp hget
    rw [ih hlinked]
    cases ht : parent.tree with
    | leaf =>
      rw [ht] at htrees
      cases htrees
    | internal height summary sums trees' =>
      rw [ht] at htrees
      obtain rfl := some.inj htrees
      have hsplit : itemsOf trees' = itemsOf (trees'.take parent.index) ++ entry.tree.items ++
          itemsOf (trees'.drop (parent.index + 1)) := by
        conv_lhs => rw [← take_append_drop parent.index trees', itemsOf_append,
          drop_eq_getElem_cons hlt, hchild, itemsOf_cons, ← append_assoc]
      rw [items_internal, hsplit, stackBehind, stackAhead, entryBehind, ht,
        entryAhead_internal ht, if_pos rfl, if_neg Bool.false_ne_true]
      simp only [append_assoc]

lemma stackBehind_append_stackAhead {tree : SumTree T S} {entry : StackEntry T S D}
    {stack : List (StackEntry T S D)} (h : Linked tree (entry :: stack)) :
    tree.items = stackBehind false (entry :: stack) ++ stackAhead false (entry :: stack) := by
  rw [linked_items h, stackBehind, stackAhead, ← entryBehind_append_entryAhead]
  simp only [append_assoc]

end Behind

section Back

variable {entry : StackEntry T S D} {stack : List (StackEntry T S D)} {position : D}
  {descending : Bool}

lemma searchBackwardLoop_pop (hindex : entry.index = 0) :
    ∃ position', searchBackwardLoop (fun _ => true) (entry :: stack) position false =
      searchBackwardLoop (fun _ => true) stack position' false := by
  rw [searchBackwardLoop.eq_def]
  dsimp only
  rw [dif_pos ⟨rfl, hindex⟩]
  exact ⟨_, rfl⟩

variable {summary : S} {sums : List S}

lemma searchBackwardLoop_leaf {items : List T} (ht : entry.tree = leaf summary items sums)
    (hnot : ¬ (descending = false ∧ entry.index = 0))
    (hindex : stepBack descending entry.index < sums.length) :
    ∃ position', searchBackwardLoop (fun _ => true) (entry :: stack) position descending =
      some (⟨entry.tree, stepBack descending entry.index, position'⟩ :: stack, position') := by
  have hsums : entry.tree.childSummaries = sums := by
    rw [ht]
    rfl
  rw [searchBackwardLoop.eq_def]
  dsimp only
  rw [dif_neg hnot]
  simp only [hsums, if_neg (Nat.not_lt.mpr hindex.le), getElem?_eq_getElem hindex]
  split
  · next heq => cases heq.symm.trans ht
  · exact ⟨_, rfl⟩

variable {height : ℕ}

lemma searchBackwardLoop_internal {trees : List (SumTree T S)} {tree : SumTree T S}
    (ht : entry.tree = internal height summary sums trees)
    (hnot : ¬ (descending = false ∧ entry.index = 0))
    (hindex : stepBack descending entry.index < sums.length)
    (hget : trees[stepBack descending entry.index]? = some tree)
    (hpos : 0 < tree.childSummaries.length) (hcapacity : stack.length + 1 < STACK_CAPACITY) :
    ∃ position', searchBackwardLoop (fun _ => true) (entry :: stack) position descending =
      searchBackwardLoop (fun _ => true)
        (⟨tree, tree.childSummaries.length - 1, Dimension.zero S⟩ ::
          ⟨entry.tree, stepBack descending entry.index, position'⟩ :: stack) position' true := by
  have hsums : entry.tree.childSummaries = sums := by
    rw [ht]
    rfl
  rw [searchBackwardLoop.eq_def]
  dsimp only
  rw [dif_neg hnot]
  simp only [hsums, if_neg (Nat.not_lt.mpr hindex.le), getElem?_eq_getElem hindex]
  split
  · next heq =>
    obtain ⟨rfl, rfl, rfl, rfl⟩ := internal.inj (heq.symm.trans ht)
    simp only [if_true]
    split
    · next hc => cases hc.symm.trans hget
    · next hc =>
      obtain rfl := some.inj (hc.symm.trans hget)
      rw [dif_pos hpos, if_pos hcapacity]
      exact ⟨_, rfl⟩
  · next heq => cases heq.symm.trans ht

variable [Summary S] [Item T S]

/-- Whether a walk back over the items behind a place comes to the last of them, or past the first
one when there is none. -/
def ComesBack (tree : SumTree T S) (behind : List T)
    (result : Option (List (StackEntry T S D) × D)) : Prop :=
  ∃ stack position, result = some (stack, position) ∧ Linked tree stack ∧
    (stack = [] ∧ behind = [] ∨
      Path tree.height 0 stack ∧ ∃ item, behind = stackBehind false stack ++ [item])

lemma wellFormed_lengths {tree : SumTree T S} (h : WellFormed height tree) :
    (∀ trees, tree.childTrees = some trees → trees.length = tree.childSummaries.length) ∧
      ∀ items, tree.leafItems = some items → items.length = tree.childSummaries.length := by
  cases h with
  | leaf =>
    refine ⟨fun trees htrees => (by cases htrees), fun items hitems => ?_⟩
    rw [← some.inj hitems, childSummaries, length_map]
  | internal =>
    refine ⟨fun trees htrees => ?_, fun items hitems => (by cases hitems)⟩
    rw [← some.inj htrees, childSummaries, length_map]

lemma searchBackwardLoop_run {tree : SumTree T S} (hroot : tree.height < STACK_CAPACITY)
    (hpath : Path tree.height height stack) (hlinked : Linked tree stack) :
    ComesBack tree (stackBehind descending stack)
      (searchBackwardLoop (fun _ => true) stack position descending) := by
  induction hw : weightBehind stack descending using Nat.strong_induction_on
    generalizing stack height descending position with
  | _ weight ih =>
  cases stack with
  | nil =>
    rw [searchBackwardLoop]
    exact ⟨[], position, rfl, trivial, .inl ⟨rfl, rfl⟩⟩
  | cons entry stack =>
    obtain ⟨hwf, hindex, hpath'⟩ := hpath
    by_cases hz : descending = false ∧ entry.index = 0
    · -- nothing of the node is behind
      obtain ⟨rfl, hindex0⟩ := hz
      have hpop := weightBehind_pop entry stack false
      rw [hw] at hpop
      have hnil : entryBehind false entry = [] := by
        rw [entryBehind]
        split
        · rw [hindex0]
          rfl
        · rw [hindex0]
          exact itemsOf_nil
      obtain ⟨position', hloop⟩ := @searchBackwardLoop_pop T S D _ entry stack position hindex0
      rw [hloop, stackBehind, hnil, append_nil]
      exact ih _ hpop hpath' hlinked.tail rfl
    · have hstep := stepBack_add_one hz
      have hlt : stepBack descending entry.index < entry.tree.childSummaries.length := by
        refine lt_of_le_of_lt ?_ hindex
        rw [stepBack]
        split <;> omega
      cases htree : entry.tree with
      | leaf summary items sums =>
        have hheight : height = 0 := hwf.height_eq.symm.trans (by rw [htree, SumTree.height])
        have hlength := (wellFormed_lengths hwf).2 items (by rw [htree]; rfl)
        have hlt' : stepBack descending entry.index < items.length := by rwa [hlength]
        rw [htree] at hlt
        obtain ⟨position', hloop⟩ :=
          @searchBackwardLoop_leaf T S D _ entry stack position descending _ _ _ htree hz hlt
        refine ⟨_, position', hloop, hlinked.of_tree_eq rfl,
          .inr ⟨?_, items[stepBack descending entry.index], ?_⟩⟩
        · exact ⟨hheight ▸ hwf, by rw [htree]; exact hlt, hheight ▸ hpath'⟩
        · rw [stackBehind, stackBehind, entryBehind, entryBehind, htree, ← hstep, append_assoc]
          dsimp only
          rw [if_neg Bool.false_ne_true, take_concat_get' _ _ hlt']
      | internal height' summary sums trees =>
        have hwf' := hwf
        rw [htree] at hwf'
        cases hwf' with
        | @internal height _ hne hle htrees =>
        have hlength := (wellFormed_lengths hwf).1 trees (by rw [htree]; rfl)
        have hlt' : stepBack descending entry.index < trees.length := by rwa [hlength]
        rw [htree] at hlt
        obtain ⟨child, hget⟩ : ∃ child, trees[stepBack descending entry.index]? = some child :=
          ⟨_, getElem?_eq_getElem hlt'⟩
        have hchild : WellFormed height child := htrees child (mem_of_getElem? hget)
        have hpos := childSummaries_pos hchild
        have hcapacity := hpath'.length
        obtain ⟨position', hloop⟩ := @searchBackwardLoop_internal T S D _ entry stack position
          descending _ _ _ _ _ htree hz hlt hget hpos (by omega)
        -- the walk goes down into the child before
        have hparent : Linked tree
            (⟨entry.tree, stepBack descending entry.index, position'⟩ :: stack) :=
          hlinked.of_tree_eq rfl
        have hlinked' : Linked tree
            (⟨child, child.childSummaries.length - 1, Dimension.zero S⟩ ::
              ⟨entry.tree, stepBack descending entry.index, position'⟩ :: stack) :=
          hparent.push htree hget
        have hnew : Path tree.height height
            (⟨child, child.childSummaries.length - 1, Dimension.zero S⟩ ::
              ⟨entry.tree, stepBack descending entry.index, position'⟩ :: stack) := by
          refine ⟨hchild, Nat.sub_lt hpos Nat.one_pos, hwf, ?_, hpath'⟩
          rw [htree]
          exact hlt
        have hweight : weightBehind (⟨child, child.childSummaries.length - 1, Dimension.zero S⟩ ::
              ⟨entry.tree, stepBack descending entry.index, position'⟩ :: stack) true <
            entry.tree.weightBefore (stepBack descending entry.index + 1) +
              weightBehind stack false :=
          weightBehind_push htree hget hpos (Dimension.zero S) position'
        rw [hstep, ← weightBehind_cons, hw] at hweight
        have hlengths := wellFormed_lengths hchild
        have hbehind : stackBehind descending (entry :: stack) = stackBehind true
            (⟨child, child.childSummaries.length - 1, Dimension.zero S⟩ ::
              ⟨entry.tree, stepBack descending entry.index, position'⟩ :: stack) := by
          rw [stackBehind, stackBehind, stackBehind, entryBehind_last child hpos hlengths.1 hlengths.2,
            entryBehind, entryBehind, htree, ← hstep, append_assoc]
          dsimp only
          rw [if_neg Bool.false_ne_true, take_add_one, hget, itemsOf_append, toList_some,
            itemsOf_cons, itemsOf_nil, append_nil]
        rw [hloop, hbehind]
        exact ih _ hweight hnew hlinked' rfl

structure Between (tree : SumTree T S) (c : Cursor T S D) (before left : List T) : Prop where
  didSeek : c.didSeek = true
  sameTree : c.tree = tree
  atEnd : c.atEnd = c.stack.isEmpty
  linked : Linked tree c.stack
  stands : Stands tree.height c.stack left
  items : tree.items = before ++ left

variable {tree : SumTree T S} {c : Cursor T S D} {before left : List T}

omit [Dimension D S] in
lemma Between.item (h : Between tree c before left) : c.item = some left.head? :=
  (show At tree (fun _ => c.position) c before left from
    ⟨h.didSeek, rfl, h.stands, h.items⟩).item

lemma Between.prev {item : T} (h : Between tree c before (item :: left))
    (hheight : tree.height < STACK_CAPACITY) :
    ∃ c', c.prev = some c' ∧
      (before = [] ∧ c'.item = some none ∨
        ∃ before' last, before = before' ++ [last] ∧ Between tree c' before' (last :: item :: left)) := by
  obtain ⟨hahead, hnil | hpath⟩ := h.stands
  · rw [hnil] at hahead
    cases hahead
  obtain ⟨entry, stack, hstack⟩ : ∃ entry stack, c.stack = entry :: stack := by
    cases hstack : c.stack with
    | nil =>
      rw [hstack] at hahead
      cases hahead
    | cons entry stack => exact ⟨entry, stack, rfl⟩
  have hatEnd : c.atEnd = false := by rw [h.atEnd, hstack]; rfl
  have hbefore : stackBehind false c.stack = before := by
    have hlinked := h.linked
    rw [hstack] at hlinked hahead ⊢
    have hitems := stackBehind_append_stackAhead hlinked
    rw [h.items, hahead] at hitems
    exact (append_cancel_right hitems).symm
  have hlength := hpath.length
  obtain ⟨stack', position', hloop, hlinked', hcase⟩ :=
    @searchBackwardLoop_run T S D _ c.stack c.position false 0 _ _ tree hheight hpath h.linked
  have hprev : c.prev = some { c with
      stack := stack'
      position := position'
      didSeek := true
      atEnd := false } := by
    rw [Cursor.prev, searchBackward, hatEnd, h.didSeek]
    simp only [Bool.not_true, Bool.or_false, Bool.false_and, Bool.false_eq_true, if_false, hloop,
      bind_eq_bind, bind_some]
    rw [if_neg (by omega)]
    rfl
  rw [hbefore] at hcase
  refine ⟨_, hprev, ?_⟩
  rcases hcase with ⟨rfl, rfl⟩ | ⟨hpath', last, hlast⟩
  · refine .inl ⟨rfl, ?_⟩
    rw [Cursor.item, if_neg (Bool.noConfusion : true ≠ false)]
  · obtain ⟨entry', stack'', rfl⟩ : ∃ entry' stack'', stack' = entry' :: stack'' := by
      cases stack' with
      | nil => cases hpath'
      | cons entry' stack'' => exact ⟨entry', stack'', rfl⟩
    refine .inr ⟨_, last, hlast, rfl, h.sameTree, rfl, hlinked', ⟨?_, .inr hpath'⟩, ?_⟩
    · have hitems := stackBehind_append_stackAhead hlinked'
      rw [h.items, hlast, append_assoc] at hitems
      exact (append_cancel_left hitems).symm
    · rw [h.items, hlast, append_assoc]
      rfl

omit [Summary S] [Item T S] in
lemma seek_linked (c : Cursor T S D) (target : D → Ordering) (bias : Bias)
    {r : Cursor T S D × Bool} (h : c.seek target bias = some r) :
    r.1.tree = c.tree ∧ r.1.atEnd = r.1.stack.isEmpty ∧ Linked c.tree r.1.stack := by
  obtain ⟨⟨c', a, found⟩, hseek, hr⟩ := bind_eq_some_iff.mp h
  obtain rfl := some.inj hr
  rw [seekInternal] at hseek
  split at hseek
  · cases hseek
  · simp only [reset, Bool.false_eq_true, if_false] at hseek
    split at hseek
    · cases hseek
    · obtain ⟨⟨stack, position, a'⟩, hloop, hseek⟩ := bind_eq_some_iff.mp hseek
      obtain ⟨itemSummary, -, hseek⟩ := bind_eq_some_iff.mp hseek
      obtain ⟨rfl, -⟩ := Prod.mk.inj (some.inj hseek)
      have hroot : Linked c.tree [(⟨c.tree, 0, Dimension.zero S⟩ : StackEntry T S D)] := rfl
      exact ⟨rfl, rfl, seekLoop_linked hroot hloop⟩

end Back

end Cursor

end GpuiFast
