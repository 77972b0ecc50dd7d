import GpuiFast.SumTreeBuild
import GpuiFast.SumTreeCursor

namespace GpuiFast

open List

variable {T S D A : Type} [Dimension D S]

open SumTree

namespace Cursor

section Steps

variable {aggregate : SeekAggregate T S A} {target : D → Ordering} {bias : Bias}
  {entry entry' : StackEntry T S D} {stack : List (StackEntry T S D)} {summary : S} {sums : List S}
  {position position' : D} {ascending : Bool} {a a' a'' : A}

lemma seekLoop_internal {height : ℕ} {trees : List (SumTree T S)} {child : Option (SumTree T S)}
    (ht : entry.tree = internal height summary sums trees)
    (hindex : (entry.resume (!ascending) position).index ≤ trees.length)
    (hcapacity : stack.length + 1 < STACK_CAPACITY)
    (h : seekChildren aggregate target bias
      ((trees.drop (entry.resume (!ascending) position).index).zip
        (sums.drop (entry.resume (!ascending) position).index))
      (entry.resume (!ascending) position) position a = some (entry', position', a', child)) :
    seekLoop aggregate target bias (entry :: stack) position ascending a =
      match child with
      | some tree =>
        seekLoop aggregate target bias (⟨tree, 0, position'⟩ :: entry' :: stack) position' false a'
      | none => seekLoop aggregate target bias stack position' true a' := by
  rw [seekLoop]
  split
  · next heq =>
    obtain ⟨rfl, rfl, rfl, rfl⟩ := internal.inj (heq.symm.trans ht)
    simp only [if_neg (Nat.not_lt.mpr hindex), if_pos hcapacity]
    split
    · next hr => cases hr.symm.trans h
    · next hr =>
      obtain ⟨rfl, rfl, rfl, rfl⟩ : _ ∧ _ ∧ _ ∧ _ := by simpa using hr.symm.trans h
      rfl
    · next hr =>
      obtain ⟨rfl, rfl, rfl, rfl⟩ : _ ∧ _ ∧ _ ∧ _ := by simpa using hr.symm.trans h
      rfl
  · next heq => cases heq.symm.trans ht

lemma seekLoop_leaf {items : List T} {found : Bool} (ht : entry.tree = leaf summary items sums)
    (hindex : entry.index ≤ items.length)
    (h : seekItems aggregate target bias ((items.drop entry.index).zip (sums.drop entry.index))
      entry position a = some (entry', position', a', found))
    (hend : aggregate.endLeaf a' = some a'') :
    seekLoop aggregate target bias (entry :: stack) position ascending a =
      if found then some (entry' :: stack, position', a'')
      else seekLoop aggregate target bias stack position' true a'' := by
  rw [seekLoop]
  split
  · next heq => cases heq.symm.trans ht
  · next heq =>
    obtain ⟨rfl, rfl, rfl⟩ := leaf.inj (heq.symm.trans ht)
    rw [if_neg (Nat.not_lt.mpr hindex), h]
    simp only [hend]

end Steps

/-- The items of a node from the child at hand on, that child included or not. -/
def entryAhead (ascending : Bool) (entry : StackEntry T S D) : List T :=
  match entry.tree with
  | leaf _ items _ => items.drop entry.index
  | internal _ _ _ childTrees =>
    itemsOf (childTrees.drop (if ascending then entry.index + 1 else entry.index))

/-- The items ahead of a cursor; of the nodes below the top the child at hand is behind the top. -/
def stackAhead : Bool → List (StackEntry T S D) → List T
  | _, [] => []
  | ascending, entry :: stack => entryAhead ascending entry ++ stackAhead true stack

section Ahead

omit [Dimension D S]

lemma entryAhead_leaf {entry : StackEntry T S D} {summary : S} {items : List T} {sums : List S}
    (ht : entry.tree = leaf summary items sums) (ascending : Bool) :
    entryAhead ascending entry = items.drop entry.index := by
  rw [entryAhead, ht]

lemma entryAhead_internal {entry : StackEntry T S D} {height : ℕ} {summary : S} {sums : List S}
    {trees : List (SumTree T S)} (ht : entry.tree = internal height summary sums trees)
    (ascending : Bool) :
    entryAhead ascending entry =
      itemsOf (trees.drop (if ascending then entry.index + 1 else entry.index)) := by
  rw [entryAhead, ht]

lemma entryAhead_fresh (tree : SumTree T S) (position : D) :
    entryAhead false (⟨tree, 0, position⟩ : StackEntry T S D) = tree.items := by
  cases tree with
  | leaf => exact (entryAhead_leaf rfl false).trans (items_leaf ..).symm
  | internal => exact (entryAhead_internal rfl false).trans (items_internal ..).symm

end Ahead

variable [Summary S] [Item T S]

def Path (root : ℕ) : ℕ → List (StackEntry T S D) → Prop
  | height, [] => height = root + 1
  | height, entry :: stack =>
    WellFormed height entry.tree ∧ entry.index < entry.tree.childSummaries.length ∧
      Path root (height + 1) stack

omit [Dimension D S] in
lemma Path.length {root height : ℕ} {stack : List (StackEntry T S D)} (h : Path root height stack) :
    stack.length + height = root + 1 := by
  induction stack generalizing height with
  | nil => rwa [length_nil, Nat.zero_add]
  | cons entry stack ih =>
    have := ih h.2.2
    rw [length_cons]
    omega

structure Measures (items : List T) (endOf : List T → D) : Prop where
  zero : endOf [] = Dimension.zero S
  add : ∀ before segment after, items = before ++ segment ++ after → segment ≠ [] →
    Dimension.addSummary (endOf before) (total segment : S) = endOf (before ++ segment)

lemma Measures.add_item [LawfulSummary S] {items : List T}
    {endOf : List T → D} (h : Measures items endOf) {before after : List T} {item : T}
    (hitems : items = before ++ item :: after) :
    Dimension.addSummary (endOf before) (Item.summary item : S) = endOf (before ++ [item]) := by
  have htotal : (total [item] : S) = Item.summary item := sum_singleton _
  rw [← htotal]
  exact h.add before [item] after (by rw [hitems, append_assoc, singleton_append])
    (cons_ne_nil _ _)

/-- What an aggregate holds: the items of what it was given, and those of the leaf it is in. -/
structure Collects (aggregate : SeekAggregate T S A) (Holds : A → List T → List T → Prop) :
    Prop where
  endLeaf : ∀ {a : A} {items leafItems : List T}, Holds a items leafItems →
    ∃ a', aggregate.endLeaf a = some a' ∧ Holds a' (items ++ leafItems) []
  pushItem : ∀ {a : A} {items leafItems : List T} (item : T), Holds a items leafItems →
    leafItems.length < 2 * TREE_BASE →
    ∃ a', aggregate.pushItem a item (Item.summary item) = some a' ∧
      Holds a' items (leafItems ++ [item])
  pushTree : ∀ {a : A} {items : List T} {height : ℕ} {tree : SumTree T S}, Holds a items [] →
    WellFormed height tree →
    ∃ a', aggregate.pushTree a tree (total tree.items) = some a' ∧ Holds a' (items ++ tree.items) []

section Seek

variable {aggregate : SeekAggregate T S A} {Holds : A → List T → List T → Prop}
  (target : D → Ordering) (bias : Bias) {items : List T} {endOf : List T → D}

variable {height : ℕ} {before : List T} {a : A} {held : List T}

lemma seekChildren_run (hcollects : Collects aggregate Holds) (hmeasures : Measures items endOf)
    {trees : List (SumTree T S)} (htrees : ∀ tree ∈ trees, WellFormed height tree) {after : List T}
    (hitems : items = before ++ itemsOf trees ++ after) (ha : Holds a held [])
    (entry : StackEntry T S D) :
    ∃ passed left entry' a', trees = passed ++ left ∧
      seekChildren aggregate target bias (trees.zip (trees.map (fun tree => total tree.items)))
        entry (endOf before) a = some (entry', endOf (before ++ itemsOf passed), a', left.head?) ∧
      entry'.tree = entry.tree ∧ entry'.index = entry.index + passed.length ∧
      Holds a' (held ++ itemsOf passed) [] ∧
      (passed ≠ [] → bias.passes (target (endOf (before ++ itemsOf passed))) = true) := by
  induction trees generalizing before a held entry with
  | nil =>
    refine ⟨[], [], entry, a, rfl, ?_, rfl, rfl, ?_, fun h => absurd rfl h⟩
    · rw [itemsOf_nil, append_nil]
      rfl
    · rwa [itemsOf_nil, append_nil]
  | cons tree trees ih =>
    have htree := htrees tree mem_cons_self
    rw [itemsOf_cons] at hitems
    have hend : Dimension.addSummary (endOf before) (total tree.items : S) =
        endOf (before ++ tree.items) :=
      hmeasures.add before tree.items (itemsOf trees ++ after) (by rw [hitems]; simp)
        htree.items_ne_nil
    rw [map_cons, zip_cons_cons, seekChildren, hend]
    by_cases hpass : bias.passes (target (endOf (before ++ tree.items))) = true
    · obtain ⟨a', hpush, ha'⟩ := hcollects.pushTree ha htree
      obtain ⟨passed, left, entry', a'', hsplit, hseek, htree', hindex, hholds, hpasses⟩ :=
        ih (fun t ht => htrees t (mem_cons_of_mem tree ht))
          (by rw [hitems]; simp : items = (before ++ tree.items) ++ itemsOf trees ++ after) ha'
          { entry with index := entry.index + 1, position := endOf (before ++ tree.items) }
      rw [append_assoc, ← itemsOf_cons] at hseek hpasses
      refine ⟨tree :: passed, left, entry', a'', by rw [hsplit, cons_append], ?_, htree', ?_,
        ?_, ?_⟩
      · rw [if_pos hpass, hpush]
        exact hseek
      · rw [hindex, length_cons]
        exact Nat.add_right_comm ..
      · rwa [append_assoc, ← itemsOf_cons] at hholds
      · intro _
        by_cases hne : passed = []
        · rwa [hne, itemsOf_cons, itemsOf_nil, append_nil]
        · exact hpasses hne
    · refine ⟨[], tree :: trees, entry, a, rfl, ?_, rfl, rfl, ?_, fun h => absurd rfl h⟩
      · rw [if_neg hpass, itemsOf_nil, append_nil]
        rfl
      · rwa [itemsOf_nil, append_nil]

variable [LawfulSummary S]

lemma seekItems_run (hcollects : Collects aggregate Holds) (hmeasures : Measures items endOf)
    {leafItems after : List T} (hitems : items = before ++ leafItems ++ after) {heldLeaf : List T}
    (ha : Holds a held heldLeaf) (hfits : heldLeaf.length + leafItems.length ≤ 2 * TREE_BASE)
    (entry : StackEntry T S D) :
    ∃ passed left entry' a', leafItems = passed ++ left ∧
      seekItems aggregate target bias (leafItems.zip (leafItems.map Item.summary)) entry
        (endOf before) a = some (entry', endOf (before ++ passed), a', !left.isEmpty) ∧
      entry'.tree = entry.tree ∧ entry'.index = entry.index + passed.length ∧
      Holds a' held (heldLeaf ++ passed) ∧
      (passed ≠ [] → bias.passes (target (endOf (before ++ passed))) = true) ∧
      ∀ item ∈ left.head?, bias.passes (target (endOf (before ++ passed ++ [item]))) = false := by
  induction leafItems generalizing before a heldLeaf entry with
  | nil =>
    refine ⟨[], [], entry, a, rfl, ?_, rfl, rfl, ?_, fun h => absurd rfl h, ?_⟩
    · rw [append_nil]
      rfl
    · rwa [append_nil]
    · exact fun item hitem => by cases hitem
  | cons item leafItems ih =>
    rw [append_assoc, cons_append] at hitems
    have hend := hmeasures.add_item hitems
    rw [length_cons] at hfits
    rw [map_cons, zip_cons_cons, seekItems, hend]
    by_cases hpass : bias.passes (target (endOf (before ++ [item]))) = true
    · obtain ⟨a', hpush, ha'⟩ := hcollects.pushItem item ha (by omega)
      obtain ⟨passed, left, entry', a'', hsplit, hseek, htree', hindex, hholds, hpasses, hstops⟩ :=
        ih (by rw [hitems]; simp : items = (before ++ [item]) ++ leafItems ++ after) ha'
          (by rw [length_append, length_singleton]; omega)
          { entry with index := entry.index + 1 }
      rw [append_assoc, singleton_append] at hseek hpasses hholds hstops
      refine ⟨item :: passed, left, entry', a'', by rw [hsplit, cons_append], ?_, htree', ?_,
        hholds, ?_, hstops⟩
      · rw [if_pos hpass, hpush]
        exact hseek
      · rw [hindex, length_cons]
        exact Nat.add_right_comm ..
      · intro _
        by_cases hne : passed = []
        · rwa [hne]
        · exact hpasses hne
    · refine ⟨[], item :: leafItems, entry, a, rfl, ?_, rfl, rfl, ?_, fun h => absurd rfl h, ?_⟩
      · rw [if_neg hpass, append_nil]
        rfl
      · rwa [append_nil]
      · intro head hhead
        obtain rfl := Option.some.inj hhead
        rw [append_nil]
        exact Bool.eq_false_of_not_eq_true hpass

def Stands (root : ℕ) (stack : List (StackEntry T S D)) (left : List T) : Prop :=
  stackAhead false stack = left ∧ (stack = [] ∨ Path root 0 stack)

omit [LawfulSummary S] in
lemma childSummaries_pos {tree : SumTree T S} (h : WellFormed height tree) :
    0 < tree.childSummaries.length := by
  cases h with
  | leaf hne => simpa [childSummaries, length_pos_iff] using hne
  | internal hne => simpa [childSummaries, length_pos_iff] using hne

/-- Whether a seek over the items ahead of a place leaves behind some of them, which the aggregate
then holds too, and stands before one that the target does not leave behind, or at the end. -/
def Reaches (Holds : A → List T → List T → Prop) (target : D → Ordering) (bias : Bias)
    (endOf : List T → D) (root : ℕ) (before held ahead : List T)
    (result : Option (List (StackEntry T S D) × D × A)) : Prop :=
  ∃ passed left stack a, ahead = passed ++ left ∧
    result = some (stack, endOf (before ++ passed), a) ∧ Stands root stack left ∧
    Holds a (held ++ passed) [] ∧
    (passed ≠ [] → bias.passes (target (endOf (before ++ passed))) = true) ∧
    ∀ item ∈ left.head?, bias.passes (target (endOf (before ++ passed ++ [item]))) = false

variable {target bias}

omit [Dimension D S] [LawfulSummary S] in
lemma Reaches.after {root : ℕ} {passed ahead : List T}
    {result : Option (List (StackEntry T S D) × D × A)}
    (h : Reaches Holds target bias endOf root (before ++ passed) (held ++ passed) ahead result)
    (hpasses : passed ≠ [] → bias.passes (target (endOf (before ++ passed))) = true) :
    Reaches Holds target bias endOf root before held (passed ++ ahead) result := by
  obtain ⟨passed', left, stack, a, rfl, hresult, hstands, hholds, hpasses', hstops⟩ := h
  rw [append_assoc] at hresult hholds hpasses' hstops
  refine ⟨passed ++ passed', left, stack, a, (append_assoc ..).symm, hresult, hstands, hholds,
    ?_, hstops⟩
  intro hne
  by_cases hnil : passed' = []
  · rw [hnil, append_nil] at hne ⊢
    exact hpasses hne
  · exact hpasses' hnil

/-- From any place that has the items of `stack` ahead, the seek reaches a stopping place. -/
def Runs (aggregate : SeekAggregate T S A) (Holds : A → List T → List T → Prop)
    (target : D → Ordering) (bias : Bias) (items : List T) (endOf : List T → D) (root : ℕ)
    (stack : List (StackEntry T S D)) (ascending : Bool) : Prop :=
  ∀ before held a, items = before ++ stackAhead ascending stack → Holds a held [] →
    Reaches Holds target bias endOf root before held (stackAhead ascending stack)
      (seekLoop aggregate target bias stack (endOf before) ascending a)

section Runs

variable {root : ℕ} {stack : List (StackEntry T S D)} {entry : StackEntry T S D} {ascending : Bool}
  {summary : S} {sums : List S}

omit [LawfulSummary S] in
lemma runs_nil : Runs aggregate Holds target bias items endOf root [] ascending := by
  intro before held a hitems ha
  refine ⟨[], [], [], a, rfl, ?_, ⟨rfl, .inl rfl⟩, ?_, fun h => absurd rfl h, ?_⟩
  · rw [seekLoop, append_nil]
  · rwa [append_nil]
  · exact fun item hitem => by cases hitem

lemma runs_leaf (hcollects : Collects aggregate Holds) (hmeasures : Measures items endOf)
    {leafItems : List T} (htree : entry.tree = leaf summary leafItems sums)
    (hpath : Path root 0 (entry :: stack))
    (hrest : Runs aggregate Holds target bias items endOf root stack true) :
    Runs aggregate Holds target bias items endOf root (entry :: stack) ascending := by
  intro before held a hitems ha
  obtain ⟨hwf, hindex, hpath'⟩ := hpath
  rw [htree] at hwf hindex
  cases hwf with
  | leaf hne hle =>
  rw [childSummaries, length_map] at hindex
  rw [stackAhead, entryAhead_leaf htree] at hitems ⊢
  obtain ⟨passed, left, entry', a', hsplit, hseek, htree', hindex', hholds, hpasses, hstops⟩ :=
    seekItems_run target bias hcollects hmeasures (hitems.trans (append_assoc ..).symm) ha
      (by rw [length_nil, length_drop]; omega) entry
  rw [map_drop] at hseek
  obtain ⟨a'', hend, ha''⟩ := hcollects.endLeaf hholds
  have hlength := congrArg List.length hsplit
  rw [length_drop, length_append] at hlength
  rw [seekLoop_leaf htree hindex.le hseek hend]
  cases left with
  | cons item left =>
    -- the cursor is at an item of this leaf
    rw [length_cons] at hlength
    refine ⟨passed, item :: left ++ stackAhead true stack, entry' :: stack, a'', ?_, rfl,
      ⟨?_, .inr ⟨?_, ?_, hpath'⟩⟩, ha'', hpasses, hstops⟩
    · rw [hsplit, append_assoc]
    · rw [stackAhead, entryAhead_leaf (htree'.trans htree), hindex', ← drop_drop, hsplit,
        drop_left]
    · rw [htree', htree]
      exact .leaf hne hle
    · rw [htree', htree, childSummaries, length_map]
      omega
  | nil =>
    rw [append_nil] at hsplit
    rw [hsplit, ← append_assoc] at hitems
    rw [hsplit]
    exact (hrest _ _ _ hitems ha'').after hpasses

omit [LawfulSummary S] in
lemma runs_internal (hcollects : Collects aggregate Holds) (hmeasures : Measures items endOf)
    (hroot : root < STACK_CAPACITY) {trees : List (SumTree T S)}
    (htree : entry.tree = internal (height + 1) summary sums trees)
    (hpath : Path root (height + 1) (entry :: stack))
    (hrest : Runs aggregate Holds target bias items endOf root stack true)
    (hchild : ∀ (entry' : StackEntry T S D) tree position, entry'.tree = entry.tree →
      (if !ascending then entry.index else entry.index + 1) ≤ entry'.index →
      trees[entry'.index]? = some tree →
      Path root height (⟨tree, 0, position⟩ :: entry' :: stack) →
      Runs aggregate Holds target bias items endOf root (⟨tree, 0, position⟩ :: entry' :: stack)
        false) :
    Runs aggregate Holds target bias items endOf root (entry :: stack) ascending := by
  intro before held a hitems ha
  obtain ⟨hwf, hindex, hpath'⟩ := hpath
  rw [htree] at hwf hindex
  cases hwf with
  | internal hne hle htrees =>
  rw [childSummaries, length_map] at hindex
  rw [stackAhead, entryAhead_internal htree] at hitems ⊢
  have hresume : (entry.resume (!ascending) (endOf before)).index =
      if ascending then entry.index + 1 else entry.index := by
    rw [StackEntry.resume_index]
    cases ascending <;> rfl
  obtain ⟨passed, left, entry', a', hsplit, hseek, htree', hindex', hholds, hpasses⟩ :=
    seekChildren_run target bias hcollects hmeasures
      (fun tree htree => htrees tree (mem_of_mem_drop htree))
      (hitems.trans (append_assoc ..).symm) ha (entry.resume (!ascending) (endOf before))
  rw [map_drop, ← hresume] at hseek
  have hlength := congrArg List.length hsplit
  rw [length_drop, length_append] at hlength
  have hcapacity := hpath'.length
  have hpasses' : itemsOf passed ≠ [] →
      bias.passes (target (endOf (before ++ itemsOf passed))) = true := by
    intro hne
    apply hpasses
    rintro rfl
    exact hne itemsOf_nil
  rw [seekLoop_internal htree (by rw [hresume]; split <;> omega) (by omega) hseek]
  cases left with
  | nil =>
    rw [append_nil] at hsplit
    rw [hsplit, ← append_assoc] at hitems
    rw [hsplit]
    exact (hrest _ _ _ hitems hholds).after hpasses'
  | cons tree left =>
    -- the cursor goes down into a child
    rw [length_cons] at hlength
    have hdrop : trees.drop entry'.index = tree :: left := by
      rw [hindex', hresume, ← drop_drop, hsplit, drop_left]
    have hget : trees[entry'.index]? = some tree := by
      rw [← head?_drop, hdrop, head?_cons]
    have hsame : entry'.tree = entry.tree := htree'.trans (StackEntry.resume_tree ..)
    have htree'' := hsame.trans htree
    have hwf' : WellFormed height tree := htrees tree (mem_of_getElem? hget)
    have hahead :
        stackAhead false (⟨tree, 0, endOf (before ++ itemsOf passed)⟩ :: entry' :: stack) =
        itemsOf (tree :: left) ++ stackAhead true stack := by
      rw [stackAhead, entryAhead_fresh, stackAhead, entryAhead_internal htree'', if_pos rfl,
        ← drop_drop, hdrop, drop_one, tail_cons, itemsOf_cons, append_assoc]
    rw [hsplit, itemsOf_append, append_assoc] at hitems ⊢
    rw [← hahead] at hitems ⊢
    rw [← append_assoc] at hitems
    have hnew : Path root height
        (⟨tree, 0, endOf (before ++ itemsOf passed)⟩ :: entry' :: stack) := by
      refine ⟨hwf', childSummaries_pos hwf', ?_, ?_, hpath'⟩
      · rw [htree'']
        exact .internal hne hle htrees
      · rw [htree'', childSummaries, length_map]
        exact (List.getElem?_eq_some_iff.mp hget).1
    refine (hchild entry' tree _ hsame ?_ hget hnew _ _ _ hitems hholds).after hpasses'
    rw [hindex', StackEntry.resume_index]
    exact Nat.le_add_right ..

/-- A seek stops where a scan of the items ahead does. -/
lemma seekLoop_run (hcollects : Collects aggregate Holds) (hmeasures : Measures items endOf)
    (hroot : root < STACK_CAPACITY) (hpath : Path root height stack)
    (hitems : items = before ++ stackAhead ascending stack) (ha : Holds a held []) :
    Reaches Holds target bias endOf root before held (stackAhead ascending stack)
      (seekLoop aggregate target bias stack (endOf before) ascending a) := by
  suffices hruns : Runs aggregate Holds target bias items endOf root stack ascending from
    hruns _ _ _ hitems ha
  clear hitems ha
  induction hw : weightAhead stack (!ascending) using Nat.strong_induction_on
    generalizing stack height ascending with
  | _ weight ih =>
  subst hw
  cases stack with
  | nil => exact runs_nil
  | cons entry stack =>
    have hrest : Runs aggregate Holds target bias items endOf root stack true :=
      ih _ (weightAhead_pop entry stack (!ascending)) hpath.2.2 rfl
    cases htree : entry.tree with
    | leaf summary leafItems sums =>
      have hwf := hpath.1
      rw [htree] at hwf
      cases hwf
      exact runs_leaf hcollects hmeasures htree hpath hrest
    | internal height' summary sums trees =>
      have hwf := hpath.1
      rw [htree] at hwf
      cases hwf
      exact runs_internal hcollects hmeasures hroot htree hpath hrest
        fun entry' tree position hsame hle hget hnew =>
          ih _ (weightAhead_push htree hsame hle hget position) hnew rfl

end Runs

end Seek

section Next

variable {entry : StackEntry T S D} {stack : List (StackEntry T S D)} {summary : S} {sums : List S}
  {position : D} {descend : Bool}

omit [Summary S] [Item T S] in
lemma skipRejected_true (summaries : List S) (entry : StackEntry T S D) (position : D) :
    skipRejected (fun _ => true) summaries entry position = (entry, position) := by
  cases summaries with
  | nil => rfl
  | cons => rfl

omit [Summary S] [Item T S] in
lemma searchForwardLoop_internal {height : ℕ} {trees : List (SumTree T S)}
    (ht : entry.tree = internal height summary sums trees)
    (hcapacity : stack.length + 1 < STACK_CAPACITY) :
    searchForwardLoop (fun _ => true) (entry :: stack) position descend =
      match trees[(entry.resume descend position).index]? with
      | some tree => searchForwardLoop (fun _ => true)
          (⟨tree, 0, position⟩ :: entry.resume descend position :: stack) position true
      | none => searchForwardLoop (fun _ => true) stack position false := by
  rw [searchForwardLoop]
  split
  · next heq =>
    obtain ⟨rfl, rfl, rfl, rfl⟩ := internal.inj (heq.symm.trans ht)
    simp only [skipRejected_true, if_pos hcapacity]
    split
    · next hc =>
      rw [skipRejected_true] at hc
      rw [hc]
    · next hc =>
      rw [skipRejected_true] at hc
      rw [hc]
  · next heq => cases heq.symm.trans ht

omit [Summary S] [Item T S] in
lemma searchForwardLoop_leaf {items : List T} (ht : entry.tree = leaf summary items sums)
    {entry' : StackEntry T S D} {position' : D}
    (hadvanced : (if descend then some (entry, position)
      else sums[entry.index]?.map (fun itemSummary =>
        ({ entry with
          index := entry.index + 1
          position := Dimension.addSummary entry.position itemSummary },
          Dimension.addSummary position itemSummary))) = some (entry', position')) :
    searchForwardLoop (fun _ => true) (entry :: stack) position descend =
      if entry'.index < sums.length then some (entry' :: stack, position', true)
      else searchForwardLoop (fun _ => true) stack position' false := by
  rw [searchForwardLoop]
  split
  · next heq => cases heq.symm.trans ht
  · next heq =>
    obtain ⟨rfl, rfl, rfl⟩ := leaf.inj (heq.symm.trans ht)
    simp only [hadvanced, skipRejected_true]

lemma searchForwardLoop_enter {root : ℕ} (hroot : root < STACK_CAPACITY)
    {stack : List (StackEntry T S D)} {height : ℕ} (hpath : Path root height stack) {descend : Bool}
    (hdescend : descend = false → height ≠ 0) (position : D) :
    ∃ stack', searchForwardLoop (fun _ => true) stack position descend =
        some (stack', position, !stack'.isEmpty) ∧
      Stands root stack' (stackAhead (!descend) stack) := by
  induction hw : weightAhead stack descend using Nat.strong_induction_on
    generalizing stack height descend with
  | _ weight ih =>
  cases stack with
  | nil =>
    refine ⟨[], ?_, rfl, .inl rfl⟩
    rw [searchForwardLoop]
    rfl
  | cons entry stack =>
    obtain ⟨hwf, hindex, hpath'⟩ := hpath
    have hpop := weightAhead_pop entry stack descend
    rw [hw] at hpop
    cases htree : entry.tree with
    | leaf summary leafItems sums =>
      have hheight : height = 0 := hwf.height_eq.symm.trans (by rw [htree, SumTree.height])
      cases descend with
      | false => exact absurd hheight (hdescend rfl)
      | true =>
        have hlt : entry.index < sums.length := by
          rw [htree] at hindex
          exact hindex
        refine ⟨entry :: stack, ?_, rfl, .inr (hheight ▸ ⟨hwf, hindex, hpath'⟩)⟩
        rw [searchForwardLoop_leaf htree (if_pos rfl), if_pos hlt]
        rfl
    | internal height' summary sums trees =>
      rw [htree] at hwf hindex
      cases hwf with
      | @internal height _ hne hle htrees =>
      rw [childSummaries, length_map] at hindex
      have hcapacity := hpath'.length
      have hresume : (if (!descend) = true then entry.index + 1 else entry.index) =
          (entry.resume descend position).index := by
        rw [StackEntry.resume_index]
        cases descend <;> rfl
      rw [searchForwardLoop_internal htree (by omega), stackAhead, entryAhead_internal htree,
        hresume]
      cases hget : trees[(entry.resume descend position).index]? with
      | none =>
        rw [drop_eq_nil_of_le (getElem?_eq_none_iff.mp hget), itemsOf_nil, nil_append]
        exact ih _ hpop hpath' (fun _ => Nat.succ_ne_zero _) rfl
      | some tree =>
        have htree' : (entry.resume descend position).tree = internal (height + 1)
            (total (itemsOf trees)) (trees.map (fun tree => total tree.items)) trees := by
          rw [StackEntry.resume_tree, htree]
        have hwf' : WellFormed height tree := htrees tree (mem_of_getElem? hget)
        obtain ⟨hlt, htreeEq⟩ := List.getElem?_eq_some_iff.mp hget
        have hahead :
            stackAhead (!true) (⟨tree, 0, position⟩ :: entry.resume descend position :: stack) =
              itemsOf (trees.drop (entry.resume descend position).index) ++
                stackAhead true stack := by
          rw [drop_eq_getElem_cons hlt, htreeEq, itemsOf_cons, stackAhead, Bool.not_true,
            entryAhead_fresh, stackAhead, entryAhead_internal htree', if_pos rfl, append_assoc]
        have hnew : Path root height
            (⟨tree, 0, position⟩ :: entry.resume descend position :: stack) := by
          refine ⟨hwf', childSummaries_pos hwf', ?_, ?_, hpath'⟩
          · rw [htree']
            exact .internal hne hle htrees
          · rw [htree', childSummaries, length_map]
            exact hlt
        have hweight : weightAhead (⟨tree, 0, position⟩ :: entry.resume descend position :: stack)
            true < weight := by
          rw [← hw]
          refine weightAhead_push htree (StackEntry.resume_tree ..) ?_ hget _
          rw [StackEntry.resume_index]
        rw [← hahead]
        exact ih _ hweight hnew (fun h => by cases h) rfl

lemma searchForwardLoop_next [LawfulSummary S] {root : ℕ} (hroot : root < STACK_CAPACITY)
    {items : List T} {endOf : List T → D} (hmeasures : Measures items endOf)
    {stack : List (StackEntry T S D)} {before left : List T} {item : T}
    (hstands : Stands root stack (item :: left)) (hitems : items = before ++ item :: left) :
    ∃ stack', searchForwardLoop (fun _ => true) stack (endOf before) false =
        some (stack', endOf (before ++ [item]), !stack'.isEmpty) ∧ Stands root stack' left := by
  obtain ⟨hahead, rfl | hpath⟩ := hstands
  · cases hahead
  cases stack with
  | nil => cases hahead
  | cons entry stack =>
    obtain ⟨hwf, hindex, hpath'⟩ := hpath
    cases htree : entry.tree with
    | internal =>
      rw [htree] at hwf
      cases hwf
    | leaf summary leafItems sums =>
      rw [htree] at hwf hindex
      cases hwf with
      | leaf hne hle =>
      rw [childSummaries] at hindex
      have hlt : entry.index < leafItems.length := by rwa [length_map] at hindex
      rw [stackAhead, entryAhead_leaf htree, drop_eq_getElem_cons hlt, cons_append,
        List.cons.injEq] at hahead
      obtain ⟨hitem, rfl⟩ := hahead
      have hsummary : (leafItems.map (Item.summary : T → S))[entry.index]? =
          some (Item.summary item) := by
        rw [getElem?_map, getElem?_eq_getElem hlt, hitem]
        rfl
      have hadvanced : (leafItems.map (Item.summary : T → S))[entry.index]?.map (fun itemSummary =>
          ({ entry with
            index := entry.index + 1
            position := Dimension.addSummary entry.position itemSummary },
            Dimension.addSummary (endOf before) itemSummary)) =
          some ({ entry with
            index := entry.index + 1
            position := Dimension.addSummary entry.position (Item.summary item : S) },
            endOf (before ++ [item])) := by
        rw [hsummary, Option.map_some, hmeasures.add_item hitems]
      rw [searchForwardLoop_leaf htree ((if_neg Bool.false_ne_true).trans hadvanced)]
      by_cases hnext : entry.index + 1 < leafItems.length
      · rw [if_pos (by rwa [length_map])]
        refine ⟨_, rfl, ?_, .inr ⟨?_, ?_, hpath'⟩⟩
        · rw [stackAhead, entryAhead, htree]
        · rw [htree]
          exact .leaf hne hle
        · rw [htree, childSummaries, length_map]
          exact hnext
      · rw [if_neg (by rwa [length_map]), drop_eq_nil_of_le (Nat.not_lt.mp hnext),
          nil_append]
        exact searchForwardLoop_enter hroot hpath' (fun _ => Nat.one_ne_zero) _

end Next

omit [Dimension D S] in
lemma Stands.cases {root : ℕ} {stack : List (StackEntry T S D)} {left : List T}
    (h : Stands root stack left) :
    (stack = [] ∧ left = []) ∨ ∃ entry stack' leafItems, stack = entry :: stack' ∧
      entry.tree = leaf (total leafItems) leafItems (leafItems.map Item.summary) ∧
      entry.index < leafItems.length ∧
      left = leafItems.drop entry.index ++ stackAhead true stack' := by
  obtain ⟨hahead, rfl | hpath⟩ := h
  · exact .inl ⟨rfl, hahead.symm⟩
  · cases stack with
    | nil => exact .inl ⟨rfl, hahead.symm⟩
    | cons entry stack =>
      obtain ⟨hwf, hindex, -⟩ := hpath
      cases htree : entry.tree with
      | internal =>
        rw [htree] at hwf
        cases hwf
      | leaf summary leafItems sums =>
        rw [htree] at hwf hindex
        cases hwf with
        | leaf hne hle =>
        rw [childSummaries, length_map] at hindex
        rw [stackAhead, entryAhead_leaf htree] at hahead
        exact .inr ⟨entry, stack, leafItems, rfl, htree, hindex, hahead.symm⟩

structure At (tree : SumTree T S) (endOf : List T → D) (c : Cursor T S D) (before left : List T) :
    Prop where
  didSeek : c.didSeek = true
  position : c.position = endOf before
  stands : Stands tree.height c.stack left
  items : tree.items = before ++ left

namespace At

variable {tree : SumTree T S} {endOf : List T → D} {c : Cursor T S D} {before left : List T}

omit [Dimension D S] in
lemma item (h : At tree endOf c before left) : c.item = some left.head? := by
  rw [Cursor.item, h.didSeek, if_neg (Bool.noConfusion : true ≠ false)]
  rcases h.stands.cases with ⟨hstack, rfl⟩ | ⟨entry, stack, leafItems, hstack, ht, hlt, rfl⟩
  · rw [hstack]
    rfl
  · rw [hstack]
    simp only [ht]
    rw [if_neg hlt.ne, getElem?_eq_getElem hlt, drop_eq_getElem_cons hlt]
    rfl

omit [Dimension D S] in
lemma itemSummary_isSome {root : ℕ} (h : c.didSeek = true) (hstands : Stands root c.stack left) :
    ∃ itemSummary, c.itemSummary = some itemSummary := by
  rw [Cursor.itemSummary, h, if_neg (Bool.noConfusion : true ≠ false)]
  rcases hstands.cases with ⟨hstack, rfl⟩ | ⟨entry, stack, leafItems, hstack, ht, hlt, rfl⟩
  · rw [hstack]
    exact ⟨none, rfl⟩
  · rw [hstack]
    simp only [ht, length_map]
    rw [if_neg hlt.ne, getElem?_map, getElem?_eq_getElem hlt]
    exact ⟨_, rfl⟩

lemma next [LawfulSummary S] {item : T} (h : At tree endOf c before (item :: left))
    (hmeasures : Measures tree.items endOf) (hheight : tree.height < STACK_CAPACITY) :
    ∃ c', c.next = some c' ∧ At tree endOf c' (before ++ [item]) left := by
  have hne : c.stack.isEmpty = false := by
    rcases h.stands.cases with ⟨-, hleft⟩ | ⟨entry, stack, leafItems, hstack, -⟩
    · cases hleft
    · rw [hstack]
      rfl
  obtain ⟨stack', hloop, hstands⟩ := searchForwardLoop_next hheight hmeasures h.stands h.items
  rw [Cursor.next, searchForward, hne, h.position]
  simp only [Bool.false_and, Bool.false_eq_true, if_false, hloop, Option.bind_eq_bind,
    Option.bind_some, Bool.or_false]
  refine ⟨_, rfl, h.didSeek, rfl, hstands, ?_⟩
  rw [h.items, append_assoc, singleton_append]

end At

structure Fresh (tree : SumTree T S) (c : Cursor T S D) : Prop where
  tree : c.tree = tree
  stack : c.stack = []
  position : c.position = Dimension.zero S
  didSeek : c.didSeek = false

omit [Summary S] [Item T S] in
lemma fresh_new (tree : SumTree T S) : Fresh tree (Cursor.new tree : Cursor T S D) :=
  ⟨rfl, rfl, rfl, rfl⟩

omit [Summary S] [Item T S] in
lemma fresh_reset (c : Cursor T S D) : Fresh c.tree c.reset := ⟨rfl, rfl, rfl, rfl⟩

section Moves

variable [LawfulSummary S] {aggregate : SeekAggregate T S A} {Holds : A → List T → List T → Prop}
  {target : D → Ordering} {bias : Bias} {tree : SumTree T S} {endOf : List T → D}
  {c : Cursor T S D} {before left : List T} {a : A} {held : List T}

/-- Whether a seek from between items leaves behind those that it should, and gives a cursor before
the others and an aggregate that holds what was left behind. -/
def Moves {R : Type} (Holds : R → List T → Prop) (target : D → Ordering) (bias : Bias)
    (tree : SumTree T S) (endOf : List T → D) (before left : List T)
    (result : Option (Cursor T S D × R)) : Prop :=
  ∃ passed left' c' r, left = passed ++ left' ∧ result = some (c', r) ∧
    At tree endOf c' (before ++ passed) left' ∧ Holds r passed ∧
    (passed ≠ [] → bias.passes (target (endOf (before ++ passed))) = true) ∧
    ∀ item ∈ left'.head?, bias.passes (target (endOf (before ++ passed ++ [item]))) = false

omit [LawfulSummary S] in
lemma seekInternal_of_reaches {stack : List (StackEntry T S D)}
    (hstack : (if c.didSeek then c.stack else ⟨c.tree, 0, Dimension.zero S⟩ :: c.stack) = stack)
    (hcapacity : stack.length ≤ STACK_CAPACITY) (hposition : c.position = endOf before)
    (htarget : target (endOf before) ≠ .lt) (hitems : tree.items = before ++ left)
    (hreach : Reaches Holds target bias endOf tree.height before held left
      (seekLoop aggregate target bias stack (endOf before) false a)) :
    Moves (fun r passed => Holds r.1 (held ++ passed) []) target bias tree endOf before left
      (c.seekInternal target bias aggregate a) := by
  obtain ⟨passed, left', stack', a', hleft, hloop, hstands, hholds, hpasses, hstops⟩ := hreach
  obtain ⟨itemSummary, hsummary⟩ := @At.itemSummary_isSome T S D _ _ { c with
    stack := stack'
    position := endOf (before ++ passed)
    didSeek := true
    atEnd := stack'.isEmpty } left' _ rfl hstands
  rw [seekInternal, hposition, if_neg htarget]
  simp only [hstack, if_neg (Nat.not_lt.mpr hcapacity), hloop, hsummary, Option.bind_eq_bind,
    Option.bind_some]
  refine ⟨passed, left', _, _, hleft, rfl, ⟨rfl, rfl, hstands, ?_⟩, hholds, hpasses, hstops⟩
  rw [hitems, hleft, append_assoc]

lemma At.seekInternal (h : At tree endOf c before left) (hmeasures : Measures tree.items endOf)
    (hheight : tree.height < STACK_CAPACITY) (hcollects : Collects aggregate Holds)
    (htarget : target (endOf before) ≠ .lt) (ha : Holds a held []) :
    Moves (fun r passed => Holds r.1 (held ++ passed) []) target bias tree endOf before left
      (c.seekInternal target bias aggregate a) := by
  have hpath : ∃ height, Path tree.height height c.stack := by
    rcases h.stands.2 with hnil | hpath
    · exact ⟨tree.height + 1, by rw [hnil]; rfl⟩
    · exact ⟨0, hpath⟩
  obtain ⟨height, hpath⟩ := hpath
  have hreach : Reaches Holds target bias endOf tree.height before held (stackAhead false c.stack)
      (seekLoop aggregate target bias c.stack (endOf before) false a) :=
    seekLoop_run hcollects hmeasures hheight hpath (by rw [h.items, h.stands.1]) ha
  rw [h.stands.1] at hreach
  have hlength := hpath.length
  exact seekInternal_of_reaches (by rw [h.didSeek, if_pos rfl]) (by omega) h.position htarget
    h.items hreach

lemma Fresh.seekInternal (h : Fresh tree c) (hvalid : tree.Valid)
    (hmeasures : Measures tree.items endOf) (hheight : tree.height < STACK_CAPACITY)
    (hcollects : Collects aggregate Holds) (htarget : target (Dimension.zero S) ≠ .lt)
    (ha : Holds a held []) :
    Moves (fun r passed => Holds r.1 (held ++ passed) []) target bias tree endOf [] tree.items
      (c.seekInternal target bias aggregate a) := by
  have hstack : (if c.didSeek then c.stack else ⟨c.tree, 0, Dimension.zero S⟩ :: c.stack) =
      [⟨tree, 0, Dimension.zero S⟩] := by
    rw [h.didSeek, h.stack, h.tree]
    rfl
  refine seekInternal_of_reaches hstack (by rw [length_singleton]; decide)
    (h.position.trans hmeasures.zero.symm) (by rwa [hmeasures.zero]) rfl ?_
  rcases hvalid with rfl | ⟨height, hwf⟩
  · -- the empty tree is a leaf without items
    obtain ⟨a', hend, ha'⟩ := hcollects.endLeaf ha
    rw [seekLoop_leaf rfl (Nat.zero_le _) rfl hend, if_neg Bool.false_ne_true, seekLoop]
    refine ⟨[], [], [], a', ?_, rfl, ⟨rfl, .inl rfl⟩, ha', fun h => absurd rfl h, ?_⟩
    · exact items_leaf ..
    · exact fun item hitem => by cases hitem
  · obtain rfl := hwf.height_eq
    have hpath : Path tree.height tree.height [(⟨tree, 0, Dimension.zero S⟩ : StackEntry T S D)] :=
      ⟨hwf, childSummaries_pos hwf, rfl⟩
    have hahead :
        stackAhead false [(⟨tree, 0, Dimension.zero S⟩ : StackEntry T S D)] = tree.items := by
      rw [stackAhead, entryAhead_fresh, stackAhead, append_nil]
    rw [← hahead]
    exact seekLoop_run hcollects hmeasures hheight hpath (by rw [hahead, nil_append]) ha

omit [LawfulSummary S] in
lemma noAggregate_collects :
    Collects (noAggregate : SeekAggregate T S Unit) (fun _ _ _ => True) where
  endLeaf := fun _ => ⟨(), rfl, trivial⟩
  pushItem := fun _ _ _ => ⟨(), rfl, trivial⟩
  pushTree := fun _ _ => ⟨(), rfl, trivial⟩

structure Sliced (slice : SliceSeekAggregate T S) (items leafItems : List T) : Prop where
  tree_valid : slice.tree.Valid
  tree_items : slice.tree.items = items
  leaf_items : slice.leafItems = leafItems
  leaf_summaries : slice.leafItemSummaries = leafItems.map Item.summary
  leaf_summary : slice.leafSummary = total leafItems
  fits : leafItems.length ≤ 2 * TREE_BASE

omit [LawfulSummary S] in
lemma sliced_new : Sliced (⟨SumTree.new, [], [], Summary.zero⟩ : SliceSeekAggregate T S) [] [] where
  tree_valid := .inl rfl
  tree_items := items_leaf ..
  leaf_items := rfl
  leaf_summaries := rfl
  leaf_summary := rfl
  fits := Nat.zero_le _

lemma sliceAggregate_collects :
    Collects (sliceAggregate : SeekAggregate T S (SliceSeekAggregate T S)) Sliced where
  endLeaf := by
    intro slice items leafItems h
    have hleaf : (leaf slice.leafSummary slice.leafItems slice.leafItemSummaries).Valid := by
      rw [h.leaf_summary, h.leaf_items, h.leaf_summaries]
      by_cases hne : leafItems = []
      · rw [hne]
        exact .inl rfl
      · exact .inr ⟨0, .leaf hne h.fits⟩
    obtain ⟨tree, hold, hvalid, hitems⟩ := append_spec h.tree_valid hleaf
    refine ⟨⟨tree, [], [], Summary.zero⟩, ?_, hvalid, ?_, rfl, rfl, rfl, Nat.zero_le _⟩
    · simp only [sliceAggregate, hold]
      rfl
    · rw [hitems, h.tree_items, items_leaf, h.leaf_items]
  pushItem := by
    intro slice items leafItems item h hlt
    have hfits : (leafItems ++ [item]).length ≤ 2 * TREE_BASE := by
      rw [length_append, length_singleton]
      exact hlt
    refine ⟨⟨slice.tree, leafItems ++ [item], leafItems.map Item.summary ++ [Item.summary item],
      Summary.addSummary (total leafItems) (Item.summary item)⟩, ?_, h.tree_valid, h.tree_items,
      rfl, ?_, ?_, hfits⟩
    · have hfits' : (leafItems.map Item.summary ++ [(Item.summary item : S)]).length ≤
          2 * TREE_BASE := by simpa using hfits
      simp only [sliceAggregate, h.leaf_items, h.leaf_summaries, h.leaf_summary, fit_eq_some hfits,
        fit_eq_some hfits']
      rfl
    · rw [map_append, map_singleton]
    · rw [total, total, sum, sum, map_append, map_singleton, foldl_append]
      rfl
  pushTree := by
    intro slice items height tree h hwf
    obtain ⟨tree', htree', hvalid, hitems⟩ := append_spec h.tree_valid (.inr ⟨height, hwf⟩)
    refine ⟨{ slice with tree := tree' }, ?_, hvalid, by rw [hitems, h.tree_items], h.leaf_items,
      h.leaf_summaries, h.leaf_summary, Nat.zero_le _⟩
    simp only [sliceAggregate, htree']
    rfl

omit [Dimension D S] [LawfulSummary S] in
lemma Moves.map {R R' : Type} {Holds : R → List T → Prop} {Holds' : R' → List T → Prop}
    {result : Option (Cursor T S D × R)} (h : Moves Holds target bias tree endOf before left result)
    (f : R → R') (hf : ∀ r passed, Holds r passed → Holds' (f r) passed) :
    Moves Holds' target bias tree endOf before left (result.map (fun r => (r.1, f r.2))) := by
  obtain ⟨passed, left', c', r, hleft, rfl, hat, hholds, hpasses, hstops⟩ := h
  exact ⟨passed, left', c', f r, hleft, rfl, hat, hf r passed hholds, hpasses, hstops⟩

omit [Item T S] [LawfulSummary S] in
lemma slice_eq (c : Cursor T S D) (target : D → Ordering) (bias : Bias) :
    c.slice target bias = (c.seekInternal target bias sliceAggregate
      ⟨SumTree.new, [], [], Summary.zero⟩).map (fun r => (r.1, r.2.1.tree)) := by
  rw [slice]
  cases c.seekInternal target bias sliceAggregate ⟨SumTree.new, [], [], Summary.zero⟩ with
  | none => rfl
  | some r => rfl

theorem At.slice (h : At tree endOf c before left) (hmeasures : Measures tree.items endOf)
    (hheight : tree.height < STACK_CAPACITY) (htarget : target (endOf before) ≠ .lt) :
    Moves (fun slice passed => slice.Valid ∧ slice.items = passed) target bias tree endOf before
      left (c.slice target bias) := by
  rw [slice_eq]
  exact (h.seekInternal hmeasures hheight sliceAggregate_collects htarget sliced_new).map
    (fun r => r.1.tree) (fun r passed hr => ⟨hr.tree_valid, hr.tree_items⟩)

theorem Fresh.slice (h : Fresh tree c) (hvalid : tree.Valid) (hmeasures : Measures tree.items endOf)
    (hheight : tree.height < STACK_CAPACITY) (htarget : target (Dimension.zero S) ≠ .lt) :
    Moves (fun slice passed => slice.Valid ∧ slice.items = passed) target bias tree endOf []
      tree.items (c.slice target bias) := by
  rw [slice_eq]
  exact (h.seekInternal hvalid hmeasures hheight sliceAggregate_collects htarget sliced_new).map
    (fun r => r.1.tree) (fun r passed hr => ⟨hr.tree_valid, hr.tree_items⟩)

theorem At.suffix (h : At tree endOf c before left) (hmeasures : Measures tree.items endOf)
    (hheight : tree.height < STACK_CAPACITY) :
    ∃ c' tree', c.suffix = some (c', tree') ∧ tree'.Valid ∧ tree'.items = left := by
  have hmoves : Moves (fun slice passed => slice.Valid ∧ slice.items = passed) (fun _ => .gt) .right
      tree endOf before left (c.slice (fun _ => .gt) .right) :=
    h.slice hmeasures hheight (fun h => by cases h)
  obtain ⟨passed, left', c', tree', rfl, hslice, -, ⟨hvalid, hitems⟩, -, hstops⟩ := hmoves
  have hnil : left' = [] := by
    cases left' with
    | nil => rfl
    | cons item left' => exact Bool.noConfusion (hstops item rfl)
  exact ⟨c', tree', hslice, hvalid, by rw [hnil, append_nil, hitems]⟩

theorem seek_spec (c : Cursor T S D) (htree : c.tree = tree) (hvalid : tree.Valid)
    (hmeasures : Measures tree.items endOf) (hheight : tree.height < STACK_CAPACITY)
    (htarget : target (Dimension.zero S) ≠ .lt) :
    Moves (fun _ _ => True) target bias tree endOf [] tree.items (c.seek target bias) := by
  have hseek : c.seek target bias = (c.reset.seekInternal target bias noAggregate ()).map
      (fun r => (r.1, r.2.2)) := by
    rw [seek]
    cases c.reset.seekInternal target bias noAggregate () with
    | none => rfl
    | some r => rfl
  have hmoves := @Fresh.seekInternal T S D Unit _ _ _ _ _ _ target bias tree endOf c.reset () []
    (htree ▸ fresh_reset c) hvalid hmeasures hheight noAggregate_collects htarget trivial
  rw [hseek]
  exact hmoves.map (fun r => r.2) (fun _ _ _ => trivial)

end Moves

end Cursor

end GpuiFast
