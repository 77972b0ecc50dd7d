import GpuiFast.SumTree

namespace GpuiFast

open List

variable {T S D : Type}

/-- What a cursor can count along a tree. -/
class Dimension (D S : Type) where
  zero : D
  addSummary : D → S → D

inductive Bias where
  | left
  | right
  deriving DecidableEq

/-- Whether an item that ends at a position compared so with the target is left behind. -/
def Bias.passes (bias : Bias) (comparison : Ordering) : Bool :=
  comparison = .gt || (comparison = .eq && bias = .right)

structure StackEntry (T S D : Type) where
  tree : SumTree T S
  index : ℕ
  position : D

structure Cursor (T S D : Type) where
  tree : SumTree T S
  stack : List (StackEntry T S D)
  position : D
  didSeek : Bool
  atEnd : Bool

/-- How many nodes a cursor can stand in at once. -/
def STACK_CAPACITY : ℕ := 16

namespace SumTree

mutual

def weight : SumTree T S → ℕ
  | leaf _ _ itemSummaries => 2 + itemSummaries.length
  | internal _ _ childSummaries childTrees => 2 + childSummaries.length + weightsOf childTrees

def weightsOf : List (SumTree T S) → ℕ
  | [] => 0
  | tree :: trees => tree.weight + weightsOf trees

end

def weightFrom : SumTree T S → ℕ → ℕ
  | leaf _ _ _, _ => 1
  | internal _ _ _ childTrees, index => 1 + weightsOf (childTrees.drop index)

/-- A bound on the steps of a walk back through the children of a node before an index. -/
def weightBefore : SumTree T S → ℕ → ℕ
  | leaf _ _ _, index => 1 + index
  | internal _ _ _ childTrees, index => 1 + index + weightsOf (childTrees.take index)

end SumTree

open SumTree

/-- What is left of a walk, the child the top is in included or not. -/
def weightAhead : List (StackEntry T S D) → Bool → ℕ
  | [], _ => 0
  | entry :: rest, fresh =>
    entry.tree.weightFrom (if fresh then entry.index else entry.index + 1) + weightAhead rest false

/-- What is left of a walk back, the child the top is in included or not. -/
def weightBehind : List (StackEntry T S D) → Bool → ℕ
  | [], _ => 0
  | entry :: rest, fresh =>
    entry.tree.weightBefore (if fresh then entry.index + 1 else entry.index) + weightBehind rest false

lemma weightsOf_append (trees trees' : List (SumTree T S)) :
    weightsOf (trees ++ trees') = weightsOf trees + weightsOf trees' := by
  induction trees with
  | nil => rw [nil_append, weightsOf, Nat.zero_add]
  | cons tree trees ih => rw [cons_append, weightsOf, weightsOf, ih, Nat.add_assoc]

variable {i : ℕ} {trees : List (SumTree T S)} (tree : SumTree T S) (index : ℕ)
  (entry : StackEntry T S D) (rest : List (StackEntry T S D)) (fresh : Bool)

variable {j : ℕ} {subtree : SumTree T S} {height : ℕ} {summary : S} {sums : List S} (position : D)

lemma weightsOf_drop_le {l : List (SumTree T S)} (h : i ≤ j) :
    weightsOf (l.drop j) ≤ weightsOf (l.drop i) := by
  have hdrop : l.drop i = (l.drop i).take (j - i) ++ l.drop j := by
    conv_lhs => rw [← take_append_drop (j - i) (l.drop i)]
    rw [drop_drop, Nat.add_sub_cancel' h]
  rw [hdrop, weightsOf_append]
  omega

lemma weightsOf_drop_of_getElem? {tree : SumTree T S} (h : trees[i]? = some tree) :
    weightsOf (trees.drop i) = tree.weight + weightsOf (trees.drop (i + 1)) := by
  obtain ⟨hi, rfl⟩ := List.getElem?_eq_some_iff.mp h
  rw [drop_eq_getElem_cons hi, weightsOf]

lemma weightsOf_take_succ {tree : SumTree T S} (h : trees[i]? = some tree) :
    weightsOf (trees.take (i + 1)) = weightsOf (trees.take i) + tree.weight := by
  rw [take_add_one, h, weightsOf_append]
  rw [Option.toList_some, weightsOf, weightsOf, Nat.add_zero]

lemma weightsOf_take_le (h : i ≤ j) : weightsOf (trees.take i) ≤ weightsOf (trees.take j) := by
  have htake : trees.take j = trees.take i ++ (trees.take j).drop i := by
    conv_lhs => rw [← take_append_drop i (trees.take j)]
    rw [take_take, Nat.min_eq_left h]
  rw [htake, weightsOf_append]
  omega

lemma weightFrom_zero_lt : tree.weightFrom 0 < tree.weight := by
  cases tree with
  | leaf =>
    rw [weightFrom, weight]
    omega
  | internal =>
    rw [weightFrom, weight, drop_zero]
    omega

lemma weightBefore_lt : tree.weightBefore tree.childSummaries.length < tree.weight := by
  cases tree with
  | leaf =>
    rw [weightBefore, weight, childSummaries]
    omega
  | internal height summary sums trees =>
    have hle : weightsOf (trees.take sums.length) ≤ weightsOf trees := by
      conv_rhs => rw [← take_append_drop sums.length trees, weightsOf_append]
      omega
    rw [weightBefore, weight, childSummaries]
    omega

lemma weightFrom_pos : 0 < tree.weightFrom index := by
  cases tree with
  | leaf =>
    rw [weightFrom]
    omega
  | internal =>
    rw [weightFrom]
    omega

lemma weightBefore_pos : 0 < tree.weightBefore index := by
  cases tree with
  | leaf =>
    rw [weightBefore]
    omega
  | internal =>
    rw [weightBefore]
    omega

lemma weightBefore_lt_succ : tree.weightBefore index < tree.weightBefore (index + 1) := by
  cases tree with
  | leaf =>
    rw [weightBefore, weightBefore]
    omega
  | internal _ _ _ trees =>
    have hle : weightsOf (trees.take index) ≤ weightsOf (trees.take (index + 1)) :=
      weightsOf_take_le (Nat.le_succ index)
    rw [weightBefore, weightBefore]
    omega

lemma weightAhead_pop : weightAhead rest false < weightAhead (entry :: rest) fresh := by
  rw [weightAhead.eq_def (entry :: rest)]
  exact Nat.lt_add_of_pos_left (weightFrom_pos ..)

lemma weightAhead_push {entry entry' : StackEntry T S D} {rest : List (StackEntry T S D)}
    {fresh : Bool} (ht : entry.tree = internal height summary sums trees)
    (htree : entry'.tree = entry.tree)
    (hle : (if fresh then entry.index else entry.index + 1) ≤ entry'.index)
    (hc : trees[entry'.index]? = some subtree) (position : D) :
    weightAhead (⟨subtree, 0, position⟩ :: entry' :: rest) true <
      weightAhead (entry :: rest) fresh := by
  have hlt := weightFrom_zero_lt subtree
  have hdrop := weightsOf_drop_le (l := trees) hle
  rw [weightsOf_drop_of_getElem? hc] at hdrop
  rw [weightAhead, weightAhead, weightAhead, htree, ht, weightFrom, weightFrom, if_pos rfl,
    if_neg Bool.false_ne_true]
  dsimp only
  omega

lemma weightBehind_cons :
    weightBehind (entry :: rest) fresh =
      entry.tree.weightBefore (if fresh then entry.index + 1 else entry.index) +
        weightBehind rest false := rfl

lemma weightBehind_pop : weightBehind rest false < weightBehind (entry :: rest) fresh := by
  rw [weightBehind_cons]
  exact Nat.lt_add_of_pos_left (weightBefore_pos ..)

lemma weightBehind_push {entry : StackEntry T S D} {rest : List (StackEntry T S D)} {index : ℕ}
    (ht : entry.tree = internal height summary sums trees) (hc : trees[index]? = some subtree)
    (hpos : 0 < subtree.childSummaries.length) (position position' : D) :
    weightBehind (⟨subtree, subtree.childSummaries.length - 1, position⟩ ::
        ⟨entry.tree, index, position'⟩ :: rest) true <
      entry.tree.weightBefore (index + 1) + weightBehind rest false := by
  have hlt := weightBefore_lt subtree
  have htake := weightsOf_take_succ hc
  rw [weightBehind, weightBehind, ht, weightBefore, weightBefore, if_pos rfl,
    if_neg Bool.false_ne_true]
  dsimp only
  rw [Nat.sub_add_cancel hpos]
  omega

def StackEntry.resume (entry : StackEntry T S D) (fresh : Bool) (position : D) : StackEntry T S D :=
  if fresh then entry else { entry with index := entry.index + 1, position := position }

@[simp] lemma StackEntry.resume_tree : (entry.resume fresh position).tree = entry.tree := by
  rw [resume]
  split <;> rfl

@[simp] lemma StackEntry.resume_index :
    (entry.resume fresh position).index = if fresh then entry.index else entry.index + 1 := by
  rw [resume]
  split <;> rfl

namespace Cursor

variable [Dimension D S]

def new (tree : SumTree T S) : Cursor T S D := ⟨tree, [], Dimension.zero S, false, tree.isEmpty⟩

def reset (c : Cursor T S D) : Cursor T S D :=
  { c with didSeek := false, atEnd := c.tree.isEmpty, stack := [], position := Dimension.zero S }

def item (c : Cursor T S D) : Option (Option T) :=
  if c.didSeek = false then none
  else
    match c.stack with
    | [] => some none
    | entry :: _ =>
      match entry.tree with
      | leaf _ items _ =>
        if entry.index = items.length then some none else items[entry.index]?.map some
      | internal _ _ _ _ => none

def itemSummary (c : Cursor T S D) : Option (Option S) :=
  if c.didSeek = false then none
  else
    match c.stack with
    | [] => some none
    | entry :: _ =>
      match entry.tree with
      | leaf _ _ itemSummaries =>
        if entry.index = itemSummaries.length then some none
        else itemSummaries[entry.index]?.map some
      | internal _ _ _ _ => none

def skipRejected (filterNode : S → Bool) :
    List S → StackEntry T S D → D → StackEntry T S D × D
  | [], entry, position => (entry, position)
  | summary :: summaries, entry, position =>
    if filterNode summary then (entry, position)
    else
      skipRejected filterNode summaries
        { entry with
          index := entry.index + 1
          position := Dimension.addSummary entry.position summary }
        (Dimension.addSummary position summary)

lemma skipRejected_spec (filterNode : S → Bool) (summaries : List S) (entry : StackEntry T S D)
    (position : D) :
    (skipRejected filterNode summaries entry position).1.tree = entry.tree ∧
      entry.index ≤ (skipRejected filterNode summaries entry position).1.index := by
  induction summaries generalizing entry position with
  | nil => exact ⟨rfl, le_refl _⟩
  | cons summary summaries ih =>
    rw [skipRejected]
    split
    · exact ⟨rfl, le_refl _⟩
    · obtain ⟨htree, hle⟩ := ih { entry with
        index := entry.index + 1
        position := Dimension.addSummary entry.position summary }
        (Dimension.addSummary position summary)
      exact ⟨htree, (Nat.le_succ _).trans hle⟩

/-- Walks forward to an item that is not rejected: the stack, the position, and whether there is one.
`descend` is whether the top was only just entered. -/
def searchForwardLoop (filterNode : S → Bool) (stack : List (StackEntry T S D)) (position : D)
    (descend : Bool) : Option (List (StackEntry T S D) × D × Bool) :=
  match stack with
  | [] => some ([], position, false)
  | entry :: rest =>
    match _ht : entry.tree with
    | internal _ _ childSummaries childTrees =>
      let resumed := entry.resume descend position
      let r := skipRejected filterNode (childSummaries.drop resumed.index) resumed position
      match _hc : childTrees[r.1.index]? with
      | some subtree =>
        if rest.length + 1 < STACK_CAPACITY then
          searchForwardLoop filterNode (⟨subtree, 0, r.2⟩ :: r.1 :: rest) r.2 true
        else none
      | none => searchForwardLoop filterNode rest r.2 false
    | leaf _ _ itemSummaries =>
      let advanced := if descend then some (entry, position)
        else itemSummaries[entry.index]?.map (fun itemSummary =>
          ({ entry with
            index := entry.index + 1
            position := Dimension.addSummary entry.position itemSummary },
            Dimension.addSummary position itemSummary))
      match advanced with
      | none => none
      | some (entry, position) =>
        let r := skipRejected filterNode (itemSummaries.drop entry.index) entry position
        if r.1.index < itemSummaries.length then some (r.1 :: rest, r.2, true)
        else searchForwardLoop filterNode rest r.2 false
termination_by weightAhead stack descend
decreasing_by
  · refine weightAhead_push _ht ((skipRejected_spec ..).1.trans (entry.resume_tree ..)) ?_ _hc _
    rw [← entry.resume_index]
    exact (skipRejected_spec ..).2
  · exact weightAhead_pop ..
  · exact weightAhead_pop ..

def stepBack (descending : Bool) (index : ℕ) : ℕ := if descending then index else index - 1

lemma stepBack_add_one {descending : Bool} {index : ℕ} (h : ¬ (descending = false ∧ index = 0)) :
    stepBack descending index + 1 = if descending then index + 1 else index := by
  cases descending with
  | true => rfl
  | false => exact Nat.sub_add_cancel (Nat.pos_of_ne_zero (fun h0 => h ⟨rfl, h0⟩))

/-- Walks back to an item that is not rejected: the stack and the position. `descending` is whether
the top was only just entered. -/
def searchBackwardLoop (filterNode : S → Bool) (stack : List (StackEntry T S D)) (position : D)
    (descending : Bool) : Option (List (StackEntry T S D) × D) :=
  match stack with
  | [] => some ([], position)
  | entry :: rest =>
    let position := match rest with
      | parent :: _ => parent.position
      | [] => Dimension.zero S
    if _hz : descending = false ∧ entry.index = 0 then
      searchBackwardLoop filterNode rest position false
    else
      let index := stepBack descending entry.index
      if entry.tree.childSummaries.length < index then none
      else
        let position :=
          (entry.tree.childSummaries.take index).foldl Dimension.addSummary position
        match entry.tree.childSummaries[index]? with
        | none => none
        | some summary =>
          match _ht : entry.tree with
          | internal _ _ _ childTrees =>
            if filterNode summary then
              match _hc : childTrees[index]? with
              | none => none
              | some tree =>
                if _hpos : 0 < tree.childSummaries.length then
                  if rest.length + 1 < STACK_CAPACITY then
                    searchBackwardLoop filterNode
                      (⟨tree, tree.childSummaries.length - 1, Dimension.zero S⟩ ::
                        ⟨entry.tree, index, position⟩ :: rest) position true
                  else none
                else none
            else searchBackwardLoop filterNode (⟨entry.tree, index, position⟩ :: rest) position false
          | leaf _ _ _ =>
            if filterNode summary then some (⟨entry.tree, index, position⟩ :: rest, position)
            else searchBackwardLoop filterNode (⟨entry.tree, index, position⟩ :: rest) position false
termination_by weightBehind stack descending
decreasing_by
  · exact weightBehind_pop ..
  · rw [weightBehind_cons entry, ← stepBack_add_one _hz]
    exact weightBehind_push _ht _hc _hpos _ _
  · rw [weightBehind, weightBehind, ← stepBack_add_one _hz]
    exact Nat.add_lt_add_right (weightBefore_lt_succ ..) _
  · rw [weightBehind, weightBehind, ← stepBack_add_one _hz]
    exact Nat.add_lt_add_right (weightBefore_lt_succ ..) _

def searchForward (c : Cursor T S D) (filterNode : S → Bool) : Option (Cursor T S D) := do
  -- the root is entered if the cursor is before the first item
  let enters := c.stack.isEmpty && !c.atEnd
  let stack := if enters then [⟨c.tree, 0, Dimension.zero S⟩] else c.stack
  let didSeek := c.didSeek || c.stack.isEmpty
  let (stack, position, found) ← searchForwardLoop filterNode stack c.position enters
  return { c with
    stack := stack
    position := position
    didSeek := didSeek
    atEnd := if found then c.atEnd else stack.isEmpty }

def next (c : Cursor T S D) : Option (Cursor T S D) := c.searchForward (fun _ => true)

def searchBackward (c : Cursor T S D) (filterNode : S → Bool) : Option (Cursor T S D) := do
  let atEnd := c.atEnd || !c.didSeek
  let position := if atEnd then Dimension.zero S else c.position
  -- from the end, the root is entered past its last child
  let stack := if atEnd && !c.tree.isEmpty then
      ⟨c.tree, c.tree.childSummaries.length,
        Dimension.addSummary (Dimension.zero S) c.tree.summary⟩ :: c.stack
    else c.stack
  if STACK_CAPACITY < stack.length then none
  else do
    let (stack, position) ← searchBackwardLoop filterNode stack position false
    return { c with
      stack := stack
      position := position
      didSeek := true
      atEnd := if atEnd then c.tree.isEmpty else c.atEnd }

def prev (c : Cursor T S D) : Option (Cursor T S D) := c.searchBackward (fun _ => true)

end Cursor

structure SeekAggregate (T S A : Type) where
  endLeaf : A → Option A
  pushItem : A → T → S → Option A
  pushTree : A → SumTree T S → S → Option A

namespace Cursor

variable {A : Type} [Dimension D S]

/-- Passes the children of a node that end before the target, with their summaries; the child it is
in if it is in one. -/
def seekChildren (aggregate : SeekAggregate T S A) (target : D → Ordering) (bias : Bias) :
    List (SumTree T S × S) → StackEntry T S D → D → A →
      Option (StackEntry T S D × D × A × Option (SumTree T S))
  | [], entry, position, a => some (entry, position, a, none)
  | (childTree, childSummary) :: children, entry, position, a =>
    let childEnd := Dimension.addSummary position childSummary
    if bias.passes (target childEnd) then do
      let a ← aggregate.pushTree a childTree childSummary
      seekChildren aggregate target bias children
        { entry with index := entry.index + 1, position := childEnd } childEnd a
    else some (entry, position, a, some childTree)

/-- Passes the items of a leaf that end before the target; whether it is at one of them. -/
def seekItems (aggregate : SeekAggregate T S A) (target : D → Ordering) (bias : Bias) :
    List (T × S) → StackEntry T S D → D → A → Option (StackEntry T S D × D × A × Bool)
  | [], entry, position, a => some (entry, position, a, false)
  | (item, itemSummary) :: items, entry, position, a =>
    let childEnd := Dimension.addSummary position itemSummary
    if bias.passes (target childEnd) then do
      let a ← aggregate.pushItem a item itemSummary
      seekItems aggregate target bias items { entry with index := entry.index + 1 } childEnd a
    else some (entry, position, a, true)

lemma seekChildren_spec {aggregate : SeekAggregate T S A} {target : D → Ordering} {bias : Bias}
    {children : List (SumTree T S × S)} {entry : StackEntry T S D} {position : D} {a : A}
    {r : StackEntry T S D × D × A × Option (SumTree T S)}
    (h : seekChildren aggregate target bias children entry position a = some r) :
    r.1.tree = entry.tree ∧ ∀ child, r.2.2.2 = some child →
      ∃ i s, r.1.index = entry.index + i ∧ children[i]? = some (child, s) := by
  induction children generalizing entry position a with
  | nil =>
    rw [seekChildren, Option.some.injEq] at h
    subst h
    exact ⟨rfl, fun child hc => nomatch hc⟩
  | cons child children ih =>
    obtain ⟨tree, summary⟩ := child
    rw [seekChildren] at h
    split at h
    · obtain ⟨a', -, h⟩ := Option.bind_eq_some_iff.mp h
      obtain ⟨htree, hchild⟩ := ih h
      refine ⟨htree, fun child hc => ?_⟩
      obtain ⟨i, s, hi, hs⟩ := hchild child hc
      exact ⟨i + 1, s, by rw [hi]; dsimp only; omega, hs⟩
    · obtain rfl := Option.some.inj h
      refine ⟨rfl, fun child hc => ⟨0, summary, rfl, ?_⟩⟩
      rw [← Option.some.inj hc]
      rfl

/-- Walks forward to the first item that the target does not pass; `ascending` is whether the child
the top is in was left. -/
def seekLoop (aggregate : SeekAggregate T S A) (target : D → Ordering) (bias : Bias)
    (stack : List (StackEntry T S D)) (position : D) (ascending : Bool) (a : A) :
    Option (List (StackEntry T S D) × D × A) :=
  match stack with
  | [] => some ([], position, a)
  | entry :: rest =>
    match _ht : entry.tree with
    | internal _ _ childSummaries childTrees =>
      let resumed := entry.resume (!ascending) position
      if childTrees.length < resumed.index then none
      else
        match _hr : seekChildren aggregate target bias
            ((childTrees.drop resumed.index).zip (childSummaries.drop resumed.index)) resumed position
            a with
        | none => none
        | some (entry', position', a', some childTree) =>
          if rest.length + 1 < STACK_CAPACITY then
            seekLoop aggregate target bias (⟨childTree, 0, position'⟩ :: entry' :: rest) position'
              false a'
          else none
        | some (_, position', a', none) => seekLoop aggregate target bias rest position' true a'
    | leaf _ items itemSummaries =>
      if items.length < entry.index then none
      else
        match seekItems aggregate target bias
            ((items.drop entry.index).zip (itemSummaries.drop entry.index)) entry position a with
        | none => none
        | some (entry, position, a, found) =>
          match aggregate.endLeaf a with
          | none => none
          | some a =>
            if found then some (entry :: rest, position, a)
            else seekLoop aggregate target bias rest position true a
termination_by weightAhead stack (!ascending)
decreasing_by
  · obtain ⟨htree, hchild⟩ := seekChildren_spec _hr
    obtain ⟨i, s, hi, hs⟩ := hchild childTree rfl
    obtain ⟨hs, -⟩ := getElem?_zip_eq_some.mp hs
    rw [getElem?_drop, ← hi] at hs
    refine weightAhead_push _ht (htree.trans (StackEntry.resume_tree ..)) ?_ hs _
    rw [hi, ← StackEntry.resume_index entry _ position]
    exact Nat.le_add_right ..
  · exact weightAhead_pop ..
  · exact weightAhead_pop ..

def seekInternal (c : Cursor T S D) (target : D → Ordering) (bias : Bias)
    (aggregate : SeekAggregate T S A) (a : A) : Option (Cursor T S D × A × Bool) :=
  if target c.position = .lt then none
  else do
    let stack := if c.didSeek then c.stack else ⟨c.tree, 0, Dimension.zero S⟩ :: c.stack
    if STACK_CAPACITY < stack.length then none
    else do
      let (stack, position, a) ← seekLoop aggregate target bias stack c.position false a
      let c : Cursor T S D :=
        { c with stack := stack, position := position, didSeek := true, atEnd := stack.isEmpty }
      let itemSummary ← c.itemSummary
      let finish := match bias, itemSummary with
        | .left, some summary => Dimension.addSummary position summary
        | _, _ => position
      return (c, a, target finish = .eq)

def noAggregate : SeekAggregate T S Unit where
  endLeaf := some
  pushItem := fun a _ _ => some a
  pushTree := fun a _ _ => some a

def seek (c : Cursor T S D) (target : D → Ordering) (bias : Bias) : Option (Cursor T S D × Bool) := do
  let (c, _, found) ← c.reset.seekInternal target bias noAggregate ()
  return (c, found)

end Cursor

structure SliceSeekAggregate (T S : Type) where
  tree : SumTree T S
  leafItems : List T
  leafItemSummaries : List S
  leafSummary : S

variable [Summary S]

def sliceAggregate : SeekAggregate T S (SliceSeekAggregate T S) where
  endLeaf := fun slice => do
    let tree ← slice.tree.append (leaf slice.leafSummary slice.leafItems slice.leafItemSummaries)
    return ⟨tree, [], [], Summary.zero⟩
  pushItem := fun slice item summary => do
    let leafItems ← fit (slice.leafItems ++ [item])
    let leafItemSummaries ← fit (slice.leafItemSummaries ++ [summary])
    return { slice with
      leafItems := leafItems
      leafItemSummaries := leafItemSummaries
      leafSummary := Summary.addSummary slice.leafSummary summary }
  pushTree := fun slice tree _ => do
    let tree ← slice.tree.append tree
    return { slice with tree := tree }

namespace Cursor

variable [Dimension D S]

def slice (c : Cursor T S D) (target : D → Ordering) (bias : Bias) :
    Option (Cursor T S D × SumTree T S) := do
  let (c, slice, _) ← c.seekInternal target bias sliceAggregate ⟨.new, [], [], Summary.zero⟩
  return (c, slice.tree)

/-- What is left of the tree; its end is past every position. -/
def suffix (c : Cursor T S D) : Option (Cursor T S D × SumTree T S) := c.slice (fun _ => .gt) .right

end Cursor

namespace SumTree

variable [Dimension D S]

/-- Whether an item is the one that is looked for. -/
def found (exact : Bool) (bias : Bias) (comparison : Ordering) : Bool :=
  if exact then comparison = .eq else !bias.passes comparison

def findItems (exact : Bool) (target : D → Ordering) (bias : Bias) :
    D → List (T × S) → D × Option (T × D)
  | position, [] => (position, none)
  | position, (item, itemSummary) :: items =>
    let childEnd := Dimension.addSummary position itemSummary
    if found exact bias (target childEnd) then (position, some (item, childEnd))
    else findItems exact target bias childEnd items

mutual

def findIterate (exact : Bool) (target : D → Ordering) (bias : Bias) (position : D) :
    SumTree T S → D × Option (T × D)
  | leaf _ items itemSummaries => findItems exact target bias position (items.zip itemSummaries)
  | internal _ _ childSummaries childTrees =>
    findChildren exact target bias position childTrees childSummaries

def findChildren (exact : Bool) (target : D → Ordering) (bias : Bias) (position : D) :
    List (SumTree T S) → List S → D × Option (T × D)
  | childTree :: childTrees, childSummary :: childSummaries =>
    let childEnd := Dimension.addSummary position childSummary
    if bias.passes (target childEnd) then
      findChildren exact target bias childEnd childTrees childSummaries
    else findIterate exact target bias position childTree
  | _, _ => (position, none)

end

/-- Where an item starts and ends, and the item, without a cursor. -/
def find (tree : SumTree T S) (target : D → Ordering) (bias : Bias) : D × D × Option T :=
  let treeEnd := Dimension.addSummary (Dimension.zero S) tree.summary
  if bias.passes (target treeEnd) then (treeEnd, treeEnd, none)
  else
    match findIterate false target bias (Dimension.zero S) tree with
    | (position, some (item, finish)) => (position, finish, some item)
    | (position, none) => (position, position, none)

def findExact (tree : SumTree T S) (target : D → Ordering) (bias : Bias) : D × D × Option T :=
  let treeEnd := Dimension.addSummary (Dimension.zero S) tree.summary
  if bias.passes (target treeEnd) then (treeEnd, treeEnd, none)
  else
    match findIterate true target bias (Dimension.zero S) tree with
    | (position, some (item, finish)) => (position, finish, some item)
    | (position, none) => (position, position, none)

end SumTree

end GpuiFast
