import Mathlib

/-! A B+ tree whose leaves hold items with their summaries, and whose inner nodes hold the sums of what
is below them. A node is an array of bounded capacity: what does not fit into one, an index out of
bounds and an `unwrap` of nothing are `none`, where the source panics. Heights are natural numbers;
the source's are `u8`, of which a cursor can walk the first sixteen. -/

namespace GpuiFast

open List Option

def TREE_BASE : ℕ := 6

/-- What nothing sums to, and how sums add up. -/
class Summary (S : Type) where
  zero : S
  addSummary : S → S → S

class Item (T : Type) (S : outParam Type) where
  summary : T → S

inductive SumTree (T S : Type) where
  | leaf (summary : S) (items : List T) (itemSummaries : List S)
  | internal (height : ℕ) (summary : S) (childSummaries : List S) (childTrees : List (SumTree T S))

variable {T S : Type}

section Arrays

variable {α : Type}

/-- Elements put into an array of a node's capacity. -/
def fit (l : List α) : Option (List α) := if l.length ≤ 2 * TREE_BASE then some l else none

def setLast : List α → α → Option (List α)
  | [], _ => none
  | a :: l, x => some ((a :: l).dropLast ++ [x])

def setFirst : List α → α → Option (List α)
  | [], _ => none
  | _ :: l, x => some (x :: l)

end Arrays

def sum [Summary S] (summaries : List S) : S := summaries.foldl Summary.addSummary Summary.zero

namespace SumTree

def height : SumTree T S → ℕ
  | leaf _ _ _ => 0
  | internal height _ _ _ => height

def summary : SumTree T S → S
  | leaf summary _ _ => summary
  | internal _ summary _ _ => summary

def childSummaries : SumTree T S → List S
  | leaf _ _ itemSummaries => itemSummaries
  | internal _ _ childSummaries _ => childSummaries

def childTrees : SumTree T S → Option (List (SumTree T S))
  | leaf _ _ _ => none
  | internal _ _ _ childTrees => some childTrees

def leafItems : SumTree T S → Option (List T)
  | leaf _ items _ => some items
  | internal _ _ _ _ => none

def isUnderflowing : SumTree T S → Bool
  | leaf _ items _ => items.length < TREE_BASE
  | internal _ _ _ childTrees => childTrees.length < TREE_BASE

def isEmpty : SumTree T S → Bool
  | leaf _ items _ => items.isEmpty
  | internal _ _ _ _ => false

mutual

def items : SumTree T S → List T
  | leaf _ items _ => items
  | internal _ _ _ childTrees => itemsOf childTrees

def itemsOf : List (SumTree T S) → List T
  | [] => []
  | tree :: trees => tree.items ++ itemsOf trees

end

def leftmostLeaf : SumTree T S → Option (SumTree T S)
  | leaf summary items itemSummaries => some (leaf summary items itemSummaries)
  | internal _ _ _ [] => none
  | internal _ _ _ (first :: _) => first.leftmostLeaf

def rightmostLeaf : SumTree T S → Option (SumTree T S)
  | leaf summary items itemSummaries => some (leaf summary items itemSummaries)
  | internal _ _ _ childTrees =>
    match _h : childTrees.getLast? with
    | none => none
    | some last => last.rightmostLeaf
termination_by tree => sizeOf tree
decreasing_by
  have hlt := sizeOf_lt_of_mem (mem_of_getLast? _h)
  simp_wf
  omega

/-- The first item; a node that has none to ask for is `none` outside. -/
def first (tree : SumTree T S) : Option (Option T) := do
  let leaf ← tree.leftmostLeaf
  let items ← leaf.leafItems
  return items.head?

def last (tree : SumTree T S) : Option (Option T) := do
  let leaf ← tree.rightmostLeaf
  let items ← leaf.leafItems
  return items.getLast?

variable [Summary S]

def new : SumTree T S := leaf Summary.zero [] []

def appendChildren (height : ℕ) (summary : S) (childSummaries : List S)
    (childTrees : List (SumTree T S)) (summariesToAppend : List S)
    (treesToAppend : List (SumTree T S)) : Option (SumTree T S × Option (SumTree T S)) :=
  let childCount := childTrees.length + treesToAppend.length
  let allSummaries := childSummaries ++ summariesToAppend
  let allTrees := childTrees ++ treesToAppend
  if 2 * TREE_BASE < childCount then do
    let midpoint := (childCount + childCount % 2) / 2
    let leftSummaries ← fit (allSummaries.take midpoint)
    let rightSummaries ← fit (allSummaries.drop midpoint)
    let leftTrees ← fit (allTrees.take midpoint)
    let rightTrees ← fit (allTrees.drop midpoint)
    return (internal height (sum leftSummaries) leftSummaries leftTrees,
      some (internal height (sum rightSummaries) rightSummaries rightTrees))
  else do
    let childSummaries ← fit allSummaries
    let childTrees ← fit allTrees
    return (internal height summary childSummaries childTrees, none)

def appendItems (summary : S) (items : List T) (itemSummaries : List S) (otherSummary : S)
    (otherItems : List T) (otherSummaries : List S) : Option (SumTree T S × Option (SumTree T S)) :=
  let childCount := items.length + otherItems.length
  let allItems := items ++ otherItems
  let allSummaries := itemSummaries ++ otherSummaries
  if 2 * TREE_BASE < childCount then do
    let midpoint := (childCount + childCount % 2) / 2
    let leftItems ← fit (allItems.take midpoint)
    let rightItems ← fit (allItems.drop midpoint)
    let leftSummaries ← fit (allSummaries.take midpoint)
    let rightSummaries ← fit (allSummaries.drop midpoint)
    return (leaf (sum leftSummaries) leftItems leftSummaries,
      some (leaf (sum rightSummaries) rightItems rightSummaries))
  else do
    let items ← fit allItems
    let itemSummaries ← fit allSummaries
    return (leaf (Summary.addSummary summary otherSummary) items itemSummaries, none)

/-- Pushes a tree that is no higher to the end of another, and what was split off it. -/
def pushTreeRecursive : SumTree T S → SumTree T S → Option (SumTree T S × Option (SumTree T S))
  | internal height summary childSummaries childTrees, other =>
    let summary := Summary.addSummary summary other.summary
    let heightDelta := height - other.height
    if heightDelta = 0 then do
      let otherTrees ← other.childTrees
      appendChildren height summary childSummaries childTrees other.childSummaries otherTrees
    else if heightDelta = 1 ∧ other.isUnderflowing = false then
      appendChildren height summary childSummaries childTrees [other.summary] [other]
    else
      match _h : childTrees.getLast? with
      | none => none
      | some last => do
        let (last, splitTree) ← pushTreeRecursive last other
        let childTrees ← setLast childTrees last
        let childSummaries ← setLast childSummaries last.summary
        match splitTree with
        | some splitTree =>
          appendChildren height summary childSummaries childTrees [splitTree.summary] [splitTree]
        | none => appendChildren height summary childSummaries childTrees [] []
  | leaf summary items itemSummaries, other => do
    let otherItems ← other.leafItems
    appendItems summary items itemSummaries other.summary otherItems other.childSummaries
termination_by tree => sizeOf tree
decreasing_by
  have hlt := sizeOf_lt_of_mem (mem_of_getLast? _h)
  simp_wf
  omega

/-- Merges a node into the one of the same height at its right; the first half if it is too much. -/
def mergeIntoRight : SumTree T S → SumTree T S → Option (Option (SumTree T S) × SumTree T S)
  | internal _ smallSummary smallChildSummaries smallChildTrees,
    internal height summary childSummaries childTrees =>
    let totalChildCount := childTrees.length + smallChildTrees.length
    let allTrees := smallChildTrees ++ childTrees
    let allSummaries := smallChildSummaries ++ childSummaries
    if totalChildCount ≤ 2 * TREE_BASE then do
      let childTrees ← fit allTrees
      let childSummaries ← fit allSummaries
      return (none,
        internal height (Summary.addSummary smallSummary summary) childSummaries childTrees)
    else do
      let midpoint := (totalChildCount + 1) / 2
      let leftTrees ← fit (allTrees.take midpoint)
      let childTrees ← fit (allTrees.drop midpoint)
      let leftSummaries ← fit (allSummaries.take midpoint)
      let childSummaries ← fit (allSummaries.drop midpoint)
      return (some (internal height (sum leftSummaries) leftSummaries leftTrees),
        internal height (sum childSummaries) childSummaries childTrees)
  | leaf smallSummary smallItems smallItemSummaries, leaf summary items itemSummaries =>
    let totalChildCount := smallItems.length + items.length
    let allItems := smallItems ++ items
    let allSummaries := smallItemSummaries ++ itemSummaries
    if totalChildCount ≤ 2 * TREE_BASE then do
      let items ← fit allItems
      let itemSummaries ← fit allSummaries
      return (none, leaf (Summary.addSummary smallSummary summary) items itemSummaries)
    else do
      let midpoint := (totalChildCount + 1) / 2
      let leftItems ← fit (allItems.take midpoint)
      let items ← fit (allItems.drop midpoint)
      let leftSummaries ← fit (allSummaries.take midpoint)
      let itemSummaries ← fit (allSummaries.drop midpoint)
      return (some (leaf (sum leftSummaries) leftItems leftSummaries),
        leaf (sum itemSummaries) items itemSummaries)
  | _, _ => none

/-- Appends a tree to a small one that is no higher, and what was split off before it. -/
def appendLarge (small large : SumTree T S) : Option (Option (SumTree T S) × SumTree T S) :=
  if small.height = large.height then
    if small.isUnderflowing = false then some (some small, large) else mergeIntoRight small large
  else
    match large with
    | internal height summary childSummaries (first :: rest) => do
      let summary := Summary.addSummary small.summary summary
      let (res, first) ← appendLarge small first
      let childSummaries ← setFirst childSummaries first.summary
      let childTrees := first :: rest
      match res with
      | none => return (none, internal height summary childSummaries childTrees)
      | some tree =>
        if childTrees.length < 2 * TREE_BASE then do
          let childSummaries ← fit (tree.summary :: childSummaries)
          let childTrees ← fit (tree :: childTrees)
          return (none, internal height summary childSummaries childTrees)
        else do
          let newChildSummaries ← fit (tree.summary :: childSummaries.take TREE_BASE)
          let newChildTrees ← fit (tree :: childTrees.take TREE_BASE)
          let childSummaries := childSummaries.drop TREE_BASE
          return (some (internal height (sum newChildSummaries) newChildSummaries newChildTrees),
            internal height (sum childSummaries) childSummaries (childTrees.drop TREE_BASE))
    | _ => none

def fromChildTrees (left right : SumTree T S) : SumTree T S :=
  let childSummaries := [left.summary, right.summary]
  internal (left.height + 1) (sum childSummaries) childSummaries [left, right]

def append (self other : SumTree T S) : Option (SumTree T S) :=
  if self.isEmpty then some other
  else if other.isEmpty then some self
  else if self.height < other.height then do
    let (tree, other) ← appendLarge self other
    match tree with
    | some tree => return fromChildTrees tree other
    | none => return other
  else do
    let (self, splitTree) ← pushTreeRecursive self other
    match splitTree with
    | some splitTree => return fromChildTrees self splitTree
    | none => return self

def leavesOf [Item T S] (items : List T) : List (SumTree T S) :=
  match items with
  | [] => []
  | item :: rest =>
    let leafItems := (item :: rest).take (2 * TREE_BASE)
    let itemSummaries := leafItems.map Item.summary
    -- the first summary, with the others added to it
    leaf (itemSummaries.tail.foldl Summary.addSummary (Item.summary item)) leafItems itemSummaries ::
      leavesOf ((item :: rest).drop (2 * TREE_BASE))
termination_by items.length
decreasing_by
  rw [length_drop, length_cons, TREE_BASE]
  omega

/-- The parents of nodes, filled from left to right, after the children of the one being filled. -/
def parentsOf (height : ℕ) : Option (S × List S × List (SumTree T S)) → List (SumTree T S) →
    Option (List (SumTree T S))
  | none, [] => some []
  | some (summary, childSummaries, childTrees), [] =>
    some [internal height summary childSummaries childTrees]
  | parent, child :: nodes => do
    let (summary, childSummaries, childTrees) := parent.getD (Summary.zero, [], [])
    let summary := Summary.addSummary summary child.summary
    let childSummaries ← fit (childSummaries ++ [child.summary])
    let childTrees ← fit (childTrees ++ [child])
    if childTrees.length = 2 * TREE_BASE then do
      let parents ← parentsOf height none nodes
      return internal height summary childSummaries childTrees :: parents
    else parentsOf height (some (summary, childSummaries, childTrees)) nodes

lemma length_of_parentsOf {height : ℕ} {parent : Option (S × List S × List (SumTree T S))}
    {nodes parents : List (SumTree T S)} (h : parentsOf height parent nodes = some parents)
    (hparent : ∀ p, parent = some p → 0 < p.2.2.length ∧ p.2.2.length < 2 * TREE_BASE) :
    2 * TREE_BASE * parents.length <
      (parent.getD (Summary.zero, [], [])).2.2.length + nodes.length + 2 * TREE_BASE := by
  rw [TREE_BASE] at hparent ⊢
  induction nodes generalizing parent parents with
  | nil =>
    cases parent with
    | none =>
      rw [parentsOf, some.injEq] at h
      simp [← h]
    | some p =>
      rw [parentsOf, some.injEq] at h
      have hpos := (hparent p rfl).1
      simp only [← h, length_singleton, getD_some, length_nil]
      omega
  | cons child nodes ih =>
    simp only [parentsOf, bind_eq_bind, bind_eq_some_iff] at h
    obtain ⟨sums, -, trees, htrees, h⟩ := h
    have htrees : trees = (parent.getD (Summary.zero, [], [])).2.2 ++ [child] := by
      rw [fit] at htrees
      split at htrees
      · exact (some.inj htrees).symm
      · cases htrees
    have hlen : trees.length = (parent.getD (Summary.zero, [], [])).2.2.length + 1 := by
      rw [htrees, length_append, length_singleton]
    split at h
    · next hfull =>
      obtain ⟨parents', hparents, h⟩ := bind_eq_some_iff.mp h
      have hlt := ih hparents (fun p hp => nomatch hp)
      rw [← some.inj h, length_cons, length_cons]
      simp only [getD_none, length_nil] at hlt
      rw [TREE_BASE] at hfull
      omega
    · next hfull =>
      have hle : trees.length < 2 * 6 := by
        have hparent : (parent.getD (Summary.zero, [], [])).2.2.length < 2 * 6 := by
          cases parent with
          | none => simp
          | some p => exact (hparent p rfl).2
        rw [TREE_BASE] at hfull
        omega
      have hlt := ih h (fun p hp => by
        rw [← some.inj hp]
        exact ⟨by rw [hlen]; omega, hle⟩)
      rw [getD_some, hlen] at hlt
      rw [length_cons]
      omega

def fromNodes (height : ℕ) (nodes : List (SumTree T S)) : Option (List (SumTree T S)) :=
  if 1 < nodes.length then
    match _h : parentsOf (height + 1) none nodes with
    | none => none
    | some parents => fromNodes (height + 1) parents
  else some nodes
termination_by nodes.length
decreasing_by
  have hlt := length_of_parentsOf _h (fun p hp => nomatch hp)
  rw [getD_none, length_nil, TREE_BASE] at hlt
  omega

variable [Item T S]

def fromIter (items : List T) : Option (SumTree T S) := do
  let nodes ← fromNodes 0 (leavesOf items)
  match nodes.getLast? with
  | none => return new
  | some node => return node

def push (tree : SumTree T S) (item : T) : Option (SumTree T S) :=
  tree.append (leaf (Item.summary item) [item] [Item.summary item])

def extend (tree : SumTree T S) (items : List T) : Option (SumTree T S) := do
  let other ← fromIter items
  tree.append other

end SumTree

end GpuiFast
