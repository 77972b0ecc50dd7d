import GpuiFast.SumTreeCursor

namespace GpuiFast

variable {T S K : Type}

class KeyedItem (T : Type) (K : outParam Type) where
  key : T → K

inductive Edit (T K : Type) where
  | insert (item : T)
  | remove (key : K)

def Edit.key [KeyedItem T K] : Edit T K → K
  | insert item => KeyedItem.key item
  | remove key => key

variable [Summary S] [Item T S] [KeyedItem T K] [LinearOrder K] [Dimension K S]

def Cursor.takeItem (c : Cursor T S K) (key : K) :
    Option T → Option (Cursor T S K × Option T)
  | none => some (c, none)
  | some item =>
    if KeyedItem.key item = key then do
      let c ← c.next
      return (c, some item)
    else some (c, none)

namespace SumTree

def insertOrReplace (tree : SumTree T S) (item : T) : Option (SumTree T S × Option T) := do
  let key : K := KeyedItem.key item
  let (cursor, newTree) ← (Cursor.new tree : Cursor T S K).slice (compare key) .left
  let (cursor, replaced) ← cursor.takeItem key (← cursor.item)
  let newTree ← newTree.push item
  let (_, suffix) ← cursor.suffix
  let newTree ← newTree.append suffix
  return (newTree, replaced)

def remove (tree : SumTree T S) (key : K) : Option (SumTree T S × Option T) := do
  let (cursor, newTree) ← (Cursor.new tree : Cursor T S K).slice (compare key) .left
  let (cursor, removed) ← cursor.takeItem key (← cursor.item)
  let (_, suffix) ← cursor.suffix
  let newTree ← newTree.append suffix
  return (newTree, removed)

/-- A batch of edits under way: what is inserted is held back until the cursor moves. -/
structure EditState (T S K : Type) where
  cursor : Cursor T S K
  newTree : SumTree T S
  bufferedItems : List T
  removed : List T

/-- Moves a cursor at an item of a lower key on to a key, with what was held back going first. Gives
the item at hand then. -/
def EditState.advance (state : EditState T S K) (newKey : K) :
    Option T → Option (EditState T S K × Option T)
  | none => some (state, none)
  | some oldItem =>
    if KeyedItem.key oldItem < newKey then do
      let newTree ← state.newTree.extend state.bufferedItems
      let (cursor, slice) ← state.cursor.slice (compare newKey) .left
      let newTree ← newTree.append slice
      return (⟨cursor, newTree, [], state.removed⟩, ← cursor.item)
    else some (state, some oldItem)

def editStep (state : EditState T S K) (edit : Edit T K) : Option (EditState T S K) := do
  let newKey := edit.key
  let (state, oldItem) ← state.advance newKey (← state.cursor.item)
  let (cursor, removed) ← state.cursor.takeItem newKey oldItem
  let state := { state with cursor := cursor, removed := state.removed ++ removed.toList }
  match edit with
  | .insert item => return { state with bufferedItems := state.bufferedItems ++ [item] }
  | .remove _ => return state

def edit (tree : SumTree T S) (edits : List (Edit T K)) : Option (SumTree T S × List T) :=
  if edits.isEmpty then some (tree, [])
  else do
    let edits := edits.mergeSort (fun a b => a.key ≤ b.key)
    let (cursor, _) ← (Cursor.new tree : Cursor T S K).seek (compare (Dimension.zero S : K)) .left
    let state ← edits.foldlM editStep ⟨cursor, SumTree.new, [], []⟩
    let newTree ← state.newTree.extend state.bufferedItems
    let (_, suffix) ← state.cursor.suffix
    let newTree ← newTree.append suffix
    return (newTree, state.removed)

def applyEdit (tree : SumTree T S) : Edit T K → Option (SumTree T S × Option T)
  | .insert item => tree.insertOrReplace item
  | .remove key => tree.remove key

def applyEdits (tree : SumTree T S) : List (Edit T K) → Option (SumTree T S × List T)
  | [] => some (tree, [])
  | edit :: edits => do
    let (tree, returned) ← tree.applyEdit edit
    let (tree, returned') ← applyEdits tree edits
    return (tree, returned.toList ++ returned')

end SumTree

end GpuiFast
