import GpuiFast.KeyMap
import GpuiFast.SumTreeEdit
import GpuiFast.SumTreeAppend

/-! Focus handles in the order that the tab key goes through them. A frame's elements are inserted as
they are painted, within groups that have a tab index themselves; the handles are in a tree, ordered
by the indices of their groups and their own, and then by insertion. -/

namespace GpuiFast

structure FocusHandle where
  id : ℕ
  tabIndex : ℤ
  tabStop : Bool
  deriving DecidableEq

inductive TabStopOperation where
  | insert (focusHandle : FocusHandle)
  | group (tabIndex : ℤ)
  | groupEnd

def TabStopOperation.focusHandle : TabStopOperation → Option FocusHandle
  | insert focusHandle => some focusHandle
  | _ => none

/-- A focus handle in the tree: the indices of its groups and its own, and its place in the
insertion history. -/
structure TabStopNode where
  path : List ℤ
  nodeInsertionIndex : ℕ
  tabStop : Bool

/-- What nodes are compared by. Those of one map differ in their insertion index, so that whether
they are tab stops tells no two of one key apart. -/
def TabStopKey : Type := List ℤ ×ₗ ℕ

namespace TabStopKey

instance : LinearOrder TabStopKey := inferInstanceAs (LinearOrder (List ℤ ×ₗ ℕ))

def of (path : List ℤ) (index : ℕ) : TabStopKey := toLex (path, index)

def path (key : TabStopKey) : List ℤ := (ofLex key).1

def index (key : TabStopKey) : ℕ := (ofLex key).2

end TabStopKey

structure TabStopOrderNodeSummary where
  maxIndex : ℕ
  maxPath : List ℤ
  tabStops : ℕ

instance : Summary TabStopOrderNodeSummary where
  zero := ⟨0, [], 0⟩
  addSummary a b := ⟨b.maxIndex, b.maxPath, a.tabStops + b.tabStops⟩

instance : Item TabStopNode TabStopOrderNodeSummary :=
  ⟨fun node => ⟨node.nodeInsertionIndex, node.path, if node.tabStop then 1 else 0⟩⟩

instance : KeyedItem TabStopNode TabStopKey :=
  ⟨fun node => .of node.path node.nodeInsertionIndex⟩

instance : Dimension TabStopKey TabStopOrderNodeSummary where
  zero := .of [] 0
  addSummary _ summary := .of summary.maxPath summary.maxIndex

structure TabStopMap where
  currentPath : List ℤ
  insertionHistory : List TabStopOperation
  byId : KeyMap ℕ TabStopNode
  order : SumTree TabStopNode TabStopOrderNodeSummary

abbrev TabStopCursor : Type := Cursor TabStopNode TabStopOrderNodeSummary TabStopKey

def TabStopCursor.toTabStop (move : TabStopCursor → Option TabStopCursor) :
    ℕ → TabStopCursor → Option (Option TabStopNode)
  | 0, _ => none
  | fuel + 1, cursor => do
    match ← cursor.item with
    | some item =>
      if item.tabStop then return some item
      else toTabStop move fuel (← move cursor)
    | none => return none

namespace TabStopMap

def new : TabStopMap := ⟨[], [], .empty, .new⟩

def insert (map : TabStopMap) (focusHandle : FocusHandle) : Option TabStopMap := do
  let insertionHistory := map.insertionHistory ++ [.insert focusHandle]
  let order : TabStopNode :=
    ⟨map.currentPath ++ [focusHandle.tabIndex], insertionHistory.length - 1, focusHandle.tabStop⟩
  let (tree, _) ← map.order.insertOrReplace order
  return ⟨map.currentPath, insertionHistory, map.byId.insert focusHandle.id order, tree⟩

def beginGroup (map : TabStopMap) (tabIndex : ℤ) : TabStopMap :=
  { map with
    insertionHistory := map.insertionHistory ++ [.group tabIndex]
    currentPath := map.currentPath ++ [tabIndex] }

def endGroup (map : TabStopMap) : TabStopMap :=
  { map with
    insertionHistory := map.insertionHistory ++ [.groupEnd]
    currentPath := map.currentPath.dropLast }

def apply (map : TabStopMap) : TabStopOperation → Option TabStopMap
  | .insert focusHandle => map.insert focusHandle
  | .group tabIndex => some (map.beginGroup tabIndex)
  | .groupEnd => some map.endGroup

def replay (map : TabStopMap) (nodes : List TabStopOperation) : Option TabStopMap :=
  nodes.foldlM apply map

def focusHandleForOrder (map : TabStopMap) (order : TabStopNode) : Option (Option FocusHandle) :=
  map.insertionHistory[order.nodeInsertionIndex]?.map TabStopOperation.focusHandle

def tabNodeForFocusId (map : TabStopMap) (focusedId : ℕ) : Option TabStopNode :=
  map.byId.get? focusedId

def walkFrom (map : TabStopMap) (move : TabStopCursor → Option TabStopCursor) (node : TabStopNode) :
    Option (Option TabStopNode) := do
  let (cursor, _) ← (Cursor.new map.order : TabStopCursor).seek
    (compare (KeyedItem.key node)) .left
  let cursor ← move cursor
  TabStopCursor.toTabStop move (map.order.items.length + 1) cursor

def nextInner (map : TabStopMap) : TabStopNode → Option (Option TabStopNode) :=
  map.walkFrom Cursor.next

def prevInner (map : TabStopMap) : TabStopNode → Option (Option TabStopNode) :=
  map.walkFrom Cursor.prev

def fromEnd (map : TabStopMap) (inner : TabStopNode → Option (Option TabStopNode)) :
    Option TabStopNode → Option (Option FocusHandle)
  | none => some none
  | some node =>
    if node.tabStop then map.focusHandleForOrder node
    else do
      match ← inner node with
      | some order => map.focusHandleForOrder order
      | none => return none

def fromFocused (map : TabStopMap) (inner : TabStopNode → Option (Option TabStopNode))
    (fromNone : Option (Option FocusHandle)) (focusedId : ℕ) : Option (Option FocusHandle) :=
  match map.tabNodeForFocusId focusedId with
  | none => fromNone
  | some node => do
    match ← inner node with
    | some item => map.focusHandleForOrder item
    | none => fromNone

def next (map : TabStopMap) : Option ℕ → Option (Option FocusHandle)
  | none => do map.fromEnd map.nextInner (← map.order.first)
  | some focusedId =>
    map.fromFocused map.nextInner (do map.fromEnd map.nextInner (← map.order.first)) focusedId

def prev (map : TabStopMap) : Option ℕ → Option (Option FocusHandle)
  | none => do map.fromEnd map.prevInner (← map.order.last)
  | some focusedId =>
    map.fromFocused map.prevInner (do map.fromEnd map.prevInner (← map.order.last)) focusedId

end TabStopMap

def groupPath (path : List ℤ) : List TabStopOperation → List ℤ
  | [] => path
  | .insert _ :: ops => groupPath path ops
  | .group tabIndex :: ops => groupPath (path ++ [tabIndex]) ops
  | .groupEnd :: ops => groupPath path.dropLast ops

def placed (path : List ℤ) (index : ℕ) : List TabStopOperation → List (TabStopKey × FocusHandle)
  | [] => []
  | .insert handle :: ops =>
    (.of (path ++ [handle.tabIndex]) index, handle) :: placed path (index + 1) ops
  | .group tabIndex :: ops => placed (path ++ [tabIndex]) (index + 1) ops
  | .groupEnd :: ops => placed path.dropLast (index + 1) ops

def tabOrder (ops : List TabStopOperation) : List (TabStopKey × FocusHandle) :=
  (placed [] 0 ops).mergeSort (fun a b => a.1 ≤ b.1)

def stopsOf (order : List (TabStopKey × FocusHandle)) : List FocusHandle :=
  (order.map Prod.snd).filter FocusHandle.tabStop

def tabStops (ops : List TabStopOperation) : List FocusHandle := stopsOf (tabOrder ops)

def traverse (step : Option ℕ → Option (Option FocusHandle)) :
    ℕ → Option ℕ → Option (List FocusHandle)
  | 0, _ => some []
  | count + 1, focusedId => do
    match ← step focusedId with
    | some handle => return handle :: (← traverse step count (some handle.id))
    | none => none

end GpuiFast
