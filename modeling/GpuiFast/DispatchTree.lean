import Mathlib
import GpuiFast.KeyMap

/-! A frame's dispatch nodes in the order they were pushed, with the stacks of the nodes still open.
`copyNodes` copies a stretch of last frame's nodes in one pass, `copyOneByOne` pops to each node's
parent and pushes it in turn. Stacks are kept innermost first. Key contexts `C` and listeners `L`
are only carried along. -/

namespace GpuiFast

abbrev FocusId := UInt64
abbrev EntityId := UInt64

structure DispatchNode (C L : Type*) where
  keyListeners : List L
  actionListeners : List L
  modifiersChangedListeners : List L
  context : Option C
  focusId : Option FocusId
  viewId : Option EntityId
  parent : Option ℕ

structure DispatchTree (C L : Type*) where
  nodeStack : List ℕ
  contextStack : List C
  viewStack : List EntityId
  nodes : List (DispatchNode C L)
  focusableNodeIds : KeyMap FocusId ℕ
  viewNodeIds : KeyMap EntityId ℕ

namespace DispatchTree

variable {C L : Type*}

def new : DispatchTree C L := ⟨[], [], [], [], .empty, .empty⟩

def modifyNode (t : DispatchTree C L) (id : ℕ) (f : DispatchNode C L → DispatchNode C L) :
    DispatchTree C L :=
  { t with nodes := t.nodes.modify id f }

def pushNode (t : DispatchTree C L) : DispatchTree C L :=
  { t with
    nodes := t.nodes ++ [⟨[], [], [], none, none, none, t.nodeStack.head?⟩]
    nodeStack := t.nodes.length :: t.nodeStack }

def setKeyContext (t : DispatchTree C L) (context : C) : DispatchTree C L :=
  match t.nodeStack with
  | [] => t
  | id :: _ =>
    let t := t.modifyNode id (fun node => { node with context := some context })
    { t with contextStack := context :: t.contextStack }

def setFocusId (t : DispatchTree C L) (focusId : FocusId) : DispatchTree C L :=
  match t.nodeStack with
  | [] => t
  | id :: _ =>
    let t := t.modifyNode id (fun node => { node with focusId := some focusId })
    { t with focusableNodeIds := t.focusableNodeIds.insert focusId id }

def setViewId (t : DispatchTree C L) (viewId : EntityId) : DispatchTree C L :=
  if t.viewStack.head? ≠ some viewId then
    match t.nodeStack with
    | [] => t
    | id :: _ =>
      let t := t.modifyNode id (fun node => { node with viewId := some viewId })
      { t with
        viewNodeIds := t.viewNodeIds.insert viewId id
        viewStack := viewId :: t.viewStack }
  else t

def contextOf (nodes : List (DispatchNode C L)) (id : ℕ) : Option C := nodes[id]?.bind (·.context)

def viewOf (nodes : List (DispatchNode C L)) (id : ℕ) : Option EntityId := nodes[id]?.bind (·.viewId)

def parentOf (nodes : List (DispatchNode C L)) (id : ℕ) : Option ℕ := nodes[id]?.bind (·.parent)

def popNode (t : DispatchTree C L) : DispatchTree C L :=
  match t.nodeStack with
  | [] => t
  | id :: below =>
    { t with
      contextStack := if (contextOf t.nodes id).isSome then t.contextStack.tail else t.contextStack
      viewStack := if (viewOf t.nodes id).isSome then t.viewStack.tail else t.viewStack
      nodeStack := below }

def modifyActive (t : DispatchTree C L) (f : DispatchNode C L → DispatchNode C L) : DispatchTree C L :=
  match t.nodeStack with
  | [] => t
  | id :: _ => t.modifyNode id f

def onKeyEvent (t : DispatchTree C L) (listener : L) : DispatchTree C L :=
  t.modifyActive (fun node => { node with keyListeners := node.keyListeners ++ [listener] })

def onModifiersChanged (t : DispatchTree C L) (listener : L) : DispatchTree C L :=
  t.modifyActive (fun node =>
    { node with modifiersChangedListeners := node.modifiersChangedListeners ++ [listener] })

def onAction (t : DispatchTree C L) (listener : L) : DispatchTree C L :=
  t.modifyActive (fun node => { node with actionListeners := node.actionListeners ++ [listener] })

/-- Closes open nodes until the innermost is `parent`, or none is. -/
def unwindTo (parent : Option ℕ) : List ℕ → DispatchTree C L → List ℕ × DispatchTree C L
  | [], t => ([], t)
  | last :: below, t =>
    if some last = parent then (last :: below, t) else unwindTo parent below t.popNode

/-- The view of the innermost node from `node` outwards that has one. -/
def innermostView (nodes : List (DispatchNode C L)) : (fuel : ℕ) → (node : Option ℕ) → Option EntityId
  | 0, _ => none
  | _, none => none
  | fuel + 1, some id =>
    match viewOf nodes id with
    | some viewId => some viewId
    | none => innermostView nodes fuel (parentOf nodes id)

def DispatchNode.taken (node : DispatchNode C L) : DispatchNode C L :=
  { node with keyListeners := [], actionListeners := [], modifiersChangedListeners := [] }

structure Copied (C L : Type*) where
  target : DispatchTree C L
  source : DispatchTree C L
  openNodes : List ℕ
  containsFocus : Bool

/-- The nodes from `node` outwards, innermost first, as long as they do not come before `start`. -/
def copiedChain (nodes : List (DispatchNode C L)) (start : ℕ) : (fuel : ℕ) → (node : Option ℕ) → List ℕ
  | 0, _ => []
  | _, none => []
  | fuel + 1, some id =>
    if start ≤ id then id :: copiedChain nodes start fuel (parentOf nodes id) else []

def reopen (t : DispatchTree C L) (id : ℕ) : DispatchTree C L :=
  { t with
    nodeStack := id :: t.nodeStack
    contextStack := (contextOf t.nodes id).toList ++ t.contextStack
    viewStack := (viewOf t.nodes id).toList ++ t.viewStack }

/-- Makes `id` the active node again, as a deferred draw does for the node it hangs off. -/
def setActiveNode (t : DispatchTree C L) (id : ℕ) : DispatchTree C L :=
  let parent := parentOf t.nodes id
  let t := popNode^[t.nodeStack.findIdx (fun node => some node = parent)] t
  if t.nodeStack.head? = parent then t.reopen id
  else (copiedChain t.nodes 0 t.nodes.length (some id)).foldr (fun id t => t.reopen id) t

/-- Pushes a node of `source` onto `target`. -/
def moveNode (target : DispatchTree C L) (node : DispatchNode C L) : DispatchTree C L :=
  let t := target.pushNode
  let t := match node.context with
    | some context => t.setKeyContext context
    | none => t
  let t := match node.focusId with
    | some focusId => t.setFocusId focusId
    | none => t
  let t := match node.viewId with
    | some viewId => t.setViewId viewId
    | none => t
  t.modifyNode (t.nodes.length - 1) (fun last =>
    { last with
      keyListeners := node.keyListeners
      actionListeners := node.actionListeners
      modifiersChangedListeners := node.modifiersChangedListeners })

def holdsFocus (node : DispatchNode C L) (focus : Option FocusId) : Bool :=
  node.focusId.isSome && node.focusId = focus

def copyOne (focus : Option FocusId) (s : Copied C L) (index : ℕ) : Copied C L :=
  match s.source.nodes[index]? with
  | none => s
  | some node =>
    let (openNodes, target) := unwindTo node.parent s.openNodes s.target
    { target := target.moveNode node
      source := s.source.modifyNode index DispatchNode.taken
      openNodes := index :: openNodes
      containsFocus := s.containsFocus || holdsFocus node focus }

/-- Node-by-node copying of the nodes from `lo` up to `hi`, left open. -/
def copyOneByOne (target source : DispatchTree C L) (lo hi : ℕ) (openNodes : List ℕ)
    (focus : Option FocusId) : Copied C L :=
  (List.range' lo (hi - lo)).foldl (copyOne focus) ⟨target, source, openNodes, false⟩

def copyOneByOneClosed (target source : DispatchTree C L) (lo hi : ℕ) (focus : Option FocusId) :
    Copied C L :=
  let s := copyOneByOne target source lo hi [] focus
  { s with target := popNode^[s.openNodes.length] s.target, openNodes := [] }

/-- The copy under way: the target's stacks are not touched until it ends. -/
structure Copying (C L : Type*) where
  target : DispatchTree C L
  source : DispatchTree C L
  stillOpen : ℕ
  containsFocus : Bool

/-- How many of `openNodes` stay open for a node that hangs off `parent`, none of them copied
in this stretch: it closes the ones above `parent`, or all of them. -/
def leftOpen (openNodes : List ℕ) (stillOpen : ℕ) (parent : Option ℕ) : ℕ :=
  match (openNodes.drop (openNodes.length - stillOpen)).findIdx? (fun node => some node = parent) with
  | some above => stillOpen - above
  | none => 0

/-- Where a node of last frame's `parent` hangs now, and how many of `openNodes` stay open: a
parent in the stretch moved by as much as the stretch did. -/
def hang (lo hi start : ℕ) (openNodes nodeStack : List ℕ) (stillOpen : ℕ) (parent : Option ℕ) :
    Option ℕ × ℕ :=
  match parent.filter (fun parent => lo ≤ parent ∧ parent < hi) with
  | some parent => (some (parent - lo + start), stillOpen)
  | none =>
    let stillOpen := leftOpen openNodes stillOpen parent
    (nodeStack[openNodes.length - stillOpen]?, stillOpen)

/-- Writes `node` after the others, under `parent`; the stacks are not touched. -/
def place (t : DispatchTree C L) (node : DispatchNode C L) (parent : Option ℕ)
    (viewId : Option EntityId) : DispatchTree C L :=
  { t with
    focusableNodeIds := match node.focusId with
      | some focusId => t.focusableNodeIds.insert focusId t.nodes.length
      | none => t.focusableNodeIds
    viewNodeIds := match viewId with
      | some viewId => t.viewNodeIds.insert viewId t.nodes.length
      | none => t.viewNodeIds
    nodes := t.nodes ++ [{ node with viewId := viewId, parent := parent }] }

def copyNode (lo hi start : ℕ) (openNodes : List ℕ) (focus : Option FocusId) (s : Copying C L)
    (index : ℕ) : Copying C L :=
  match s.source.nodes[index]? with
  | none => s
  | some node =>
    let (parent, stillOpen) := hang lo hi start openNodes s.target.nodeStack s.stillOpen node.parent
    let viewId := node.viewId.filter (fun viewId =>
      innermostView s.target.nodes s.target.nodes.length parent ≠ some viewId)
    { target := s.target.place node parent viewId
      source := s.source.modifyNode index DispatchNode.taken
      stillOpen := stillOpen
      containsFocus := s.containsFocus || holdsFocus node focus }

/-- Copies `source`'s nodes from `lo` up to `hi` in one pass. With `openNodes`, the copy is left
open; without, the target's stacks are left as they were. -/
def copyNodes (target source : DispatchTree C L) (lo hi : ℕ) (openNodes : Option (List ℕ))
    (focus : Option FocusId) : Copied C L :=
  let start := target.nodes.length
  let before := openNodes.getD []
  let s := (List.range' lo (hi - lo)).foldl (copyNode lo hi start before focus)
    ⟨target, source, before.length, false⟩
  match openNodes with
  | none => ⟨s.target, s.source, [], s.containsFocus⟩
  | some openNodes =>
    -- close what the copy closed, then open the last node copied and its ancestors in the copy
    let closed := openNodes.length - s.stillOpen
    let target := popNode^[closed] s.target
    let last := target.nodes.length
    let chain := if start < last then copiedChain target.nodes start last (some (last - 1)) else []
    { target := chain.foldr (fun id t => t.reopen id) target
      source := s.source
      openNodes := chain.map (fun id => id - start + lo) ++ openNodes.drop closed
      containsFocus := s.containsFocus }

end DispatchTree

end GpuiFast
