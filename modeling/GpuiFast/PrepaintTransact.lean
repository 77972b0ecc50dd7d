import GpuiFast.DispatchTree

/-! A prepaint run under `transact` adds to the frame being drawn; if it fails, what it added is
truncated away, so that it can be tried again. Hitboxes, tooltips, deferred draws, element states
and lines, `V`, and the data of accessibility nodes, `N`, are only carried along. Stacks are kept
innermost first. -/

namespace GpuiFast

namespace DispatchTree

variable {C L : Type*}

def forgetFocusIds (nodes : List (DispatchNode C L)) (ids : KeyMap FocusId ℕ) : KeyMap FocusId ℕ :=
  nodes.foldl (fun ids node => match node.focusId with
    | some focusId => ids.filter fun key _ => key ≠ focusId
    | none => ids) ids

def forgetViewIds (nodes : List (DispatchNode C L)) (ids : KeyMap EntityId ℕ) : KeyMap EntityId ℕ :=
  nodes.foldl (fun ids node => match node.viewId with
    | some viewId => ids.filter fun key _ => key ≠ viewId
    | none => ids) ids

def truncate (t : DispatchTree C L) (index : ℕ) : DispatchTree C L :=
  { t with
    focusableNodeIds := forgetFocusIds (t.nodes.drop index) t.focusableNodeIds
    viewNodeIds := forgetViewIds (t.nodes.drop index) t.viewNodeIds
    nodes := t.nodes.take index }

end DispatchTree

structure A11yNode (N : Type*) where
  id : ℕ
  data : N
  children : List ℕ

inductive A11yOp where
  | push (id : ℕ)
  | leaf (index : ℕ)
  | pop (index : ℕ)

structure A11yNodeBuilder (N : Type*) where
  nodesStack : List (A11yNode N)
  allNodes : List (A11yNode N)
  seenIds : List ℕ
  /-- Whether the frame being drawn is logged, and its log. -/
  recording : Bool
  ops : List A11yOp
  replayOpen : List Bool

namespace A11yNodeBuilder

variable {N : Type*}

def pushChild (id : ℕ) : List (A11yNode N) → List (A11yNode N)
  | [] => []
  | node :: nodes => { node with children := node.children ++ [id] } :: nodes

def log (builder : A11yNodeBuilder N) (op : A11yOp) : A11yNodeBuilder N :=
  if builder.recording then { builder with ops := builder.ops ++ [op] } else builder

def push (builder : A11yNodeBuilder N) (id : ℕ) (data : N) : A11yNodeBuilder N × Bool :=
  if id ∈ builder.seenIds then (builder, false)
  else
    ({ builder.log (.push id) with
      seenIds := id :: builder.seenIds
      nodesStack := ⟨id, data, []⟩ :: pushChild id builder.nodesStack }, true)

def pushLeaf (builder : A11yNodeBuilder N) (node : A11yNode N) : A11yNodeBuilder N :=
  if node.id ∈ builder.seenIds then builder
  else
    { builder.log (.leaf builder.allNodes.length) with
      seenIds := node.id :: builder.seenIds
      nodesStack := pushChild node.id builder.nodesStack
      allNodes := builder.allNodes ++ [node] }

def pop (builder : A11yNodeBuilder N) : A11yNodeBuilder N :=
  match builder.nodesStack with
  | [] => builder
  | node :: nodes =>
    { builder.log (.pop builder.allNodes.length) with
      nodesStack := nodes
      allNodes := builder.allNodes ++ [node] }

def become (builder : A11yNodeBuilder N) (node : Option (A11yNode N)) : A11yNodeBuilder N :=
  match builder.nodesStack, node with
  | current :: nodes, some node =>
    { builder with nodesStack := { current with data := node.data } :: nodes }
  | _, _ => builder

/-- Does again one of the things last frame logged, whose nodes are given. -/
def replayOp [Inhabited N] (nodes : List (A11yNode N)) (builder : A11yNodeBuilder N) :
    A11yOp → A11yNodeBuilder N
  | .push id =>
    let (builder, pushed) := builder.push id default
    { builder with replayOpen := pushed :: builder.replayOpen }
  | .leaf index =>
    match nodes[index]? with
    | none => builder
    | some node => builder.pushLeaf node
  | .pop index =>
    match builder.replayOpen with
    | [] => builder
    | false :: replayOpen => { builder with replayOpen }
    | true :: replayOpen => ({ builder with replayOpen }.become nodes[index]?).pop

end A11yNodeBuilder

structure PrepaintStateIndex where
  hitboxes : ℕ
  tooltips : ℕ
  deferredDraws : ℕ
  dispatchTree : ℕ
  accessedElementStates : ℕ
  lines : ℕ
  wrappedLines : ℕ
  a11y : ℕ

structure PrepaintDeferredDraw (V : Type*) where
  parentNode : ℕ
  draw : V

inductive PaintStatus where
  | unpainted | pending | painted
  deriving DecidableEq

structure RetainedSubtree where
  id : ℕ
  paint : PaintStatus
  deriving DecidableEq

structure PrepaintFrame (V C L : Type*) where
  hitboxes : List V
  tooltipRequests : List (Option V)
  deferredDraws : List (PrepaintDeferredDraw V)
  dispatchTree : DispatchTree C L
  accessedElementStates : List V
  focus : Option FocusId
  records : List RetainedSubtree

structure PrepaintWindow (V N C L : Type*) where
  renderedFrame : PrepaintFrame V C L
  nextFrame : PrepaintFrame V C L
  /-- The lines the frame being drawn uses, and those the last one used. -/
  lines : List V
  previousLines : List V
  wrappedLines : List V
  previousWrappedLines : List V
  focus : Option FocusId
  a11y : A11yNodeBuilder N
  /-- Whether accessibility is active and the last frame was logged. -/
  a11yReplays : Bool
  previousOps : List A11yOp
  previousNodes : List (A11yNode N)

inductive PrepaintOp (V N : Type*) where
  | insertHitbox (hitbox : V)
  | setTooltip (tooltip : V)
  | deferDraw (draw : V)
  | accessElementState (key : V)
  | layoutLine (line : V)
  | layoutWrappedLine (line : V)
  | pushNode (viewId : Option EntityId) (focusId : Option FocusId)
  | popNode
  | pushA11y (id : ℕ) (data : N)
  | pushLeafA11y (node : A11yNode N)
  | popA11y
  | beginRetained (id : ℕ) (insideLayer : Bool)
  /-- Copies a range of the last frame's prepaint, and the records of the subtree it is of and of
  those nested in it. -/
  | reusePrepaint (start stop : PrepaintStateIndex) (records : List RetainedSubtree)

namespace PrepaintWindow

variable {V N C L : Type*}

def prepaintIndex (window : PrepaintWindow V N C L) : PrepaintStateIndex where
  hitboxes := window.nextFrame.hitboxes.length
  tooltips := window.nextFrame.tooltipRequests.length
  deferredDraws := window.nextFrame.deferredDraws.length
  dispatchTree := window.nextFrame.dispatchTree.nodes.length
  accessedElementStates := window.nextFrame.accessedElementStates.length
  lines := window.lines.length
  wrappedLines := window.wrappedLines.length
  a11y := window.a11y.ops.length

/-- Runs `f` on the frame being drawn. -/
def next (window : PrepaintWindow V N C L) (f : PrepaintFrame V C L → PrepaintFrame V C L) :
    PrepaintWindow V N C L :=
  { window with nextFrame := f window.nextFrame }

def setFocusHandle (window : PrepaintWindow V N C L) (focusId : FocusId) : PrepaintWindow V N C L :=
  window.next fun frame =>
    { frame with
      focus := if window.focus = some focusId then some focusId else frame.focus
      dispatchTree := frame.dispatchTree.setFocusId focusId }

def pushNode (window : PrepaintWindow V N C L) (viewId : Option EntityId)
    (focusId : Option FocusId) : PrepaintWindow V N C L :=
  let window := window.next fun frame =>
    { frame with dispatchTree := frame.dispatchTree.pushNode }
  let window := match viewId with
    | none => window
    | some viewId => window.next fun frame =>
      { frame with dispatchTree := frame.dispatchTree.setViewId viewId }
  match focusId with
  | none => window
  | some focusId => window.setFocusHandle focusId

def pushRecord (records : List RetainedSubtree) (record : RetainedSubtree) : List RetainedSubtree :=
  records.modify (records.findIdx (·.id = record.id))
    (fun other => { other with paint := .unpainted }) ++ [record]

def beginRetained (window : PrepaintWindow V N C L) (id : ℕ) (insideLayer : Bool) :
    PrepaintWindow V N C L :=
  if (window.nextFrame.records.any (·.id = id)) || insideLayer then window
  else
    window.next fun frame => { frame with records := pushRecord frame.records ⟨id, .unpainted⟩ }

/-- The entries of a list from `start` to `stop`. -/
def slice {α : Type*} (entries : List α) (start stop : ℕ) : List α :=
  (entries.drop start).take (stop - start)

/-- A list whose entries from `start` to `stop` were taken. -/
def takeSlice {α : Type*} (entries : List (Option α)) (start stop : ℕ) : List (Option α) :=
  entries.mapIdx fun index entry => if start ≤ index ∧ index < stop then none else entry

variable [Inhabited N]

def reusePrepaint (window : PrepaintWindow V N C L) (start stop : PrepaintStateIndex)
    (records : List RetainedSubtree) : PrepaintWindow V N C L :=
  let rendered := window.renderedFrame
  let frame := window.nextFrame
  let copied := frame.dispatchTree.copyNodes rendered.dispatchTree start.dispatchTree
    stop.dispatchTree none window.focus
  { window with
    a11y :=
      if window.a11yReplays then
        (slice window.previousOps start.a11y stop.a11y).foldl
          (A11yNodeBuilder.replayOp window.previousNodes) window.a11y
      else window.a11y
    lines := window.lines ++ slice window.previousLines start.lines stop.lines
    wrappedLines := window.wrappedLines ++
      slice window.previousWrappedLines start.wrappedLines stop.wrappedLines
    renderedFrame :=
      { rendered with
        tooltipRequests := takeSlice rendered.tooltipRequests start.tooltips stop.tooltips
        dispatchTree := copied.source }
    nextFrame :=
      { hitboxes := frame.hitboxes ++ slice rendered.hitboxes start.hitboxes stop.hitboxes
        tooltipRequests := frame.tooltipRequests ++
          slice rendered.tooltipRequests start.tooltips stop.tooltips
        accessedElementStates := frame.accessedElementStates ++
          slice rendered.accessedElementStates start.accessedElementStates
            stop.accessedElementStates
        dispatchTree := copied.target
        focus := if copied.containsFocus then window.focus else frame.focus
        deferredDraws := frame.deferredDraws ++
          (slice rendered.deferredDraws start.deferredDraws stop.deferredDraws).map fun draw =>
            { draw with
              parentNode :=
                draw.parentNode - start.dispatchTree + frame.dispatchTree.nodes.length }
        records := records.foldl pushRecord frame.records } }

def step (window : PrepaintWindow V N C L) : PrepaintOp V N → PrepaintWindow V N C L
  | .insertHitbox hitbox =>
    window.next fun frame => { frame with hitboxes := frame.hitboxes ++ [hitbox] }
  | .setTooltip tooltip =>
    window.next fun frame =>
      { frame with tooltipRequests := frame.tooltipRequests ++ [some tooltip] }
  | .deferDraw draw =>
    window.next fun frame =>
      { frame with
        deferredDraws := frame.deferredDraws ++
          [⟨frame.dispatchTree.nodeStack.head?.getD 0, draw⟩] }
  | .accessElementState key =>
    window.next fun frame =>
      { frame with accessedElementStates := frame.accessedElementStates ++ [key] }
  | .layoutLine line => { window with lines := window.lines ++ [line] }
  | .layoutWrappedLine line => { window with wrappedLines := window.wrappedLines ++ [line] }
  | .pushNode viewId focusId => window.pushNode viewId focusId
  | .popNode => window.next fun frame => { frame with dispatchTree := frame.dispatchTree.popNode }
  | .pushA11y id data => { window with a11y := (window.a11y.push id data).1 }
  | .pushLeafA11y node => { window with a11y := window.a11y.pushLeaf node }
  | .popA11y => { window with a11y := window.a11y.pop }
  | .beginRetained id insideLayer => window.beginRetained id insideLayer
  | .reusePrepaint start stop records => window.reusePrepaint start stop records

/-- Truncates what was added since `index`. -/
def truncateTo (window : PrepaintWindow V N C L) (index : PrepaintStateIndex) :
    PrepaintWindow V N C L :=
  { window with
    lines := window.lines.take index.lines
    wrappedLines := window.wrappedLines.take index.wrappedLines
    nextFrame :=
      { window.nextFrame with
        hitboxes := window.nextFrame.hitboxes.take index.hitboxes
        tooltipRequests := window.nextFrame.tooltipRequests.take index.tooltips
        deferredDraws := window.nextFrame.deferredDraws.take index.deferredDraws
        dispatchTree := window.nextFrame.dispatchTree.truncate index.dispatchTree
        accessedElementStates :=
          window.nextFrame.accessedElementStates.take index.accessedElementStates } }

/-- Runs a prepaint that does `ops` and returns whether it succeeded; if it did not, what it added
is taken back. -/
def transact (window : PrepaintWindow V N C L) (ops : List (PrepaintOp V N)) (ok : Bool) :
    PrepaintWindow V N C L :=
  let index := window.prepaintIndex
  let result := ops.foldl step window
  if ok then result else result.truncateTo index

end PrepaintWindow

end GpuiFast
