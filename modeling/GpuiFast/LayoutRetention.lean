import Mathlib
import GpuiFast.KeyMap

/-! The retained half of the layout engine: nodes are kept under keys that name an element's place
in the element tree, stamped with the frame that last claimed them, and swept at the end of a
frame. Styles and measurements are left out, since nothing here reads them. Frame arithmetic is
the wrapping one of a release build. -/

namespace GpuiFast

abbrev LayoutId := UInt64
abbrev LayoutKey := UInt64

/-- A tree of the layout crate, by what is asked of it here: `none` is an error, or a panic of the
crate's own. `nodes` is what the tree holds. -/
class TaffyTree (T : Type*) where
  new : T
  newLeaf : T → Option (T × LayoutId)
  parent : T → LayoutId → Option LayoutId
  childIds : T → LayoutId → List LayoutId
  setChildren : T → LayoutId → List LayoutId → Option T
  remove : T → LayoutId → Option T
  nodes : T → Finset LayoutId

/-- What the crate documents of the trees these operations make. -/
class LawfulTaffyTree (T : Type*) [TaffyTree T] : Prop where
  nodes_new : TaffyTree.nodes (TaffyTree.new : T) = ∅
  /-- A new node has an identifier of its own. -/
  newLeaf_spec : ∀ (t t' : T) (id : LayoutId), TaffyTree.newLeaf t = some (t', id) →
    id ∉ TaffyTree.nodes t ∧ TaffyTree.nodes t' = insert id (TaffyTree.nodes t)
  nodes_setChildren : ∀ (t t' : T) (id : LayoutId) (children : List LayoutId),
    TaffyTree.setChildren t id children = some t' → TaffyTree.nodes t' = TaffyTree.nodes t
  /-- A node in the tree is removed, and no other is. -/
  remove_spec : ∀ (t : T) (id : LayoutId), id ∈ TaffyTree.nodes t →
    ∃ t', TaffyTree.remove t id = some t' ∧ TaffyTree.nodes t' = (TaffyTree.nodes t).erase id

structure RetainedNode where
  id : LayoutId
  claimedInFrame : UInt64
  /-- Whether the node was claimed laying out a list row. -/
  lingers : Bool

structure LayoutStats where
  frames : ℕ
  nodesCreated : ℕ
  nodesReused : ℕ
  nodesFreed : ℕ
  childrenWrites : ℕ

def LIST_ROW_NODE_LINGER_FRAMES : UInt64 := 240

structure LayoutEngine (T : Type*) where
  taffy : T
  retained : KeyMap LayoutKey RetainedNode
  transient : List LayoutId
  frame : UInt64
  claimedThisFrame : ℕ
  claimedKeyLog : List LayoutKey
  openKeyRecordings : ℕ
  stats : LayoutStats
  layoutChanges : ℕ
  listRows : ℕ
  robbedParents : List LayoutId

/-- What `claim` found for an element's key. -/
inductive Claim where
  | reused (key : LayoutKey) (id : LayoutId)
  | vacant (key : LayoutKey)
  | unkeyed

namespace LayoutEngine

variable {T : Type*}

def new [TaffyTree T] : LayoutEngine T where
  taffy := TaffyTree.new
  retained := .empty
  transient := []
  frame := 0
  claimedThisFrame := 0
  claimedKeyLog := []
  openKeyRecordings := 0
  stats := ⟨0, 0, 0, 0, 0⟩
  layoutChanges := 0
  listRows := 0
  robbedParents := []

def logKey (e : LayoutEngine T) (key : LayoutKey) : LayoutEngine T :=
  if 0 < e.openKeyRecordings then { e with claimedKeyLog := e.claimedKeyLog ++ [key] } else e

/-- Stamps the node under `key` with the current frame and counts it. -/
def stamp (e : LayoutEngine T) (key : LayoutKey) (lingers : Bool) : LayoutEngine T :=
  { e with
    retained := e.retained.modify key (fun node =>
      { node with claimedInFrame := e.frame, lingers := node.lingers || lingers })
    claimedThisFrame := e.claimedThisFrame + 1 }

/-- Takes the node retained under `key` for use in this frame. -/
def claim (e : LayoutEngine T) : Option LayoutKey → LayoutEngine T × Claim
  | none => (e, .unkeyed)
  | some key =>
    match e.retained.get? key with
    | none => (e, .vacant key)
    | some node =>
      -- two elements resolved to one key: the second goes unkeyed
      if node.claimedInFrame = e.frame then (e, .unkeyed)
      else
        let e := e.stamp key (decide (0 < e.listRows))
        let e := { e with stats := { e.stats with nodesReused := e.stats.nodesReused + 1 } }
        (e.logKey key, .reused key node.id)

def recordClaimedKeys (e : LayoutEngine T) : LayoutEngine T × ℕ :=
  ({ e with openKeyRecordings := e.openKeyRecordings + 1 }, e.claimedKeyLog.length)

def finishRecordingClaimedKeys (e : LayoutEngine T) (start : ℕ) : LayoutEngine T × List LayoutKey :=
  let keys := e.claimedKeyLog.drop start
  let e := { e with openKeyRecordings := e.openKeyRecordings - 1 }
  (if e.openKeyRecordings = 0 then { e with claimedKeyLog := [] } else e, keys)

def keepOne (e : LayoutEngine T) (key : LayoutKey) : LayoutEngine T :=
  match e.retained.get? key with
  | none => e
  | some node => if node.claimedInFrame ≠ e.frame then (e.stamp key false).logKey key else e

/-- Keeps the nodes under `keys` for another frame without requesting them. -/
def keepRetained (e : LayoutEngine T) (keys : List LayoutKey) : LayoutEngine T :=
  keys.foldl keepOne e

def adoptOne (e : LayoutEngine T) (key : LayoutKey) : LayoutEngine T :=
  match e.retained.get? key with
  | none => e
  | some node =>
    (if node.claimedInFrame ≠ e.frame then e.stamp key false else e).logKey key

def adoptClaimed (e : LayoutEngine T) (keys : List LayoutKey) : LayoutEngine T :=
  keys.foldl adoptOne e

/-- Whether every one of `keys` is retained, unclaimed this frame and not robbed of a child. -/
def allThere (e : LayoutEngine T) (keys : List LayoutKey) : Bool :=
  keys.all (fun key => (e.retained.get? key).any (fun node =>
    node.claimedInFrame ≠ e.frame ∧ (e.robbedParents = [] ∨ node.id ∉ e.robbedParents)))

def tryKeepRetained (e : LayoutEngine T) (keys : List LayoutKey) : LayoutEngine T × Bool :=
  if e.allThere keys then
    let e := e.keepRetained keys
    ({ e with stats := { e.stats with nodesReused := e.stats.nodesReused + keys.length } }, true)
  else (e, false)

def releaseOne (e : LayoutEngine T) (key : LayoutKey) : LayoutEngine T :=
  match e.retained.get? key with
  | none => e
  | some node =>
    if node.claimedInFrame = e.frame then
      { e with
        retained := e.retained.modify key (fun node =>
          { node with claimedInFrame := e.frame - 1 })
        claimedThisFrame := e.claimedThisFrame - 1
        stats := { e.stats with nodesReused := e.stats.nodesReused - 1 } }
    else e

/-- Undoes `tryKeepRetained` for `keys`. -/
def releaseKept (e : LayoutEngine T) (keys : List LayoutKey) : LayoutEngine T :=
  keys.foldl releaseOne e

/-- Records a freshly allocated node under `key`, or as transient. -/
def retain (e : LayoutEngine T) (key : Option LayoutKey) (id : LayoutId) : LayoutEngine T :=
  match key with
  | none => { e with transient := e.transient ++ [id] }
  | some key =>
    let e := { e with
      retained := e.retained.insert key ⟨id, e.frame, decide (0 < e.listRows)⟩
      claimedThisFrame := e.claimedThisFrame + 1 }
    e.logKey key

section Tree

variable [TaffyTree T]

/-- A fresh leaf, counted, and the identifier the tree gave it. -/
def newLeaf (e : LayoutEngine T) : Option (LayoutEngine T × LayoutId) :=
  (TaffyTree.newLeaf e.taffy).map (fun leaf =>
    ({ e with
      taffy := leaf.1
      stats := { e.stats with nodesCreated := e.stats.nodesCreated + 1 }
      layoutChanges := e.layoutChanges + 1 }, leaf.2))

/-- Gives `id` its `children`, noting each node a child is taken from. -/
def setChildren (e : LayoutEngine T) (id : LayoutId) (children : List LayoutId) :
    Option (LayoutEngine T) :=
  (TaffyTree.setChildren e.taffy id children).map (fun taffy =>
    { e with
      robbedParents := children.foldl (fun robbed child =>
        match TaffyTree.parent e.taffy child with
        | some parent => if parent ≠ id then robbed.insert parent else robbed
        | none => robbed) e.robbedParents
      taffy := taffy })

def applyChildren (e : LayoutEngine T) (id : LayoutId) (children : List LayoutId) :
    Option (LayoutEngine T) :=
  let e := { e with robbedParents := e.robbedParents.erase id }
  if TaffyTree.childIds e.taffy id = children then some e
  else
    let e := { e with
      stats := { e.stats with childrenWrites := e.stats.childrenWrites + 1 }
      layoutChanges := e.layoutChanges + 1 }
    e.setChildren id children

/-- Whether the sweep at the end of `frame` leaves `node` in place. -/
def staysAfter (frame : UInt64) (node : RetainedNode) : Bool :=
  node.claimedInFrame = frame ∨
    node.lingers ∧ frame - node.claimedInFrame < LIST_ROW_NODE_LINGER_FRAMES

def freeNode (e : LayoutEngine T) (id : LayoutId) : Option (LayoutEngine T) :=
  (TaffyTree.remove e.taffy id).map (fun taffy =>
    { e with
      robbedParents := e.robbedParents.erase id
      taffy := taffy
      stats := { e.stats with nodesFreed := e.stats.nodesFreed + 1 } })

def releaseUnclaimedNodes (e : LayoutEngine T) : Option (LayoutEngine T) := do
  let e := { e with stats := { e.stats with frames := e.stats.frames + 1 } }
  let e ← e.transient.foldlM freeNode { e with transient := [] }
  let e ←
    -- in a steady frame every retained node was claimed, and there is nothing to sweep
    if e.retained.size ≠ e.claimedThisFrame then do
      let gone := e.retained.entries.filter (fun entry => !staysAfter e.frame entry.2)
      let swept ← (gone.map (fun entry => entry.2.id)).foldlM freeNode e
      pure { swept with retained := e.retained.filter (fun _ node => staysAfter e.frame node) }
    else pure e
  pure { e with claimedThisFrame := 0, frame := e.frame + 1 }

end Tree

end LayoutEngine

end GpuiFast
