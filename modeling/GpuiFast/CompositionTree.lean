import GpuiFast.Forest
import GpuiFast.KeyMap
import GpuiFast.SurfaceStarts

/-! The surfaces of a window as a forest ordered bottom to top, and the operations of its composition,
which change the tree, hand its order to the platform, and undo the change if the platform refuses.
An operation that fails leaves what it changed before it failed. What the platform answers is given
with each action; walks along links that have a cycle do not return, which is `none` here. -/

namespace GpuiFast

structure CompositionSurfaceNode (S : Type*) where
  kind : CompositionSurfaceKind
  parent : Option S
  children : List S

structure CompositionTree (S : Type*) where
  surfaces : KeyMap S (CompositionSurfaceNode S)
  roots : List S

namespace CompositionTree

variable {S : Type*} [DecidableEq S]

def doesNotExist : String := "composition surface does not exist"

def new : CompositionTree S := ⟨.empty, []⟩

def len (tree : CompositionTree S) : ℕ := tree.surfaces.size

/-- The children of `parent`, or the roots, bottom to top. -/
def siblings (tree : CompositionTree S) : Option S → Option (List S)
  | none => some tree.roots
  | some p => (tree.surfaces.get? p).map (·.children)

def setSiblings (tree : CompositionTree S) (parent : Option S) (siblings : List S) :
    CompositionTree S :=
  match parent with
  | none => { tree with roots := siblings }
  | some p =>
    { tree with surfaces := tree.surfaces.modify p (fun node => { node with children := siblings }) }

def setParent (tree : CompositionTree S) (surface : S) (parent : Option S) : CompositionTree S :=
  { tree with surfaces := tree.surfaces.modify surface (fun node => { node with parent := parent }) }

/-- Adds a surface above its future siblings, under the id that the slot map hands out. -/
def insert (tree : CompositionTree S) (id : S) (kind : CompositionSurfaceKind)
    (parent : Option S) : CompositionTree S × Except String Unit :=
  match tree.siblings parent with
  | none => (tree, .error doesNotExist)
  | some _ =>
    let tree := { tree with surfaces := tree.surfaces.insert id ⟨kind, parent, []⟩ }
    match tree.siblings parent with
    | none => (tree, .error doesNotExist)
    | some siblings => (tree.setSiblings parent (siblings ++ [id]), .ok ())

def setParents (tree : CompositionTree S) (parent : Option S) :
    List S → CompositionTree S × Except String Unit
  | [] => (tree, .ok ())
  | child :: children =>
    match tree.surfaces.get? child with
    | none => (tree, .error doesNotExist)
    | some _ => setParents (tree.setParent child parent) parent children

def remove (tree : CompositionTree S) (surface : S) : CompositionTree S × Except String Unit :=
  match tree.surfaces.get? surface with
  | none => (tree, .error doesNotExist)
  | some node =>
    match tree.siblings node.parent with
    | none => (tree, .error doesNotExist)
    | some siblings =>
      if surface ∈ siblings then
        let index := siblings.idxOf surface
        let tree := tree.setSiblings node.parent
          (siblings.take index ++ node.children ++ siblings.drop (index + 1))
        match tree.setParents node.parent node.children with
        | (tree, .error error) => (tree, .error error)
        | (tree, .ok ()) =>
          ({ tree with surfaces := tree.surfaces.filter (fun s _ => s ≠ surface) }, .ok ())
      else (tree, .error "composition surface is missing from its parent")

def placeRelative (tree : CompositionTree S) (surface sibling : S) (above : Bool) :
    CompositionTree S × Except String Unit :=
  if surface = sibling then
    (tree, .error "a composition surface cannot be ordered relative to itself")
  else
    match tree.surfaces.get? surface, tree.surfaces.get? sibling with
    | some node, some other =>
      if other.parent ≠ node.parent then
        (tree, .error "composition surfaces must share a parent to be reordered")
      else
        match tree.siblings node.parent with
        | none => (tree, .error doesNotExist)
        | some siblings =>
          let siblings := siblings.filter (· ≠ surface)
          if sibling ∈ siblings then
            let index := siblings.idxOf sibling + above.toNat
            (tree.setSiblings node.parent (siblings.insertIdx index surface), .ok ())
          else
            (tree.setSiblings node.parent siblings,
              .error "composition sibling is missing from its parent")
    | _, _ => (tree, .error doesNotExist)

def placeAbove (tree : CompositionTree S) (surface sibling : S) :
    CompositionTree S × Except String Unit :=
  tree.placeRelative surface sibling true

def placeBelow (tree : CompositionTree S) (surface sibling : S) :
    CompositionTree S × Except String Unit :=
  tree.placeRelative surface sibling false

/-- Whether `ancestor` is met on the way up from `candidate`. -/
def isDescendant (tree : CompositionTree S) (ancestor : S) :
    (fuel : ℕ) → (candidate : S) → Option (Except String Bool)
  | 0, _ => none
  | fuel + 1, candidate =>
    if candidate = ancestor then some (.ok true)
    else
      match tree.surfaces.get? candidate with
      | none => some (.error doesNotExist)
      | some node =>
        match node.parent with
        | none => some (.ok false)
        | some parent => isDescendant tree ancestor fuel parent

/-- Takes a surface from its parent's children and adds it above those of `parent`. -/
def moveUnder (tree : CompositionTree S) (surface : S) (previous parent : Option S) :
    CompositionTree S × Except String Unit :=
  match tree.siblings previous with
  | none => (tree, .error doesNotExist)
  | some siblings =>
    let tree := (tree.setSiblings previous (siblings.filter (· ≠ surface))).setParent surface parent
    match tree.siblings parent with
    | none => (tree, .error doesNotExist)
    | some siblings => (tree.setSiblings parent (siblings ++ [surface]), .ok ())

/-- Moves a surface under `parent`, above the children it has. -/
def reparent (tree : CompositionTree S) (surface : S) (parent : Option S) :
    Option (CompositionTree S × Except String Unit) :=
  match tree.surfaces.get? surface with
  | none => some (tree, .error doesNotExist)
  | some node =>
    match parent with
    | none => some (tree.moveUnder surface node.parent none)
    | some p =>
      match tree.surfaces.get? p with
      | none => some (tree, .error doesNotExist)
      | some _ =>
        if p = surface then some (tree, .error "composition surfaces cannot contain themselves")
        else
          match tree.isDescendant surface (tree.len + 1) p with
          | none => none
          | some (.error error) => some (tree, .error error)
          | some (.ok true) =>
            some (tree, .error "composition surfaces cannot contain themselves")
          | some (.ok false) => some (tree.moveUnder surface node.parent (some p))

def kind (tree : CompositionTree S) (surface : S) : Option CompositionSurfaceKind :=
  (tree.surfaces.get? surface).map (·.kind)

def parent (tree : CompositionTree S) (surface : S) : Option S :=
  (tree.surfaces.get? surface).bind (·.parent)

/-- What is listed under `parent`; nothing under a surface that does not exist. -/
def children (tree : CompositionTree S) (parent : Option S) : List S :=
  (tree.siblings parent).getD []

/-- Every surface, parents before their children, bottom to top. -/
def flattened (tree : CompositionTree S) : Option (List S) :=
  (tree.roots.mapM (flattenFrom tree.children (tree.len + 1))).map List.flatten

end CompositionTree

inductive Host where
  | base
  | overlay
  deriving DecidableEq

structure ManagedPlatformSurface where
  visible : Bool
  host : Host
  /-- Whether `host` changed since the surface was last restacked. -/
  restack : Bool
  deriving DecidableEq

structure WindowCompositionState (S : Type*) where
  tree : CompositionTree S
  platformSurfaces : KeyMap S ManagedPlatformSurface
  baseSurface : S
  overlaySurface : S
  geometryDirty : Bool
  enabled : Bool
  inputOrder : List S

/-- What the platform answers to the calls an operation makes: to creating or enabling, to hiding a
surface, to the new order, to the order before, and to showing the surface again. -/
structure PlatformAnswers where
  creates : Bool
  hides : Bool
  orders : Bool
  ordersBack : Bool
  shows : Bool

namespace WindowCompositionState

variable {S : Type*} [DecidableEq S]

def refused : String := "refused by the platform"

def new (base overlay : S) : WindowCompositionState S where
  tree := ((CompositionTree.new.insert base .gpui none).1.insert overlay .gpui none).1
  platformSurfaces := .empty
  baseSurface := base
  overlaySurface := overlay
  geometryDirty := false
  enabled := false
  inputOrder := []

/-- Whether the tree holds a surface beyond the base and overlay surfaces. -/
def splits (state : WindowCompositionState S) : Bool := decide (2 < state.tree.len)

def platformSurface (state : WindowCompositionState S) (id : S) : Except String S :=
  match state.tree.kind id with
  | none => .error CompositionTree.doesNotExist
  | some .gpui => .ok id
  | some .native =>
    if (state.platformSurfaces.get? id).isSome then .ok id
    else .error "native composition surface is missing"
  | some .externalGpu =>
    if (state.platformSurfaces.get? id).isSome then .ok id
    else .error "external GPU composition surface is missing"

def platformOrder (state : WindowCompositionState S) : Option (Except String (List S)) :=
  state.tree.flattened.map fun ids =>
    (ids.filter (fun id => state.splits || id ≠ state.overlaySurface)).mapM state.platformSurface

def synchronizePlatformOrder (state : WindowCompositionState S) (accepts : Bool) :
    Option (WindowCompositionState S × Except String Unit) :=
  state.platformOrder.map fun
    | .error error => (state, .error error)
    | .ok ids =>
      if accepts then ({ state with geometryDirty := false, inputOrder := ids }, .ok ())
      else (state, .error refused)

def changeTree (state : WindowCompositionState S) (answers : PlatformAnswers) :
    CompositionTree S × Except String Unit → Option (WindowCompositionState S × Except String Unit)
  | (tree, .error error) => some ({ state with tree := tree }, .error error)
  | (tree, .ok ()) => do
    match ← synchronizePlatformOrder { state with tree := tree } answers.orders with
    | (state, .ok ()) => return (state, .ok ())
    | (changed, .error error) =>
      let undone ← synchronizePlatformOrder { changed with tree := state.tree } answers.ordersBack
      return (undone.1, .error error)

def registerPlatformSurface (state : WindowCompositionState S) (id : S)
    (kind : CompositionSurfaceKind) (answers : PlatformAnswers) :
    Option (WindowCompositionState S × Except String Unit) :=
  match state.tree.insert id kind none with
  | (tree, .error error) => some ({ state with tree := tree }, .error error)
  | (tree, .ok ()) =>
    match tree.placeBelow id state.overlaySurface with
    | (tree, .error error) => some ({ state with tree := tree }, .error error)
    | (tree, .ok ()) => do
      let registered :=
        { state with
          tree := tree
          platformSurfaces := state.platformSurfaces.insert id ⟨true, .base, false⟩ }
      match ← registered.synchronizePlatformOrder answers.orders with
      | (state, .ok ()) => return (state, .ok ())
      | (state, .error error) =>
        match state.tree.remove id with
        | (tree, removed) =>
          let state :=
            { state with
              tree := tree
              platformSurfaces := state.platformSurfaces.filter (fun s _ => s ≠ id) }
          match removed with
          | .error error => return (state, .error error)
          | .ok () =>
            let undone ← state.synchronizePlatformOrder answers.ordersBack
            return (undone.1, .error error)

def createNativeSurface (state : WindowCompositionState S) (id : S) (answers : PlatformAnswers) :
    Option (WindowCompositionState S × Except String Unit) :=
  if answers.creates then state.registerPlatformSurface id .native answers
  else some (state, .error refused)

def createExternalGpuSurface (state : WindowCompositionState S) (id : S)
    (answers : PlatformAnswers) : Option (WindowCompositionState S × Except String Unit) :=
  state.registerPlatformSurface id .externalGpu answers

def createGpuiSurface (state : WindowCompositionState S) (id : S) (parent : Option S)
    (answers : PlatformAnswers) : Option (WindowCompositionState S × Except String Unit) :=
  match state.tree.insert id .gpui parent with
  | (tree, .error error) => some ({ state with tree := tree }, .error error)
  | (tree, .ok ()) => do
    match ← synchronizePlatformOrder { state with tree := tree } answers.orders with
    | (state, .ok ()) => return (state, .ok ())
    | (state, .error error) =>
      match state.tree.remove id with
      | (tree, .error error) => return ({ state with tree := tree }, .error error)
      | (tree, .ok ()) =>
        let undone ← synchronizePlatformOrder { state with tree := tree } answers.ordersBack
        return (undone.1, .error error)

def placeAbove (state : WindowCompositionState S) (surface sibling : S)
    (answers : PlatformAnswers) : Option (WindowCompositionState S × Except String Unit) :=
  if surface = state.baseSurface then
    some (state, .error "the GPUI base surface cannot be reordered")
  else state.changeTree answers (state.tree.placeAbove surface sibling)

def placeBelow (state : WindowCompositionState S) (surface sibling : S)
    (answers : PlatformAnswers) : Option (WindowCompositionState S × Except String Unit) :=
  if surface = state.baseSurface ∨ sibling = state.baseSurface then
    some (state, .error "surfaces cannot be placed below or move the GPUI base surface")
  else state.changeTree answers (state.tree.placeBelow surface sibling)

def reparent (state : WindowCompositionState S) (surface : S) (parent : Option S)
    (answers : PlatformAnswers) : Option (WindowCompositionState S × Except String Unit) :=
  if surface = state.baseSurface then
    some (state, .error "the GPUI base surface cannot be reparented")
  else do state.changeTree answers (← state.tree.reparent surface parent)

def hide (state : WindowCompositionState S) (surface : S) (hides : Bool) :
    WindowCompositionState S × Except String Unit :=
  match state.platformSurfaces.get? surface with
  | none => (state, .ok ())
  | some platformSurface =>
    if !platformSurface.visible then (state, .ok ())
    else if hides then
      ({ state with
          platformSurfaces :=
            state.platformSurfaces.modify surface (fun s => { s with visible := false })
          geometryDirty := true }, .ok ())
    else (state, .error refused)

def restore (state : WindowCompositionState S) (tree : CompositionTree S) (surface : S)
    (removed : Option ManagedPlatformSurface) (shows : Bool) : WindowCompositionState S :=
  match removed with
  | none => { state with tree := tree }
  | some platformSurface =>
    { state with
      tree := tree
      platformSurfaces := state.platformSurfaces.insert surface
        { platformSurface with visible := platformSurface.visible && shows } }

def removeSurface (state : WindowCompositionState S) (surface : S) (answers : PlatformAnswers) :
    Option (WindowCompositionState S × Except String Unit) :=
  if surface = state.baseSurface ∨ surface = state.overlaySurface then
    some (state, .error "the default GPUI composition surfaces cannot be removed")
  else
    match state.hide surface answers.hides with
    | (state, .error error) => some (state, .error error)
    | (hidden, .ok ()) =>
      match hidden.tree.remove surface with
      | (tree, .error error) => some ({ hidden with tree := tree }, .error error)
      | (tree, .ok ()) => do
        let removed :=
          { hidden with
            tree := tree
            platformSurfaces := hidden.platformSurfaces.filter (fun s _ => s ≠ surface) }
        match ← removed.synchronizePlatformOrder answers.orders with
        | (state, .ok ()) => return (state, .ok ())
        | (changed, .error error) =>
          let back := changed.restore state.tree surface (state.platformSurfaces.get? surface)
            answers.shows
          let undone ← back.synchronizePlatformOrder answers.ordersBack
          return (undone.1, .error error)

/-- Moves each root native surface whose host changed to its host's side of the overlay surface, in
the order the map of platform surfaces is gone through. -/
def restackNativeSurfaces (state : WindowCompositionState S) :
    (order : List S) → WindowCompositionState S × Except String Unit
  | [] => (state, .ok ())
  | id :: order =>
    match state.platformSurfaces.get? id with
    | none => restackNativeSurfaces state order
    | some platformSurface =>
      let cleared :=
        { state with
          platformSurfaces :=
            state.platformSurfaces.modify id (fun s => { s with restack := false }) }
      if !platformSurface.restack then restackNativeSurfaces cleared order
      else
        match state.tree.surfaces.get? id with
        | none => (cleared, .error CompositionTree.doesNotExist)
        | some node =>
          if node.parent.isSome then restackNativeSurfaces cleared order
          else
            match state.tree.placeRelative id state.overlaySurface
                (platformSurface.host = .overlay) with
            | (tree, .error error) => ({ cleared with tree := tree }, .error error)
            | (tree, .ok ()) => restackNativeSurfaces { cleared with tree := tree } order

/-- Host changes reach the tree and the platform; failures are logged. -/
def synchronizeGeometry (state : WindowCompositionState S) (order : List S)
    (answers : PlatformAnswers) : Option (WindowCompositionState S) :=
  if state.enabled && state.geometryDirty then do
    let synchronized ←
      (state.restackNativeSurfaces order).1.synchronizePlatformOrder answers.orders
    return synchronized.1
  else some state

def enableWindowComposition (state : WindowCompositionState S) (answers : PlatformAnswers) :
    Option (WindowCompositionState S) :=
  if !answers.creates then some state
  else do
    match ← state.synchronizePlatformOrder answers.orders with
    | (state, .ok ()) => return { state with enabled := true }
    | (state, .error _) => return state

/-- A native surface is positioned, while its host is prepainted on `host` or outside prepaint. -/
def setBounds (state : WindowCompositionState S) (surface : S) (host : Option Host)
    (moves : Bool) : WindowCompositionState S :=
  match state.platformSurfaces.get? surface with
  | none => state
  | some platformSurface =>
    let changes := host.any (· ≠ platformSurface.host)
    { state with
      platformSurfaces := state.platformSurfaces.modify surface fun s =>
        { s with host := host.getD s.host, restack := s.restack || changes }
      geometryDirty := state.geometryDirty || changes || moves }

/-- A native surface is shown or hidden, if the platform does it. -/
def setVisible (state : WindowCompositionState S) (surface : S) (visible : Bool) :
    WindowCompositionState S :=
  { state with
    platformSurfaces :=
      state.platformSurfaces.modify surface (fun s => { s with visible := visible })
    geometryDirty := true }

end WindowCompositionState

inductive CompositionAction (S : Type*) where
  | createNativeSurface (id : S) (answers : PlatformAnswers)
  | createExternalGpuSurface (id : S) (answers : PlatformAnswers)
  | createGpuiSurface (id : S) (parent : Option S) (answers : PlatformAnswers)
  | placeAbove (surface sibling : S) (answers : PlatformAnswers)
  | placeBelow (surface sibling : S) (answers : PlatformAnswers)
  | reparent (surface : S) (parent : Option S) (answers : PlatformAnswers)
  | removeSurface (surface : S) (answers : PlatformAnswers)
  | synchronizeGeometry (order : List S) (answers : PlatformAnswers)
  | enableWindowComposition (answers : PlatformAnswers)
  | setBounds (surface : S) (host : Option Host) (moves : Bool)
  | setVisible (surface : S) (visible : Bool)

namespace WindowCompositionState

variable {S : Type*} [DecidableEq S]

/-- The surface an action adds, which the slot map takes from the ids that are not in use. -/
def isFresh (state : WindowCompositionState S) (id : S) : Bool :=
  (state.tree.surfaces.get? id).isNone

/-- One step; `none` if it does not return. -/
def step (state : WindowCompositionState S) :
    CompositionAction S → Option (WindowCompositionState S)
  | .createNativeSurface id answers =>
    if state.isFresh id then (state.createNativeSurface id answers).map Prod.fst else some state
  | .createExternalGpuSurface id answers =>
    if state.isFresh id then (state.createExternalGpuSurface id answers).map Prod.fst
    else some state
  | .createGpuiSurface id parent answers =>
    if state.isFresh id then (state.createGpuiSurface id parent answers).map Prod.fst
    else some state
  | .placeAbove surface sibling answers =>
    (state.placeAbove surface sibling answers).map Prod.fst
  | .placeBelow surface sibling answers =>
    (state.placeBelow surface sibling answers).map Prod.fst
  | .reparent surface parent answers => (state.reparent surface parent answers).map Prod.fst
  | .removeSurface surface answers => (state.removeSurface surface answers).map Prod.fst
  | .synchronizeGeometry order answers => state.synchronizeGeometry order answers
  | .enableWindowComposition answers => state.enableWindowComposition answers
  | .setBounds surface host moves => some (state.setBounds surface host moves)
  | .setVisible surface visible => some (state.setVisible surface visible)

def run (base overlay : S) (actions : List (CompositionAction S)) :
    Option (WindowCompositionState S) :=
  actions.foldlM step (new base overlay)

end WindowCompositionState

end GpuiFast
