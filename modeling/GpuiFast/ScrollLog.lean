import GpuiFast.DispatchTree

/-! A wheel that scrolls a container notifies the view that painted it, and so does code that sets an
offset. A layer's container is looked at once a frame, and its view is taken to have changed when
it was notified more often than what it holds was counted as scrolled. Notifications are counted
across windows, scrolls in each window, and offsets set are counted when a window next looks.
The counts do not wrap. -/

namespace GpuiFast

abbrev WindowId := ℕ

abbrev GlobalElementId := ℕ

inductive ScrollSource where
  | handle (version : ℕ)
  | container (id : GlobalElementId)
  deriving DecidableEq

structure ScrollContainer where
  id : GlobalElementId
  source : ScrollSource
  version : Option ℕ
  view : EntityId
  deriving DecidableEq

structure PaintedContainer where
  source : ScrollSource
  view : EntityId
  version : Option ℕ
  frame : ℕ

def FORGET_AFTER_FRAMES : ℕ := 120

structure ScrollLog where
  scrolled : List GlobalElementId
  scrolledSources : List ScrollSource
  containers : KeyMap GlobalElementId PaintedContainer
  scrollNotifies : EntityId → ℕ

/-- Whether an offset set at `source` moved `container`. -/
def PaintedContainer.movedBy (container : PaintedContainer) (source : ScrollSource) : Bool :=
  container.source = source || container.version.any (fun version => .handle version = source)

namespace ScrollLog

def empty : ScrollLog := ⟨[], [], .empty, fun _ => 0⟩

def remember (log : ScrollLog) (container : ScrollContainer) (frame : ℕ) : ScrollLog :=
  { log with
    containers := log.containers.insert container.id
      ⟨container.source, container.view, container.version, frame⟩ }

def countScroll (log : ScrollLog) (view : EntityId) : ScrollLog :=
  { log with
    scrollNotifies := Function.update log.scrollNotifies view (log.scrollNotifies view + 1) }

def takeOffsetSet (log : ScrollLog) (source : ScrollSource) : ScrollLog :=
  let moved := log.containers.entries.filter (fun e => e.2.movedBy source)
  let log := moved.foldl (fun log e =>
    { log.countScroll e.2.view with scrolled := e.1 :: log.scrolled }) log
  { log with scrolledSources := source :: log.scrolledSources }

def takeOffsetsSet (log : ScrollLog) (sources : List ScrollSource) : ScrollLog :=
  sources.foldl takeOffsetSet log

/-- Notes that a wheel moved `container`'s offset. -/
def noteScrolled (log : ScrollLog) (container : ScrollContainer) (frame : ℕ) : ScrollLog :=
  let log := log.countScroll container.view
  let log := { log with
    scrolled := container.id :: log.scrolled
    scrolledSources := container.source :: log.scrolledSources }
  if (log.containers.get? container.id).isNone then log.remember container frame else log

/-- Notes that a wheel moved the list whose state is `version`. -/
def noteListScrolled (log : ScrollLog) (version : ℕ) (view : EntityId) : ScrollLog :=
  let log := { log with scrolledSources := .handle version :: log.scrolledSources }
  match log.containers.entries.find? (fun e => e.2.version = some version) with
  | some e => { log.countScroll view with scrolled := e.1 :: log.scrolled }
  | none => log

def finishFrame (log : ScrollLog) (frame : ℕ) (keep : GlobalElementId → Bool) : ScrollLog where
  scrolled := []
  scrolledSources := []
  containers := log.containers.filter (fun id container =>
    decide (frame < container.frame + FORGET_AFTER_FRAMES) || keep id)
  scrollNotifies := fun _ => 0

end ScrollLog

structure OwnerNotifies where
  watches : ℕ
  notifies : ℕ

structure LayerPolicy where
  owner : Option EntityId
  ownerNotifiesAt : ℕ

structure WheelBefore where
  changes : ℕ
  notifies : KeyMap EntityId OwnerNotifies
  scrollNotifies : EntityId → ℕ

structure ScrollWorld where
  ownerNotifies : KeyMap EntityId OwnerNotifies
  offsetsSet : List ScrollSource
  /-- Grows with every entity updated or written and every global changed. -/
  changes : ℕ
  logs : WindowId → ScrollLog
  frames : WindowId → ℕ
  layers : KeyMap (WindowId × GlobalElementId) LayerPolicy

namespace ScrollWorld

def new : ScrollWorld := ⟨.empty, [], 0, fun _ => .empty, fun _ => 0, .empty⟩

/-- `OwnerWatch::new`. -/
def watch (world : ScrollWorld) (view : EntityId) : ScrollWorld :=
  let watched := (world.ownerNotifies.get? view).getD ⟨0, 0⟩
  { world with
    ownerNotifies :=
      world.ownerNotifies.insert view { watched with watches := watched.watches + 1 } }

/-- An `OwnerWatch` dropped. -/
def unwatch (world : ScrollWorld) (view : EntityId) : ScrollWorld :=
  match world.ownerNotifies.get? view with
  | none => world
  | some watched =>
    { world with
      ownerNotifies :=
        if watched.watches - 1 = 0 then world.ownerNotifies.filter (fun v _ => v ≠ view)
        else world.ownerNotifies.insert view { watched with watches := watched.watches - 1 } }

def notifies (world : ScrollWorld) (view : EntityId) : ℕ :=
  ((world.ownerNotifies.get? view).map (·.notifies)).getD 0

def noteNotify (world : ScrollWorld) (view : EntityId) : ScrollWorld :=
  { world with
    ownerNotifies := world.ownerNotifies.modify view
      (fun watched => { watched with notifies := watched.notifies + 1 }) }

def updateLog (world : ScrollWorld) (window : WindowId) (f : ScrollLog → ScrollLog) : ScrollWorld :=
  { world with logs := Function.update world.logs window (f (world.logs window)) }

def takeOffsetsSet (world : ScrollWorld) (window : WindowId) : ScrollWorld :=
  { world.updateLog window (·.takeOffsetsSet world.offsetsSet) with offsetsSet := [] }

/-- How often `owner` was notified since the container was last looked at, if it held it then. -/
def ownerNotifiesSince (world : ScrollWorld) (window : WindowId) (id : GlobalElementId)
    (owner : EntityId) : Option ℕ :=
  (world.layers.get? (window, id)).bind (fun policy =>
    if policy.owner = some owner then some (world.notifies owner - policy.ownerNotifiesAt)
    else none)

/-- Whether the view holding a layer's container was notified for anything but a scroll;
`notified` is whether it was notified at all since the last frame. -/
def ownerNotifiedOtherwise (world : ScrollWorld) (window : WindowId) (id : GlobalElementId)
    (owner : Option EntityId) (notified : Bool) : Bool :=
  match owner with
  | none => false
  | some owner =>
    match world.ownerNotifiesSince window id owner with
    | some notifies => decide ((world.logs window).scrollNotifies owner < notifies)
    | none => notified

/-- What `decide` keeps of the view now holding the container. -/
def setOwner (world : ScrollWorld) (window : WindowId) (id : GlobalElementId)
    (owner : Option EntityId) : ScrollWorld :=
  let policy := (world.layers.get? (window, id)).getD ⟨none, 0⟩
  let world := if policy.owner ≠ owner then
      let world := owner.elim world world.watch
      policy.owner.elim world world.unwatch
    else world
  { world with
    layers := world.layers.insert (window, id) ⟨owner, (owner.map world.notifies).getD 0⟩ }

def dropLayer (world : ScrollWorld) (key : WindowId × GlobalElementId) : ScrollWorld :=
  match world.layers.get? key with
  | none => world
  | some policy =>
    let world := policy.owner.elim world world.unwatch
    { world with layers := world.layers.filter (fun k _ => k ≠ key) }

inductive Reason where
  | offsetSet | other
  deriving DecidableEq

inductive ScrollAction where
  | notify (view : EntityId) (reason : Reason)
  | change
  | offsetSet (source : ScrollSource)
  deriving DecidableEq

inductive WheelAction where
  | scroll (container : ScrollContainer)
  | scrollList (version : ℕ) (view : EntityId)
  | action (action : ScrollAction)
  deriving DecidableEq

inductive ScrollEvent where
  | action (action : ScrollAction)
  | wheel (window : WindowId) (actions : List WheelAction)
  | painted (window : WindowId) (container : ScrollContainer)
  /-- A container decided on; `bypassed` if it is before anything is noted of its view. -/
  | look (window : WindowId) (id : GlobalElementId) (owner : Option EntityId) (bypassed : Bool)
  | dropLayer (window : WindowId) (id : GlobalElementId)
  | finishFrame (window : WindowId)

def act (world : ScrollWorld) : ScrollAction → ScrollWorld
  | .notify view _ => world.noteNotify view
  | .change => { world with changes := world.changes + 1 }
  | .offsetSet source => { world with offsetsSet := world.offsetsSet ++ [source] }

def wheelAct (window : WindowId) (world : ScrollWorld) : WheelAction → ScrollWorld
  | .scroll container =>
    (world.updateLog window (·.noteScrolled container (world.frames window))).noteNotify
      container.view
  | .scrollList version view =>
    (world.updateLog window (·.noteListScrolled version view)).noteNotify view
  | .action action => world.act action

def hasLayers (world : ScrollWorld) (window : WindowId) : Bool :=
  world.layers.entries.any (fun e => e.1.1 = window)

def beginDispatch (world : ScrollWorld) (window : WindowId) : Option WheelBefore :=
  if world.hasLayers window then
    some ⟨world.changes, world.ownerNotifies, (world.logs window).scrollNotifies⟩
  else none

def countDispatched (before : WheelBefore) (scrollNotifies : EntityId → ℕ)
    (watched : EntityId × OwnerNotifies) : EntityId → ℕ :=
  match before.notifies.get? watched.1 with
  | none => scrollNotifies
  | some notifiedBefore =>
    let scrolls := scrollNotifies watched.1
    let scrolled := scrolls - before.scrollNotifies watched.1
    let notified := watched.2.notifies - notifiedBefore.notifies
    if 0 < scrolled ∧ scrolled < notified then
      Function.update scrollNotifies watched.1 (scrolls + notified - scrolled)
    else scrollNotifies

/-- Counts the notifications a wheel event's listeners sent each view a container of which it
scrolled as notifications for the scroll, if nothing else changed. -/
def endDispatch (world : ScrollWorld) (window : WindowId) : Option WheelBefore → ScrollWorld
  | none => world
  | some before =>
    if world.changes ≠ before.changes then world
    else
      world.updateLog window (fun log =>
        { log with
          scrollNotifies :=
            world.ownerNotifies.entries.foldl (countDispatched before) log.scrollNotifies })

def step (world : ScrollWorld) : ScrollEvent → ScrollWorld
  | .action action => world.act action
  | .wheel window actions =>
    (actions.foldl (wheelAct window) world).endDispatch window (world.beginDispatch window)
  | .painted window container =>
    world.updateLog window (·.remember container (world.frames window))
  | .look window id owner bypassed =>
    let world := world.takeOffsetsSet window
    if bypassed then world else world.setOwner window id owner
  | .dropLayer window id => world.dropLayer (window, id)
  | .finishFrame window =>
    let world := world.updateLog window (fun log =>
      log.finishFrame (world.frames window) (fun id => (world.layers.get? (window, id)).isSome))
    { world with frames := Function.update world.frames window (world.frames window + 1) }

def run (world : ScrollWorld) (events : List ScrollEvent) : ScrollWorld := events.foldl step world

end ScrollWorld

end GpuiFast
