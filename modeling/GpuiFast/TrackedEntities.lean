import GpuiFast.KeyMap

/-! A draw collects the entities it accesses, and at its end the window starts to track those that it
did not track and stops to track the others, so that an entity's notifications invalidate the
windows that show it. What happens is logged, for what the maps are to be compared with. -/

namespace GpuiFast

/-- The entities with a reference count, those among them whose last handle was dropped, those that
are stored, and those accessed during the current draw: in the scopes that record, innermost first,
and outside them. -/
structure EntityMap where
  counts : List ℕ
  droppedEntityIds : List ℕ
  entities : List ℕ
  frame : List ℕ
  scopes : List (List ℕ)
  nextEntityId : ℕ

namespace EntityMap

def new : EntityMap := ⟨[], [], [], [], [], 0⟩

def extend (set entities : List ℕ) : List ℕ := set ++ entities.filter (· ∉ set)

def extendInnermost (map : EntityMap) (entities : List ℕ) : EntityMap :=
  match map.scopes with
  | [] => { map with frame := extend map.frame entities }
  | scope :: scopes => { map with scopes := extend scope entities :: scopes }

def reserve (map : EntityMap) : EntityMap :=
  { map with
    counts := map.counts ++ [map.nextEntityId]
    nextEntityId := map.nextEntityId + 1 }

def insert (map : EntityMap) (id : ℕ) : EntityMap :=
  { map.extendInnermost [id] with entities := extend map.entities [id] }

def access (map : EntityMap) (id : ℕ) : EntityMap := map.extendInnermost [id]

def counted (map : EntityMap) (entities : List ℕ) : List ℕ := entities.filter (· ∈ map.counts)

def extendAccessed (map : EntityMap) (entities : List ℕ) : EntityMap :=
  map.extendInnermost (map.counted entities)

def clearAccessed (map : EntityMap) : EntityMap := { map with frame := [], scopes := [] }

def pushAccessScope (map : EntityMap) : EntityMap := { map with scopes := [] :: map.scopes }

def popAccessScope (map : EntityMap) : EntityMap × List ℕ :=
  match map.scopes with
  | [] => (map, [])
  | scope :: scopes => ({ map with scopes := scopes }.extendInnermost scope, scope)

def drop (map : EntityMap) (id : ℕ) : EntityMap :=
  { map with droppedEntityIds := map.droppedEntityIds ++ [id] }

def takeDropped (map : EntityMap) : EntityMap × List ℕ :=
  let kept (entities : List ℕ) := entities.filter (· ∉ map.droppedEntityIds)
  ({ map with
      counts := kept map.counts
      droppedEntityIds := []
      entities := kept map.entities
      frame := kept map.frame
      scopes := map.scopes.map kept },
    map.droppedEntityIds.filter (· ∈ map.entities))

end EntityMap

inductive DrawObservation (ω : Type*) where
  | began (window : ω)
  | accessed (entities : List ℕ)
  | drew (window : ω)
  | closed (window : ω)
  deriving DecidableEq

/-- The maps between entities and windows, with the invalidators of windows of type `ι`. The window
whose draw is under way and the released entities that are still in the maps are kept beside them,
and what invalidators and the app were notified of. -/
structure WindowTracking (ω ι : Type*) where
  entities : EntityMap
  windowInvalidatorsByEntity : KeyMap ℕ (KeyMap ω ι)
  trackedEntities : KeyMap ω (List ℕ)
  currentWindowByEntity : KeyMap ℕ ω
  drawing : Option ω
  releasing : List ℕ
  dirtyViews : List (ι × ℕ)
  pendingNotifications : List ℕ
  log : List (DrawObservation ω)

namespace WindowTracking

variable {ω ι : Type*} [DecidableEq ω]

def new : WindowTracking ω ι := ⟨.new, .empty, .empty, .empty, none, [], [], [], []⟩

def removeWindow (window : ω) (map : KeyMap ℕ (KeyMap ω ι)) (entity : ℕ) : KeyMap ℕ (KeyMap ω ι) :=
  map.modify entity (fun windows => windows.filter (fun w _ => w ≠ window))

def insertWindow (window : ω) (invalidator : ι) (map : KeyMap ℕ (KeyMap ω ι)) (entity : ℕ) :
    KeyMap ℕ (KeyMap ω ι) :=
  map.insert entity (((map.get? entity).getD .empty).insert window invalidator)

def tracked (cx : WindowTracking ω ι) (window : ω) : List ℕ :=
  (cx.trackedEntities.get? window).getD []

def recordEntitiesAccessed (cx : WindowTracking ω ι) (window : ω) (invalidator : ι)
    (entities : List ℕ) : WindowTracking ω ι :=
  let trackedEntities := cx.tracked window
  let left := trackedEntities.foldl
    (fun map entity => if entity ∉ entities then removeWindow window map entity else map)
    cx.windowInvalidatorsByEntity
  let maps := entities.foldl
    (fun (maps : KeyMap ℕ (KeyMap ω ι) × KeyMap ℕ ω) entity =>
      (if entity ∉ trackedEntities then insertWindow window invalidator maps.1 entity else maps.1,
        maps.2.insert entity window))
    (left, cx.currentWindowByEntity)
  { cx with
    windowInvalidatorsByEntity := maps.1
    currentWindowByEntity := maps.2
    trackedEntities := cx.trackedEntities.insert window entities }

def upstreamRecord (cx : WindowTracking ω ι) (window : ω) (invalidator : ι)
    (entities : List ℕ) : WindowTracking ω ι :=
  let left := (cx.tracked window).foldl (removeWindow window) cx.windowInvalidatorsByEntity
  let maps := entities.foldl
    (fun (maps : KeyMap ℕ (KeyMap ω ι) × KeyMap ℕ ω) entity =>
      (insertWindow window invalidator maps.1 entity, maps.2.insert entity window))
    (left, cx.currentWindowByEntity)
  { cx with
    windowInvalidatorsByEntity := maps.1
    currentWindowByEntity := maps.2
    trackedEntities := cx.trackedEntities.insert window entities }

/-- A window's invalidator has an entity's view drawn again; the app is notified unless the window
is drawing. -/
def invalidateView (cx : WindowTracking ω ι) (entity : ℕ) (entry : ω × ι) : WindowTracking ω ι :=
  { cx with
    dirtyViews := cx.dirtyViews ++ [(entry.2, entity)]
    pendingNotifications := if cx.drawing = some entry.1 then cx.pendingNotifications
      else EntityMap.extend cx.pendingNotifications [entity] }

def notify (cx : WindowTracking ω ι) (entity : ℕ) : WindowTracking ω ι :=
  let windowInvalidators := (cx.windowInvalidatorsByEntity.get? entity).getD .empty
  let taken := { cx with
    windowInvalidatorsByEntity := cx.windowInvalidatorsByEntity.insert entity .empty }
  let liveInvalidators := windowInvalidators.entries.filter (fun entry =>
    entity ∈ taken.tracked entry.1)
  let notified := if liveInvalidators.isEmpty then
      { taken with
        pendingNotifications := EntityMap.extend taken.pendingNotifications [entity] }
    else liveInvalidators.foldl (fun cx entry => cx.invalidateView entity entry) taken
  { notified with
    windowInvalidatorsByEntity :=
      notified.windowInvalidatorsByEntity.insert entity windowInvalidators }

def release (cx : WindowTracking ω ι) : WindowTracking ω ι :=
  match cx.releasing with
  | [] => cx
  | entity :: releasing =>
    { cx with
      windowInvalidatorsByEntity := cx.windowInvalidatorsByEntity.filter (fun e _ => e ≠ entity)
      currentWindowByEntity := cx.currentWindowByEntity.filter (fun e _ => e ≠ entity)
      releasing := releasing }

def close (cx : WindowTracking ω ι) (window : ω) : WindowTracking ω ι :=
  let maps := (cx.tracked window).foldl
    (fun (maps : KeyMap ℕ (KeyMap ω ι) × KeyMap ℕ ω) entity =>
      (removeWindow window maps.1 entity,
        if maps.2.get? entity = some window then maps.2.filter (fun e _ => e ≠ entity) else maps.2))
    (cx.windowInvalidatorsByEntity, cx.currentWindowByEntity)
  { cx with
    trackedEntities := cx.trackedEntities.filter (fun w _ => w ≠ window)
    windowInvalidatorsByEntity := maps.1
    currentWindowByEntity := maps.2
    log := cx.log ++ [.closed window] }

inductive Event (ω : Type*) where
  | reserve
  | insert (id : ℕ)
  | access (id : ℕ)
  | extendAccessed (entities : List ℕ)
  | pushAccessScope
  | popAccessScope
  | drop (id : ℕ)
  | takeDropped
  | release
  | beginDraw (window : ω)
  | endDraw
  | notify (entity : ℕ)
  | close (window : ω)

abbrev Record (ω ι : Type*) : Type _ :=
  WindowTracking ω ι → ω → ι → List ℕ → WindowTracking ω ι

def endDraw (record : Record ω ι) (invalidator : ω → ι) (cx : WindowTracking ω ι) (window : ω) :
    WindowTracking ω ι :=
  { record cx window (invalidator window) cx.entities.frame with
    drawing := none
    log := cx.log ++ [.drew window] }

/-- One step; what cannot happen now changes nothing. Handles give access to counted entities only,
draws follow one another, and released entities are taken when none is left in the maps. -/
def step (record : Record ω ι) (invalidator : ω → ι) (cx : WindowTracking ω ι) :
    Event ω → WindowTracking ω ι
  | .reserve => { cx with entities := cx.entities.reserve }
  | .insert id =>
    if id ∈ cx.entities.counts then
      { cx with entities := cx.entities.insert id, log := cx.log ++ [.accessed [id]] }
    else cx
  | .access id =>
    if id ∈ cx.entities.counts then
      { cx with entities := cx.entities.access id, log := cx.log ++ [.accessed [id]] }
    else cx
  | .extendAccessed entities =>
    { cx with
      entities := cx.entities.extendAccessed entities
      log := cx.log ++ [.accessed (cx.entities.counted entities)] }
  | .pushAccessScope => { cx with entities := cx.entities.pushAccessScope }
  | .popAccessScope => { cx with entities := cx.entities.popAccessScope.1 }
  | .drop id =>
    if id ∈ cx.entities.counts ∧ id ∉ cx.entities.droppedEntityIds then
      { cx with entities := cx.entities.drop id }
    else cx
  | .takeDropped =>
    if cx.releasing = [] then
      { cx with entities := cx.entities.takeDropped.1, releasing := cx.entities.takeDropped.2 }
    else cx
  | .release => cx.release
  | .beginDraw window =>
    if cx.drawing = none then
      { cx with
        entities := cx.entities.clearAccessed
        drawing := some window
        log := cx.log ++ [.began window] }
    else cx
  | .endDraw =>
    match cx.drawing with
    | some window => if cx.entities.scopes = [] then cx.endDraw record invalidator window else cx
    | none => cx
  | .notify entity => cx.notify entity
  | .close window => if cx.drawing = some window then cx else cx.close window

def run (record : Record ω ι) (invalidator : ω → ι) (events : List (Event ω)) :
    WindowTracking ω ι := events.foldl (step record invalidator) new

end WindowTracking

/-- The entities accessed since the last draw began, those that each window's last draw accessed,
and the window that drew each entity last. -/
structure Drawn (ω : Type*) where
  accessed : List ℕ
  lastDraw : ω → List ℕ
  drewLast : ℕ → Option ω

namespace Drawn

variable {ω : Type*} [DecidableEq ω]

def new : Drawn ω := ⟨[], fun _ => [], fun _ => none⟩

def step (drawn : Drawn ω) : DrawObservation ω → Drawn ω
  | .began _ => { drawn with accessed := [] }
  | .accessed entities => { drawn with accessed := drawn.accessed ++ entities }
  | .drew window =>
    { drawn with
      lastDraw := Function.update drawn.lastDraw window drawn.accessed
      drewLast := fun e => if e ∈ drawn.accessed then some window else drawn.drewLast e }
  | .closed window => { drawn with lastDraw := Function.update drawn.lastDraw window [] }

def ofLog (log : List (DrawObservation ω)) : Drawn ω := log.foldl step new

end Drawn

end GpuiFast
