import GpuiFast.CompositionTree
import GpuiFast.TileQuads
import GpuiFast.Overlay

/-! A scene with its rounded clips, and how it is split across the GPUI surfaces of a composition tree:
each surface gets the ranges of the operations painted on it, and a scene of its own made of them,
in which the layers and the clips that are open where a range begins are opened again and those open
where it ends are closed. When a scene is finished its clips are compiled to groups, each a scene of
its own drawn by one sprite. A panic is an error with its message here. -/

namespace GpuiFast

inductive StreamOperation (K P : Type*) where
  | recorded (op : SceneOp K P)
  | fastRoundedClip (clip : ClipOperation K)

/-- What a scene hands its renderer: the scroll layers it composites, and its groups of clipped
content, each with the geometry of its clip among its frames. -/
inductive SceneFrame (K P F : Type*) where
  | layer (key : ℕ) (frame : F)
  | group (key : ℕ) (content : Scene K P) (frames : List (SceneFrame K P F))
  | geometry (shape : RoundedShape K)

namespace SceneFrame

variable {K P F : Type*}

def GEOMETRY_KEY : ℕ := 2 ^ 32 - 1

def key : SceneFrame K P F → ℕ
  | .layer key _ => key
  | .group key _ _ => key
  | .geometry _ => GEOMETRY_KEY

def isLayer : SceneFrame K P F → Bool
  | .layer _ _ => true
  | .group _ _ _ | .geometry _ => false

end SceneFrame

structure ClipScope (K : Type*) where
  start : ℕ
  stop : ℕ
  shape : RoundedShape K
  parent : Option ℕ

structure SceneClips (K : Type*) where
  scopes : List (ClipScope K)
  /-- The open scopes, innermost first. -/
  active : List ℕ
  compiled : Bool

/-- A scene with rounded clips. What it draws is a scene without them: what was recorded outside
and inside of them alike, or once they are compiled, what is outside and the groups. -/
structure ClippedScene (K P F : Type*) where
  paintOperations : List (StreamOperation K P)
  drawn : Scene K P
  fastRoundedClip : SceneClips K
  frames : List (SceneFrame K P F)

structure OpenScopes (K : Type*) where
  layers : List (Bounds K)
  clips : List (RoundedShape K)

namespace OpenScopes

variable {K P : Type*}

def none : OpenScopes K := ⟨[], []⟩

def track (closesLayer : String) (active : OpenScopes K) :
    StreamOperation K P → Except String (OpenScopes K)
  | .recorded (.insertPrimitive _) => .ok active
  | .recorded (.pushLayer bounds) => .ok { active with layers := bounds :: active.layers }
  | .recorded .popLayer =>
    match active.layers with
    | [] => .error closesLayer
    | _ :: layers => .ok { active with layers := layers }
  | .fastRoundedClip (.start shape) => .ok { active with clips := shape :: active.clips }
  | .fastRoundedClip .finish =>
    match active.clips with
    | [] => .error "source scene closes a rounded clip that is not open"
    | _ :: clips => .ok { active with clips := clips }

end OpenScopes

namespace ClippedScene

variable {K P F : Type*} [Field K] [LinearOrder K] [FloorRing K]

def default : ClippedScene K P F := ⟨[], .default, ⟨[], [], false⟩, []⟩

def clear (scene : ClippedScene K P F) : ClippedScene K P F :=
  ⟨[], scene.drawn.clear, ⟨[], [], false⟩, []⟩

def pushLayer (scene : ClippedScene K P F) (bounds : Bounds K) : ClippedScene K P F :=
  { scene with
    drawn := scene.drawn.pushLayer bounds
    paintOperations := scene.paintOperations ++ [.recorded (.pushLayer bounds)] }

def popLayer (scene : ClippedScene K P F) : ClippedScene K P F :=
  { scene with
    drawn := scene.drawn.popLayer
    paintOperations := scene.paintOperations ++ [.recorded .popLayer] }

def insertPrimitive (scene : ClippedScene K P F) (primitive : Primitive K P) : ClippedScene K P F :=
  if primitive.clippedBounds.isEmpty then scene
  else
    { scene with
      drawn := scene.drawn.insertPrimitive primitive
      paintOperations := scene.paintOperations ++ [.recorded (.insertPrimitive primitive)] }

def beginClip (clips : SceneClips K) (operation : ℕ) (shape : RoundedShape K) : SceneClips K where
  scopes := clips.scopes ++ [⟨operation, operation, shape, clips.active.head?⟩]
  active := clips.scopes.length :: clips.active
  compiled := false

def endClip (clips : SceneClips K) (operation : ℕ) : Except String (SceneClips K) :=
  match clips.active with
  | [] => .error "balanced rounded clips"
  | scope :: active =>
    .ok ⟨clips.scopes.modify scope (fun s => { s with stop := operation }), active, false⟩

def record (scene : ClippedScene K P F) (operation : ClipOperation K) :
    Except String (ClippedScene K P F) :=
  let index := scene.paintOperations.length
  let paintOperations := scene.paintOperations ++ [.fastRoundedClip operation]
  match operation with
  | .start shape =>
    .ok { scene with
      fastRoundedClip := beginClip scene.fastRoundedClip index shape
      paintOperations := paintOperations }
  | .finish =>
    match endClip scene.fastRoundedClip (index + 1) with
    | .error error => .error error
    | .ok fastRoundedClip =>
      .ok { scene with fastRoundedClip := fastRoundedClip, paintOperations := paintOperations }

def apply (scene : ClippedScene K P F) :
    StreamOperation K P → Except String (ClippedScene K P F)
  | .recorded (.insertPrimitive primitive) => .ok (scene.insertPrimitive primitive)
  | .recorded (.pushLayer bounds) => .ok (scene.pushLayer bounds)
  | .recorded .popLayer => .ok scene.popLayer
  | .fastRoundedClip clip => scene.record clip

def layerOf? : StreamOperation K P → Option ℕ
  | .recorded (.insertPrimitive primitive) =>
    match primitive.shape with
    | .polychromeSprite tile => (decodeLayerTile tile.textureId tile.tileId).map Prod.fst
    | _ => .none
  | _ => .none

def replayLayer (previous : ClippedScene K P F) (scene : ClippedScene K P F) (key : ℕ) :
    ClippedScene K P F :=
  if scene.frames.any (·.key = key) then scene
  else { scene with frames := scene.frames ++ (previous.frames.find? (·.key = key)).toList }

def replayLayers (scene : ClippedScene K P F) (operations : List (StreamOperation K P))
    (previous : ClippedScene K P F) : ClippedScene K P F :=
  if previous.frames.isEmpty then scene
  else (operations.filterMap layerOf?).foldl (replayLayer previous) scene

def replayOperation (replayed : ClippedScene K P F × OpenScopes K) (op : StreamOperation K P) :
    Except String (ClippedScene K P F × OpenScopes K) :=
  match replayed.2.track "scene replay range closes a layer that is not open" op with
  | .error error => .error error
  | .ok active =>
    match replayed.1.apply op with
    | .error error => .error error
    | .ok scene => .ok (scene, active)

def replayBalanced (scene : ClippedScene K P F) (range : ℕ × ℕ) (previous : ClippedScene K P F) :
    Except String (ClippedScene K P F) :=
  if range.2 < range.1 then .error "scene replay range starts after its end"
  else if previous.paintOperations.length < range.1 then
    .error "scene replay range starts past the scene"
  else if previous.paintOperations.length < range.2 then
    .error "scene replay range ends past the scene"
  else
    let before := previous.paintOperations.take range.1
    let operations := (previous.paintOperations.take range.2).drop range.1
    match before.foldlM (OpenScopes.track "source scene closes a layer that is not open") .none with
    | .error error => .error error
    | .ok active =>
      let scene := scene.replayLayers operations previous
      let scene := active.layers.reverse.foldl pushLayer scene
      match active.clips.reverse.foldlM (fun scene shape => scene.record (.start shape)) scene with
      | .error error => .error error
      | .ok scene =>
        match operations.foldlM replayOperation (scene, active) with
        | .error error => .error error
        | .ok (scene, active) =>
          let scene := active.layers.foldl (fun scene _ => scene.popLayer) scene
          active.clips.foldlM (fun scene _ => scene.record .finish) scene

def CLIP_TEXTURE_BASE : ℕ := 0xF1000000

/-- The scenes of the open groups with their frames, innermost first and the outermost last, and
the open clips, with whether each is open around itself. -/
structure Compiling (K P F : Type*) where
  stack : List (Scene K P × List (SceneFrame K P F))
  shapes : List (RoundedShape K)
  redundant : List Bool

def isEmpty (scene : Scene K P) : Bool :=
  PrimitiveKind.all.all (fun kind => (scene.primitives kind).isEmpty)

/-- Puts a group into the scene around it, with the sprite that draws it; `sprite` is what else the
sprite carries. -/
def insertGroup (sprite : RoundedShape K → P) (shape : RoundedShape K)
    (child parent : Scene K P × List (SceneFrame K P F)) : Scene K P × List (SceneFrame K P F) :=
  let index := parent.2.length
  let frame := .group (0x01000000 + index) child.1.finish (child.2 ++ [.geometry shape])
  let primitive : Primitive K P :=
    { shape := .polychromeSprite ⟨⟨CLIP_TEXTURE_BASE + index, .polychrome⟩, 0⟩
      bounds := shape.bounds
      contentMask := shape.bounds
      rest := sprite shape }
  (parent.1.insertPrimitive primitive, parent.2 ++ [frame])

def compileOperation (sprite : RoundedShape K → P) (layers : List (SceneFrame K P F))
    (compiling : Compiling K P F) :
    StreamOperation K P → Except String (Compiling K P F)
  | .recorded op =>
    match compiling.stack with
    | [] => .error "called `Option::unwrap()` on a `None` value"
    | (scene, frames) :: stack =>
      .ok { compiling with stack := (scene.apply op, frames) :: stack }
  | .fastRoundedClip (.start shape) =>
    let alreadyActive := decide (shape ∈ compiling.shapes)
    .ok
      { stack := if alreadyActive then compiling.stack else (.default, layers) :: compiling.stack
        shapes := shape :: compiling.shapes
        redundant := alreadyActive :: compiling.redundant }
  | .fastRoundedClip .finish =>
    match compiling.shapes, compiling.redundant, compiling.stack with
    | [], _, _ => .error "balanced rounded clips"
    | _ :: _, [], _ => .error "rounded clip ownership"
    | _ :: shapes, true :: redundant, stack => .ok ⟨stack, shapes, redundant⟩
    | _ :: _, false :: _, [] => .error "rounded clip scene"
    | shape :: shapes, false :: redundant, child :: stack =>
      if isEmpty child.1 then .ok ⟨stack, shapes, redundant⟩
      else
        match stack with
        | [] => .error "parent rounded clip scene"
        | parent :: stack =>
          .ok ⟨insertGroup sprite shape child parent :: stack, shapes, redundant⟩

def compile (sprite : RoundedShape K → P) (scene : ClippedScene K P F) :
    Except String (ClippedScene K P F) :=
  if scene.fastRoundedClip.scopes.isEmpty || scene.fastRoundedClip.compiled then .ok scene
  else
    let layers := scene.frames.filter (·.isLayer)
    match scene.paintOperations.foldlM (compileOperation sprite layers)
        ⟨[(.default, layers)], [], []⟩ with
    | .error error => .error error
    | .ok ⟨[(drawn, frames)], [], _⟩ =>
      .ok { scene with
        drawn := drawn
        frames := frames
        fastRoundedClip := { scene.fastRoundedClip with compiled := true } }
    | .ok _ => .error "balanced rounded clips"

def finish (sprite : RoundedShape K → P) (scene : ClippedScene K P F) :
    Except String (ClippedScene K P F) :=
  match scene.compile sprite with
  | .error error => .error error
  | .ok scene => .ok { scene with drawn := scene.drawn.finish }

end ClippedScene

structure ComposedSceneLayer (S : Type*) where
  surface : S
  ranges : List (ℕ × ℕ)

section Layers

variable {S : Type*} [DecidableEq S]

def rangesBySurface (tree : CompositionTree S) (sceneLen : ℕ) :
    SurfaceStarts S → KeyMap S (List (ℕ × ℕ)) → Except String (KeyMap S (List (ℕ × ℕ)))
  | [], ranges => .ok ranges
  | (surface, start) :: starts, ranges =>
    match tree.kind surface with
    | none => .error CompositionTree.doesNotExist
    | some .native | some .externalGpu =>
      .error "scene operations target a non-GPUI composition surface"
    | some .gpui =>
      let stop := (starts.head?.map Prod.snd).getD sceneLen
      if stop < start ∨ sceneLen < stop then
        .error "composition scene ranges are not monotonic"
      else
        rangesBySurface tree sceneLen starts
          (if start < stop then
            ranges.insert surface ((ranges.get? surface).getD [] ++ [(start, stop)])
          else ranges)

def layersInOrder (tree : CompositionTree S) :
    List S → KeyMap S (List (ℕ × ℕ)) → Except String (List (ComposedSceneLayer S))
  | [], _ => .ok []
  | surface :: surfaces, ranges =>
    match tree.kind surface with
    | none => .error CompositionTree.doesNotExist
    | some .native | some .externalGpu => layersInOrder tree surfaces ranges
    | some .gpui =>
      (layersInOrder tree surfaces (ranges.filter (fun s _ => s ≠ surface))).map
        (⟨surface, (ranges.get? surface).getD []⟩ :: ·)

/-- Splits a scene along the points where painting switched GPUI surface, into one layer for each
GPUI surface, in composition order. -/
def composedSceneLayers (tree : CompositionTree S) (starts : SurfaceStarts S) (sceneLen : ℕ) :
    Option (Except String (List (ComposedSceneLayer S))) :=
  match rangesBySurface tree sceneLen starts .empty with
  | .error error => some (.error error)
  | .ok ranges => tree.flattened.map (layersInOrder tree · ranges)

variable {K P F : Type*} [Field K] [LinearOrder K] [FloorRing K]

def layerScene (sprite : RoundedShape K → P) (source : ClippedScene K P F)
    (layer : ComposedSceneLayer S) : Except String (ClippedScene K P F) :=
  match layer.ranges.foldlM (fun (scene : ClippedScene K P F) range =>
      scene.replayBalanced range source) .default with
  | .error error => .error error
  | .ok scene => scene.finish sprite

end Layers

end GpuiFast
