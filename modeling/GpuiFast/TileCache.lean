import GpuiFast.KeyMap
import GpuiFast.LayerTile

/-! The core paints scroll layers and counts their generations; a renderer keeps a texture for each
tile it was shown, and rasterizes a tile again when the generation it holds may differ. What a
tile's hash covers of a content is its `stream`, and hashes are the streams themselves.
Generations are unbounded. -/

namespace GpuiFast

def TileCoord.lex (tile : TileCoord) : ℤ ×ₗ ℤ := toLex (tile.x, tile.y)

section Core

abbrev LayerKey := ℕ

/-- A layer's content as it was last painted, of type `C`, over a background of type `B`. -/
structure LayerRecord (C B S : Type*) where
  content : C
  generation : ℤ
  tileHashes : KeyMap TileCoord S
  /-- The tiles `generation` changed. -/
  dirtyTiles : List TileCoord
  background : B
  hasPaths : Bool

structure Layer (C B S : Type*) where
  generation : ℤ
  record : Option (LayerRecord C B S)
  /-- Whether the layer holds a list's rows, which are replayed and never composited as tiles. -/
  list : Bool

structure CompositedLayer (C B S : Type*) where
  key : LayerKey
  record : LayerRecord C B S
  tileSize : ℕ

variable {C B S : Type*}

def allTiles (hashes : KeyMap TileCoord S) : List TileCoord :=
  hashes.keys.insertionSort (fun a b => a.lex ≤ b.lex)

def tileHashes (stream : C → TileCoord → S) (content : C) (region : List TileCoord) :
    KeyMap TileCoord S :=
  .ofKeys region (stream content)

variable [DecidableEq B] [DecidableEq S]

/-- The tiles of `new` whose hash differs from `old`'s or that `old` lacks. -/
def dirtyTiles (old new : KeyMap TileCoord S) : List TileCoord :=
  ((new.entries.filter (fun e => old.get? e.1 ≠ some e.2)).map Prod.fst).insertionSort
    (fun a b => a.lex ≤ b.lex)

def dirtied (old : Option (LayerRecord C B S)) (background : B) (hashes : KeyMap TileCoord S) :
    List TileCoord :=
  match old with
  | some old =>
    if old.background = background then dirtyTiles old.tileHashes hashes else allTiles hashes
  | none => allTiles hashes

namespace Layer

def new : Layer C B S := ⟨0, none, false⟩

def nextGeneration (layer : Layer C B S) : Layer C B S :=
  { layer with generation := layer.generation + 1 }

def recordContent (layer : Layer C B S) (content : C) (hashes : KeyMap TileCoord S) (background : B)
    (hasPaths : Bool) : Layer C B S :=
  let next := layer.nextGeneration
  { next with
    record := some
      { content, generation := next.generation, tileHashes := hashes,
        dirtyTiles := dirtied layer.record background hashes, background, hasPaths } }

def repaint (stream : C → TileCoord → S) (layer : Layer C B S) (content : C)
    (region : List TileCoord) (background : B) (hasPaths : Bool) : Layer C B S :=
  layer.recordContent content (tileHashes stream content region) background hasPaths

def repaintRows (layer : Layer C B S) (content : C) (hashes : KeyMap TileCoord S)
    (background : B) : Layer C B S :=
  { layer.recordContent content hashes background false with list := true }

/-- The layer with the background now under it, or without its record if there is none to clear
its tiles with. -/
def compositeAt (layer : Layer C B S) (background : Option B) : Layer C B S :=
  if layer.list then layer
  else
    match layer.record, background with
    | none, _ => layer
    | some _, none => { layer with record := none }
    | some record, some background =>
      if background = record.background then layer
      else
        let next := layer.nextGeneration
        { next with
          record := some
            { record with
              background := background
              generation := next.generation
              dirtyTiles := allTiles record.tileHashes } }

def insertLayer (key : LayerKey) (layer : Layer C B S) (viewportEmpty : Bool) :
    Option (CompositedLayer C B S) :=
  match layer.record with
  | none => none
  | some record =>
    if layer.list || record.hasPaths || viewportEmpty then none
    else some ⟨key, record, TILE_SIZE⟩

def demote (layer : Layer C B S) : Layer C B S := { layer with record := none, list := false }

end Layer

end Core

structure Raster (C B : Type*) where
  content : C
  tile : TileCoord
  background : B
  deriving DecidableEq

structure TileTexture (C B : Type*) where
  size : ℕ
  raster : Option (Raster C B)

structure Tile (C B : Type*) where
  /-- The generation of the content the texture holds, once this frame's tiles are rasterized. -/
  generation : ℤ
  tileSize : ℕ
  valid : Bool
  lastUsed : ℕ
  texture : Option (TileTexture C B)

structure SeenLayer where
  generation : ℤ
  lastFrame : ℕ

def LAYER_KEEP_FRAMES : ℕ := 120

def POOL_LIMIT : ℕ := 8

abbrev Tiles (C B : Type*) := KeyMap (LayerKey × TileCoord) (Tile C B)

structure TileCache (C B : Type*) where
  tiles : Tiles C B
  layers : KeyMap LayerKey SeenLayer
  pool : List (TileTexture C B)
  frame : ℕ
  budgetBytes : ℕ

def tileBytes (tileSize : ℕ) : ℕ := tileSize * tileSize * 4

namespace TileCache

variable {C B S : Type*}

def new (budgetBytes : ℕ) : TileCache C B := ⟨.empty, .empty, [], 0, budgetBytes⟩

def texture (cache : TileCache C B) (key : LayerKey) (coord : TileCoord) :
    Option (TileTexture C B) :=
  ((cache.tiles.get? (key, coord)).filter (·.valid)).bind (·.texture)

/-- A tile of a layer whose content is now `layer`, the cache having seen `previous` before. -/
def carry (layer : CompositedLayer C B S) (previous : ℤ) (coord : TileCoord) (tile : Tile C B) :
    Tile C B :=
  if previous + 1 = layer.record.generation ∧ tile.valid = true ∧ tile.generation = previous ∧
      tile.tileSize = layer.tileSize ∧ coord ∉ layer.record.dirtyTiles then
    { tile with generation := layer.record.generation }
  else { tile with valid := false }

def seeLayer (cache : TileCache C B) (layer : CompositedLayer C B S) : TileCache C B :=
  let seen := (cache.layers.get? layer.key).getD ⟨layer.record.generation - 2, cache.frame⟩
  let layers := cache.layers.insert layer.key ⟨layer.record.generation, cache.frame⟩
  if seen.generation = layer.record.generation then { cache with layers := layers }
  else
    { cache with
      layers := layers
      tiles := cache.tiles.mapValues (fun key tile =>
        if key.1 ≠ layer.key then tile else carry layer seen.generation key.2 tile) }

def indices (layers : List (CompositedLayer C B S)) : KeyMap LayerKey ℕ :=
  layers.zipIdx.foldl (fun m e => m.insert e.1.key e.2) .empty

def useTile (layers : List (CompositedLayer C B S)) (frame : ℕ)
    (s : Tiles C B × List (ℕ × TileCoord)) (e : LayerKey × TileCoord) :
    Tiles C B × List (ℕ × TileCoord) :=
  match (indices layers).get? e.1 with
  | none => s
  | some index =>
    let held := (s.1.get? e).any (fun tile => tile.valid && layers[index]?.any (fun layer =>
      tile.generation = layer.record.generation && tile.tileSize = layer.tileSize))
    if held then (s.1.modify e (fun tile => { tile with lastUsed := frame }), s.2)
    else if (index, e.2) ∈ s.2 then s
    else (s.1, s.2 ++ [(index, e.2)])

def planTile (layers : List (CompositedLayer C B S)) (frame : ℕ) (tiles : Tiles C B)
    (e : ℕ × TileCoord) : Tiles C B :=
  match layers[e.1]? with
  | none => tiles
  | some layer =>
    let tile := (tiles.get? (layer.key, e.2)).getD
      ⟨layer.record.generation, layer.tileSize, false, frame, none⟩
    tiles.insert (layer.key, e.2)
      { tile with
        generation := layer.record.generation
        tileSize := layer.tileSize
        valid := true
        lastUsed := frame }

def dropUnseenLayers (cache : TileCache C B) : TileCache C B :=
  let gone := (cache.layers.filter (fun _ seen =>
    seen.lastFrame + LAYER_KEEP_FRAMES < cache.frame)).keys
  let released := cache.tiles.entries.filter (fun e => e.1.1 ∈ gone)
  { cache with
    layers := cache.layers.filter (fun key _ => key ∉ gone)
    tiles := cache.tiles.filter (fun key _ => key.1 ∉ gone)
    pool := (released.filterMap (·.2.texture)).foldl
      (fun pool texture => if pool.length < POOL_LIMIT then pool ++ [texture] else pool)
      cache.pool }

/-- Starts a frame compositing `composited` of `layers`. Returns the tiles to rasterize, each with
the place of its layer. -/
def beginFrame (cache : TileCache C B) (layers : List (CompositedLayer C B S))
    (composited : List (LayerKey × TileCoord)) : TileCache C B × List (ℕ × TileCoord) :=
  let cache := { cache with frame := cache.frame + 1 }
  let cache := layers.foldl seeLayer cache
  let (tiles, planned) := composited.foldl (useTile layers cache.frame) (cache.tiles, [])
  let planned := planned.insertionSort (fun a b => toLex (a.1, a.2.lex) ≤ toLex (b.1, b.2.lex))
  let tiles := planned.foldl (planTile layers cache.frame) tiles
  (dropUnseenLayers { cache with tiles := tiles }, planned)

/-- Takes textures off the end of the pool, reversed, while there are too many bytes. -/
def popPool (budgetBytes : ℕ) : (bytes : ℕ) → List (TileTexture C B) →
    ℕ × List (TileTexture C B)
  | bytes, [] => (bytes, [])
  | bytes, texture :: pool =>
    if budgetBytes < bytes then popPool budgetBytes (bytes - tileBytes texture.size) pool
    else (bytes, texture :: pool)

def Tile.hasBytes (tile : Tile C B) : Bool := tile.valid || tile.texture.isSome

def evictTile (budgetBytes : ℕ) (s : Tiles C B × ℕ) (key : LayerKey × TileCoord) : Tiles C B × ℕ :=
  if s.2 ≤ budgetBytes then s
  else
    (s.1.filter (fun k _ => k ≠ key),
      match s.1.get? key with
      | some tile => if Tile.hasBytes tile then s.2 - tileBytes tile.tileSize else s.2
      | none => s.2)

def evictToBudget (cache : TileCache C B) : TileCache C B :=
  let bytes := ((cache.tiles.entries.filter (fun e => Tile.hasBytes e.2)).map
      (fun e => tileBytes e.2.tileSize)).sum + (cache.pool.map (fun t => tileBytes t.size)).sum
  let (bytes, pool) := popPool cache.budgetBytes bytes cache.pool.reverse
  let candidates := (cache.tiles.entries.filter (fun e => e.2.lastUsed ≠ cache.frame)).insertionSort
    (fun a b => toLex (a.2.lastUsed, toLex (a.1.1, a.1.2.lex)) ≤
      toLex (b.2.lastUsed, toLex (b.1.1, b.1.2.lex)))
  { cache with
    pool := pool.reverse
    tiles := ((candidates.map (·.1)).foldl (evictTile cache.budgetBytes) (cache.tiles, bytes)).1 }

def swapRemove {α : Type*} (l : List α) (i : ℕ) : List α :=
  match l.getLast? with
  | some last => (l.set i last).dropLast
  | none => l

def prepareTile (layers : List (CompositedLayer C B S))
    (s : Tiles C B × List (TileTexture C B)) (e : ℕ × TileCoord) :
    Tiles C B × List (TileTexture C B) :=
  match layers[e.1]? with
  | none => s
  | some layer =>
    match s.1.get? (layer.key, e.2) with
    | none => s
    | some tile =>
      if tile.texture.any (fun texture => texture.size = tile.tileSize) then s
      else
        let position := s.2.findIdx (fun texture => texture.size = tile.tileSize)
        let (texture, pool) := match s.2[position]? with
          | some texture => (texture, swapRemove s.2 position)
          | none => (⟨tile.tileSize, none⟩, s.2)
        (s.1.modify (layer.key, e.2) (fun tile => { tile with texture := some texture }), pool)

def prepare (cache : TileCache C B) (layers : List (CompositedLayer C B S))
    (planned : List (ℕ × TileCoord)) : TileCache C B :=
  let cache := cache.evictToBudget
  let (tiles, pool) := planned.foldl (prepareTile layers) (cache.tiles, cache.pool)
  { cache with tiles := tiles, pool := pool }

def rasterize (layers : List (CompositedLayer C B S)) (tiles : Tiles C B) (e : ℕ × TileCoord) :
    Tiles C B :=
  match layers[e.1]? with
  | none => tiles
  | some layer =>
    tiles.modify (layer.key, e.2) (fun tile =>
      if tile.valid then
        { tile with
          texture := tile.texture.map (fun texture =>
            { texture with raster := some ⟨layer.record.content, e.2, layer.record.background⟩ }) }
      else tile)

def render (cache : TileCache C B) (layers : List (CompositedLayer C B S))
    (composited : List (LayerKey × TileCoord)) : TileCache C B :=
  let (cache, planned) := cache.beginFrame layers composited
  let cache := cache.prepare layers planned
  { cache with tiles := planned.foldl (rasterize layers) cache.tiles }

def clear (cache : TileCache C B) : TileCache C B :=
  { cache with tiles := .empty, layers := .empty, pool := [] }

def renderFailed (cache : TileCache C B) (layers : List (CompositedLayer C B S))
    (composited : List (LayerKey × TileCoord)) : TileCache C B :=
  (cache.beginFrame layers composited).1.clear

end TileCache

inductive TileEvent (C B S : Type*) where
  | repaint (key : LayerKey) (content : C) (region : List TileCoord) (background : B)
    (hasPaths viewportEmpty : Bool)
  | repaintRows (key : LayerKey) (content : C) (hashes : KeyMap TileCoord S) (background : B)
  | compositeAt (key : LayerKey) (background : Option B) (viewportEmpty : Bool)
  | dropRecord (key : LayerKey)
  | demote (key : LayerKey)
  /-- A frame of the layers handed out at `frames`, any of them and in any order. -/
  | render (frames : List ℕ) (composited : List (LayerKey × TileCoord))
  | renderFailed (frames : List ℕ) (composited : List (LayerKey × TileCoord))
  | clear

structure TileWorld (C B S : Type*) where
  core : LayerKey → Layer C B S
  handed : List (CompositedLayer C B S)
  cache : TileCache C B

namespace TileWorld

variable {C B S : Type*} [DecidableEq B] [DecidableEq S]

def new (budgetBytes : ℕ) : TileWorld C B S := ⟨fun _ => .new, [], .new budgetBytes⟩

/-- The layers handed out at `frames`. -/
def layers (w : TileWorld C B S) (frames : List ℕ) : List (CompositedLayer C B S) :=
  frames.filterMap (fun i => w.handed[i]?)

/-- The layer of `key` as it is now, handed out if it is inserted into the frame. -/
def setLayer (w : TileWorld C B S) (key : LayerKey) (layer : Layer C B S)
    (inserted : Option (CompositedLayer C B S)) : TileWorld C B S :=
  { w with
    core := Function.update w.core key layer
    handed := w.handed ++ inserted.toList }

def step (stream : C → TileCoord → S) (w : TileWorld C B S) : TileEvent C B S → TileWorld C B S
  | .repaint key content region background hasPaths viewportEmpty =>
    let layer := (w.core key).repaint stream content region background hasPaths
    w.setLayer key layer (layer.insertLayer key viewportEmpty)
  | .repaintRows key content hashes background =>
    let layer := (w.core key).repaintRows content hashes background
    w.setLayer key layer (layer.insertLayer key false)
  | .compositeAt key background viewportEmpty =>
    let layer := (w.core key).compositeAt background
    w.setLayer key layer (layer.insertLayer key viewportEmpty)
  | .dropRecord key => w.setLayer key { w.core key with record := none } none
  | .demote key => w.setLayer key (w.core key).demote none
  | .render frames composited => { w with cache := w.cache.render (w.layers frames) composited }
  | .renderFailed frames composited =>
    { w with cache := w.cache.renderFailed (w.layers frames) composited }
  | .clear => { w with cache := w.cache.clear }

def run (stream : C → TileCoord → S) (w : TileWorld C B S) (events : List (TileEvent C B S)) :
    TileWorld C B S :=
  events.foldl (step stream) w

end TileWorld

end GpuiFast
