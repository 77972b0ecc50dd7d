import GpuiFast.Scene

/-! Images, glyphs and SVGs live in textures, at tiles handed out by an allocator. A sprite of a scene
keeps the texture and the rectangle of its tile, and a view drawn again keeps its sprites. -/

namespace GpuiFast

structure PlacedTile extends AtlasTile where
  bounds : Bounds ℤ
  deriving DecidableEq

/-- `glyph` stands for the font, size and place of the glyph. -/
structure RenderGlyphParams where
  glyph : ℕ
  isEmoji : Bool
  subpixelRendering : Bool
  deriving DecidableEq

structure RenderImageParams where
  imageId : ℕ
  frameIndex : ℕ
  deriving DecidableEq

inductive AtlasKey where
  | glyph (params : RenderGlyphParams)
  | svg (params : ℕ)
  | image (params : RenderImageParams)
  deriving DecidableEq

def AtlasKey.textureKind : AtlasKey → AtlasTextureKind
  | .glyph params =>
    if params.isEmoji then .polychrome else if params.subpixelRendering then .subpixel
    else .monochrome
  | .svg _ => .monochrome
  | .image _ => .polychrome

def Bounds.HasPixel (bounds : Bounds ℤ) (x y : ℤ) : Prop :=
  bounds.origin.x ≤ x ∧ x < bounds.origin.x + bounds.size.width ∧
    bounds.origin.y ≤ y ∧ y < bounds.origin.y + bounds.size.height

instance (bounds : Bounds ℤ) (x y : ℤ) : Decidable (bounds.HasPixel x y) :=
  inferInstanceAs (Decidable (_ ∧ _ ∧ _ ∧ _))

class AtlasAllocator (A : Type*) where
  new : Size ℤ → A
  allocate : A → Size ℤ → A × Option (ℕ × Point ℤ)
  deallocate : A → ℕ → A

class LawfulAtlasAllocator (A : Type*) [AtlasAllocator A] where
  live : A → List (ℕ × Bounds ℤ)
  live_new (size : Size ℤ) : live (AtlasAllocator.new size) = []
  live_of_none (allocator : A) (size : Size ℤ) :
    (AtlasAllocator.allocate allocator size).2 = none →
      live (AtlasAllocator.allocate allocator size).1 = live allocator
  live_of_some (allocator : A) (size : Size ℤ) (id : ℕ) (min : Point ℤ) :
    (AtlasAllocator.allocate allocator size).2 = some (id, min) →
      ∃ rectangle : Bounds ℤ,
        live (AtlasAllocator.allocate allocator size).1 = (id, rectangle) :: live allocator ∧
        (∀ allocation ∈ live allocator, allocation.1 ≠ id ∧
          ∀ x y, rectangle.HasPixel x y → ¬allocation.2.HasPixel x y) ∧
        ∀ x y, Bounds.HasPixel ⟨min, size⟩ x y → rectangle.HasPixel x y
  live_deallocate (allocator : A) (id : ℕ) :
    live (AtlasAllocator.deallocate allocator id) =
      (live allocator).filter fun allocation => allocation.1 ≠ id

inductive TextureFormat where
  | r8Unorm | bgra8Unorm | rgba8Unorm

def TextureFormat.bytesPerPixel : TextureFormat → ℤ
  | .r8Unorm => 1
  | .bgra8Unorm | .rgba8Unorm => 4

def swapPixels : List UInt8 → List UInt8
  | blue :: green :: red :: alpha :: bytes => red :: green :: blue :: alpha :: swapPixels bytes
  | bytes => bytes

def swizzleUploadData (bytes : List UInt8) : TextureFormat → List UInt8
  | .rgba8Unorm => swapPixels bytes
  | _ => bytes

/-- The bytes of one pixel of an upload of rows of `width` pixels. -/
def pixelAt (data : List UInt8) (width bytesPerPixel x y : ℤ) : List UInt8 :=
  (data.drop (y * (width * bytesPerPixel) + x * bytesPerPixel).toNat).take bytesPerPixel.toNat

structure PendingUpload where
  id : AtlasTextureId
  bounds : Bounds ℤ
  data : List UInt8

structure AtlasTextureList (T : Type*) where
  textures : List (Option T)
  freeList : List ℕ

structure WgpuAtlasTexture (A : Type*) where
  id : AtlasTextureId
  generation : ℕ
  allocator : A
  format : TextureFormat
  /-- The bytes of each pixel. -/
  texture : ℤ → ℤ → List UInt8
  liveAtlasKeys : ℕ

abbrev WgpuAtlasStorage (A : Type*) := AtlasTextureKind → AtlasTextureList (WgpuAtlasTexture A)

structure WgpuAtlasTextures (A : Type*) where
  maxTextureSize : ℕ
  colorTextureFormat : TextureFormat
  storage : WgpuAtlasStorage A
  pendingUploads : List PendingUpload
  nextTextureGeneration : ℕ

section

variable {A : Type*}

def WgpuAtlasStorage.get (storage : WgpuAtlasStorage A) (id : AtlasTextureId) :
    Option (WgpuAtlasTexture A) :=
  (storage id.kind).textures[id.index]?.join

def WgpuAtlasStorage.set (storage : WgpuAtlasStorage A) (id : AtlasTextureId)
    (texture : Option (WgpuAtlasTexture A)) : WgpuAtlasStorage A :=
  Function.update storage id.kind
    { storage id.kind with textures := (storage id.kind).textures.set id.index texture }

def WgpuAtlasTexture.write (texture : WgpuAtlasTexture A) (upload : PendingUpload) :
    WgpuAtlasTexture A :=
  { texture with
    texture := fun x y =>
      if upload.bounds.HasPixel x y then
        pixelAt upload.data upload.bounds.size.width texture.format.bytesPerPixel
          (x - upload.bounds.origin.x) (y - upload.bounds.origin.y)
      else texture.texture x y }

/-- Whether a tile of `size` can fit in a texture no bigger than `maxTextureSize` on each side. -/
def fits (size : Size ℤ) (maxTextureSize : ℕ) : Bool :=
  decide (size.width ≤ maxTextureSize) && decide (size.height ≤ maxTextureSize)

variable [AtlasAllocator A]

namespace WgpuAtlasTexture

def allocate (texture : WgpuAtlasTexture A) (size : Size ℤ) :
    WgpuAtlasTexture A × Option PlacedTile :=
  match AtlasAllocator.allocate texture.allocator size with
  | (allocator, none) => ({ texture with allocator }, none)
  | (allocator, some (id, min)) =>
    ({ texture with allocator, liveAtlasKeys := texture.liveAtlasKeys + 1 },
      some ⟨⟨texture.id, id⟩, ⟨min, size⟩⟩)

end WgpuAtlasTexture

def allocateLast (size : Size ℤ) :
    List (Option (WgpuAtlasTexture A)) → List (Option (WgpuAtlasTexture A)) × Option PlacedTile
  | [] => ([], none)
  | slot :: slots =>
    match allocateLast size slots with
    | (slots, some tile) => (slot :: slots, some tile)
    | (slots, none) =>
      match slot with
      | none => (none :: slots, none)
      | some texture => (some (texture.allocate size).1 :: slots, (texture.allocate size).2)

namespace WgpuAtlasTextures

def format (textures : WgpuAtlasTextures A) : AtlasTextureKind → TextureFormat
  | .monochrome => .r8Unorm
  | .subpixel | .polychrome => textures.colorTextureFormat

/-- Makes a texture for a tile of `minSize`, and says in which slot. -/
def pushTexture (textures : WgpuAtlasTextures A) (minSize : Size ℤ) (kind : AtlasTextureKind) :
    WgpuAtlasTextures A × AtlasTextureId :=
  let maxTextureSize : ℤ := textures.maxTextureSize
  let size : Size ℤ :=
    ⟨max (min minSize.width maxTextureSize) 1024, max (min minSize.height maxTextureSize) 1024⟩
  let textureList := textures.storage kind
  let texture (index : ℕ) : WgpuAtlasTexture A :=
    { id := ⟨index, kind⟩
      generation := textures.nextTextureGeneration
      allocator := AtlasAllocator.new size
      format := textures.format kind
      texture := fun _ _ => List.replicate (textures.format kind).bytesPerPixel.toNat 0
      liveAtlasKeys := 0 }
  let pushed (textureList : AtlasTextureList (WgpuAtlasTexture A)) : WgpuAtlasTextures A :=
    { textures with
      storage := Function.update textures.storage kind textureList
      nextTextureGeneration := (textures.nextTextureGeneration + 1) % 2 ^ 64 }
  match textureList.freeList with
  | index :: freeList =>
    (pushed ⟨textureList.textures.set index (some (texture index)), freeList⟩, ⟨index, kind⟩)
  | [] =>
    let index := textureList.textures.length
    (pushed ⟨textureList.textures ++ [some (texture index)], []⟩, ⟨index, kind⟩)

def allocate (textures : WgpuAtlasTextures A) (size : Size ℤ) (kind : AtlasTextureKind) :
    WgpuAtlasTextures A × Option PlacedTile :=
  match allocateLast size (textures.storage kind).textures with
  | (slots, some tile) =>
    ({ textures with
      storage := Function.update textures.storage kind
        { textures.storage kind with textures := slots } }, some tile)
  | (slots, none) =>
    let textures :=
      { textures with
        storage := Function.update textures.storage kind
          { textures.storage kind with textures := slots } }
    if fits size textures.maxTextureSize then
      let (textures, id) := textures.pushTexture size kind
      match textures.storage.get id with
      | none => (textures, none)
      | some texture =>
        ({ textures with storage := textures.storage.set id (some (texture.allocate size).1) },
          (texture.allocate size).2)
    else (textures, none)

def uploadTexture (textures : WgpuAtlasTextures A) (id : AtlasTextureId) (bounds : Bounds ℤ)
    (bytes : List UInt8) : WgpuAtlasTextures A :=
  let data := match textures.storage.get id with
    | some texture => swizzleUploadData bytes texture.format
    | none => bytes
  { textures with pendingUploads := textures.pendingUploads ++ [⟨id, bounds, data⟩] }

def insert (textures : WgpuAtlasTextures A) (kind : AtlasTextureKind) (size : Size ℤ)
    (bytes : List UInt8) : WgpuAtlasTextures A × Option PlacedTile :=
  match textures.allocate size kind with
  | (textures, none) => (textures, none)
  | (textures, some tile) => (textures.uploadTexture tile.textureId tile.bounds bytes, some tile)

def remove (textures : WgpuAtlasTextures A) (tile : PlacedTile) : WgpuAtlasTextures A :=
  let id := tile.textureId
  match textures.storage.get id with
  | none => textures
  | some texture =>
    let texture :=
      { texture with
        allocator := AtlasAllocator.deallocate texture.allocator tile.tileId
        liveAtlasKeys := texture.liveAtlasKeys - 1 }
    if texture.liveAtlasKeys = 0 then
      let storage := textures.storage.set id none
      { textures with
        pendingUploads := textures.pendingUploads.filter fun upload => upload.id ≠ texture.id
        storage := Function.update storage id.kind
          { storage id.kind with freeList := texture.id.index :: (storage id.kind).freeList } }
    else { textures with storage := textures.storage.set id (some texture) }

def writeUpload (storage : WgpuAtlasStorage A) (upload : PendingUpload) : WgpuAtlasStorage A :=
  match storage.get upload.id with
  | none => storage
  | some texture => storage.set upload.id (some (texture.write upload))

def flushUploads (textures : WgpuAtlasTextures A) : WgpuAtlasTextures A :=
  { textures with
    storage := textures.pendingUploads.foldl writeUpload textures.storage
    pendingUploads := [] }

end WgpuAtlasTextures

structure AtlasState (A : Type*) where
  tilesByKey : AtlasKey → Option PlacedTile
  backend : WgpuAtlasTextures A

namespace AtlasState

def getOrInsertWith (atlas : AtlasState A) (key : AtlasKey)
    (build : Option (Size ℤ × List UInt8)) : AtlasState A × Option PlacedTile :=
  match atlas.tilesByKey key with
  | some tile => (atlas, some tile)
  | none =>
    match build with
    | none => (atlas, none)
    | some (size, bytes) =>
      match atlas.backend.insert key.textureKind size bytes with
      | (backend, none) => ({ atlas with backend }, none)
      | (backend, some tile) =>
        (⟨Function.update atlas.tilesByKey key (some tile), backend⟩, some tile)

def remove (atlas : AtlasState A) (key : AtlasKey) : AtlasState A :=
  match atlas.tilesByKey key with
  | none => atlas
  | some tile => ⟨Function.update atlas.tilesByKey key none, atlas.backend.remove tile⟩

end AtlasState

structure VisiblePart where
  xOffset : ℤ
  yOffset : ℤ
  width : ℤ
  height : ℤ

def PlacedTile.subTile (tile : PlacedTile) : Option VisiblePart → PlacedTile
  | none => tile
  | some part =>
    let maxX := tile.bounds.origin.x + tile.bounds.size.width
    let maxY := tile.bounds.origin.y + tile.bounds.size.height
    let originX := max tile.bounds.origin.x (min (tile.bounds.origin.x + part.xOffset) maxX)
    let originY := max tile.bounds.origin.y (min (tile.bounds.origin.y + part.yOffset) maxY)
    { tile with
      bounds := ⟨⟨originX, originY⟩,
        ⟨max (min part.width (maxX - originX)) 0, max (min part.height (maxY - originY)) 0⟩⟩ }

/-- A sprite of a scene. The scene keeps `tile` only; `key` and `painted` say what it was painted
with: the key, and the whole tile the atlas gave for it. -/
structure PolychromeSprite where
  tile : PlacedTile
  key : AtlasKey
  painted : PlacedTile
  deriving DecidableEq

structure SpriteWindow (A : Type*) where
  spriteAtlas : AtlasState A
  renderedFrame : List PolychromeSprite
  nextFrame : List PolychromeSprite

inductive SpriteStep where
  | paint (key : AtlasKey) (visible : Option VisiblePart)
  | dropImage (imageId frameCount : ℕ)
  | reusePaint (start stop : ℕ)
  | finish
  /-- The renderer draws the last frame. -/
  | present

namespace SpriteWindow

variable (content : AtlasKey → Option (Size ℤ × List UInt8))

def paintImage (window : SpriteWindow A) (key : AtlasKey) (visible : Option VisiblePart) :
    SpriteWindow A :=
  match window.spriteAtlas.getOrInsertWith key (content key) with
  | (spriteAtlas, none) => { window with spriteAtlas }
  | (spriteAtlas, some tile) =>
    { window with
      spriteAtlas
      nextFrame := window.nextFrame ++ [⟨tile.subTile visible, key, tile⟩] }

def dropImage (window : SpriteWindow A) (imageId frameCount : ℕ) : SpriteWindow A :=
  { window with
    spriteAtlas := (List.range frameCount).foldl
      (fun atlas frameIndex => atlas.remove (.image ⟨imageId, frameIndex⟩)) window.spriteAtlas }

def step (window : SpriteWindow A) : SpriteStep → SpriteWindow A
  | .paint key visible => window.paintImage content key visible
  | .dropImage imageId frameCount => window.dropImage imageId frameCount
  | .reusePaint start stop =>
    { window with
      nextFrame := window.nextFrame ++ (window.renderedFrame.drop start).take (stop - start) }
  | .finish => { window with renderedFrame := window.nextFrame, nextFrame := [] }
  | .present =>
    { window with
      spriteAtlas :=
        { window.spriteAtlas with backend := window.spriteAtlas.backend.flushUploads } }

end SpriteWindow

end

end GpuiFast
