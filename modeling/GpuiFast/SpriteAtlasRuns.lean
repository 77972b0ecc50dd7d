import GpuiFast.SpriteAtlasHolds

namespace GpuiFast

open List

inductive AtlasEvent where
  /-- A key the atlas lacked was asked for: the tile it was given, and which textures there were. -/
  | inserts (kind : AtlasTextureKind) (given : Option PlacedTile) (there : AtlasTextureId → Bool)
  | removed (key : AtlasKey) (tile : PlacedTile)

/-- Whether `tile`, no longer any key's, is left as it was: its texture was there, and what was
inserted lies apart from it. -/
def AtlasEvent.Spares (tile : PlacedTile) : AtlasEvent → Prop
  | .inserts kind given there => tile.textureId.kind = kind → there tile.textureId = true ∧
    ∀ placed ∈ given, placed.textureId = tile.textureId →
      ∀ x y, placed.bounds.HasPixel x y → ¬tile.bounds.HasPixel x y
  | .removed _ _ => True

def RemovedLast (log : List AtlasEvent) (key : AtlasKey) (tile : PlacedTile) : Prop :=
  ∃ newer older, log = newer ++ .removed key tile :: older ∧ ∀ event ∈ newer, event.Spares tile

lemma RemovedLast.of_append {newer log : List AtlasEvent} {key : AtlasKey} {tile : PlacedTile}
    (h : RemovedLast (newer ++ log) key tile) :
    .removed key tile ∈ newer ∨ RemovedLast log key tile ∧ ∀ event ∈ newer, event.Spares tile := by
  obtain ⟨front, older, heq, hfront⟩ := h
  rcases append_eq_append_iff.mp heq with ⟨between, rfl, hlog⟩ | ⟨between, hnewer, hlog⟩
  · refine .inr ⟨⟨between, older, hlog, ?_⟩, ?_⟩
    · intro event hevent
      exact hfront event (mem_append_right _ hevent)
    · intro event hevent
      exact hfront event (mem_append_left _ hevent)
  · cases between with
    | nil =>
      rw [append_nil] at hnewer
      subst hnewer
      exact .inr ⟨⟨[], older, hlog.symm, by simp⟩, hfront⟩
    | cons head between =>
      rw [cons_append, cons_eq_cons] at hlog
      obtain ⟨rfl, -⟩ := hlog
      exact .inl (hnewer ▸ mem_append_right _ mem_cons_self)

variable {A : Type*} [AtlasAllocator A] (content : AtlasKey → Option (Size ℤ × List UInt8))

namespace SpriteWindow

def new (maxTextureSize : ℕ) (colorTextureFormat : TextureFormat) : SpriteWindow A where
  spriteAtlas :=
    ⟨fun _ => none, ⟨maxTextureSize, colorTextureFormat, fun _ => ⟨[], []⟩, [], 0⟩⟩
  renderedFrame := []
  nextFrame := []

def events (window : SpriteWindow A) : SpriteStep → List AtlasEvent
  | .paint key _ =>
    if (window.spriteAtlas.tilesByKey key).isNone && (content key).isSome then
      [.inserts key.textureKind (window.spriteAtlas.getOrInsertWith key (content key)).2
        (fun id => (window.spriteAtlas.backend.storage.get id).isSome)]
    else []
  | .dropImage imageId frameCount =>
    (List.range frameCount).filterMap fun frameIndex =>
      (window.spriteAtlas.tilesByKey (.image ⟨imageId, frameIndex⟩)).map
        (.removed (.image ⟨imageId, frameIndex⟩))
  | _ => []

def run (steps : List SpriteStep) (window : SpriteWindow A) : SpriteWindow A × List AtlasEvent :=
  steps.foldl (fun (window, log) step =>
    (window.step content step, window.events content step ++ log)) (window, [])

/-- Every sprite of the last frame, once the renderer draws it, names a texture the atlas no longer
has or covers the pixels of the key it was painted with. -/
def ShowsSprites (window : SpriteWindow A) : Prop :=
  ∀ sprite ∈ window.renderedFrame, ∀ texture,
    (window.step content .present).spriteAtlas.backend.storage.get sprite.tile.textureId =
      some texture →
    ∀ x y, sprite.tile.bounds.HasPixel x y →
      texture.texture x y = sprite.key.pixel content
        (window.spriteAtlas.backend.format sprite.key.textureKind)
        (x - sprite.painted.bounds.origin.x) (y - sprite.painted.bounds.origin.y)

end SpriteWindow

def PolychromeSprite.Part (sprite : PolychromeSprite) : Prop :=
  sprite.tile.textureId = sprite.painted.textureId ∧
    ∀ x y, sprite.tile.bounds.HasPixel x y → sprite.painted.bounds.HasPixel x y

lemma PlacedTile.subTile_part (tile : PlacedTile) (visible : Option VisiblePart) (key : AtlasKey) :
    PolychromeSprite.Part ⟨tile.subTile visible, key, tile⟩ := by
  cases visible with
  | none => exact ⟨rfl, fun _ _ => id⟩
  | some part =>
    refine ⟨rfl, fun x y hcovers => ?_⟩
    simp only [subTile, Bounds.HasPixel] at hcovers ⊢
    omega

variable [LawfulAtlasAllocator A]

namespace SpriteWindow

structure Holds (window : SpriteWindow A) (log : List AtlasEvent) : Prop where
  atlas : window.spriteAtlas.Holds content
  removed : ∀ key tile, RemovedLast log key tile →
    window.spriteAtlas.backend.Shows content key tile
  rendered : ∀ sprite ∈ window.renderedFrame, sprite.Part
  next : ∀ sprite ∈ window.nextFrame, sprite.Part

lemma holds_new (maxTextureSize : ℕ) (colorTextureFormat : TextureFormat) :
    Holds content (new maxTextureSize colorTextureFormat : SpriteWindow A) [] := by
  refine ⟨⟨⟨?_, ?_, ?_, ?_, ?_, ?_⟩, ?_, ?_, ?_, ?_⟩, ?_, ?_, ?_⟩ <;>
    simp [new, WgpuAtlasStorage.get, RemovedLast]

variable {content} {window : SpriteWindow A} {log : List AtlasEvent}

lemma Holds.paint (h : window.Holds content log) (key : AtlasKey) (visible : Option VisiblePart) :
    Holds content (window.step content (.paint key visible))
      (window.events content (.paint key visible) ++ log) := by
  have hatlas : (window.step content (.paint key visible)).spriteAtlas =
      (window.spriteAtlas.getOrInsertWith key (content key)).1 := by
    rw [step, paintImage]
    rcases window.spriteAtlas.getOrInsertWith key (content key) with ⟨atlas, _ | tile⟩ <;> rfl
  refine ⟨hatlas ▸ h.atlas.getOrInsertWith key, ?_, ?_, ?_⟩
  · intro removed tile hremoved
    rw [hatlas]
    rcases hremoved.of_append with hmem | ⟨hlast, hevents⟩
    · rw [events] at hmem
      split at hmem <;> simp at hmem
    · have hshows := h.removed removed tile hlast
      cases hnone : window.spriteAtlas.tilesByKey key with
      | some kept =>
        rw [AtlasState.getOrInsertWith.eq_def, hnone]
        exact hshows
      | none =>
        cases hcontent : content key with
        | none =>
          rw [AtlasState.getOrInsertWith.eq_def, hnone]
          exact hshows
        | some built =>
          have hspares := hevents (.inserts key.textureKind
            (window.spriteAtlas.getOrInsertWith key (content key)).2
            (fun id => (window.spriteAtlas.backend.storage.get id).isSome))
            (by simp [events, hnone, hcontent])
          rw [← hcontent]
          refine h.atlas.getOrInsertWith_shows hshows hnone fun hkind => ?_
          obtain ⟨hthere, hapart⟩ := hspares hkind
          exact ⟨Option.isSome_iff_ne_none.mp hthere, hapart⟩
  · rw [step, paintImage]
    rcases window.spriteAtlas.getOrInsertWith key (content key) with ⟨atlas, _ | tile⟩ <;>
      exact h.rendered
  · rw [step, paintImage]
    rcases window.spriteAtlas.getOrInsertWith key (content key) with ⟨atlas, _ | tile⟩
    · exact h.next
    · intro sprite hsprite
      rcases mem_append.mp hsprite with hnext | hnew
      · exact h.next sprite hnext
      · obtain rfl := mem_singleton.mp hnew
        exact tile.subTile_part visible key

lemma holds_foldl_remove {atlas : AtlasState A} (h : atlas.Holds content) (keys : List AtlasKey) :
    (keys.foldl AtlasState.remove atlas).Holds content ∧
      ∀ key tile, atlas.backend.Shows content key tile →
        (keys.foldl AtlasState.remove atlas).backend.Shows content key tile := by
  induction keys generalizing atlas with
  | nil => exact ⟨h, fun _ _ => id⟩
  | cons removed keys ih =>
    obtain ⟨hholds, hshows⟩ := ih (h.remove removed)
    exact ⟨hholds, fun key tile hshow => hshows key tile (h.remove_shows removed hshow)⟩

lemma Holds.dropImage (h : window.Holds content log) (imageId frameCount : ℕ) :
    Holds content (window.step content (.dropImage imageId frameCount))
      (window.events content (.dropImage imageId frameCount) ++ log) := by
  have hatlas : (window.step content (.dropImage imageId frameCount)).spriteAtlas =
      ((List.range frameCount).map fun frameIndex => AtlasKey.image ⟨imageId, frameIndex⟩).foldl
        AtlasState.remove window.spriteAtlas := by
    rw [foldl_map]
    rfl
  obtain ⟨hholds, hshows⟩ := holds_foldl_remove h.atlas
    ((List.range frameCount).map fun frameIndex => AtlasKey.image ⟨imageId, frameIndex⟩)
  rw [← hatlas] at hholds hshows
  refine ⟨hholds, ?_, h.rendered, h.next⟩
  intro key tile hremoved
  rcases hremoved.of_append with hmem | ⟨hlast, -⟩
  · obtain ⟨frameIndex, -, hevent⟩ := mem_filterMap.mp hmem
    obtain ⟨removed, htile, heq⟩ := Option.map_eq_some_iff.mp hevent
    obtain ⟨rfl, rfl⟩ := AtlasEvent.removed.inj heq
    exact hshows _ _ (h.atlas.shows _ _ htile)
  · exact hshows key tile (h.removed key tile hlast)

lemma Holds.step (h : window.Holds content log) (step : SpriteStep) :
    Holds content (window.step content step) (window.events content step ++ log) := by
  cases step with
  | paint key visible => exact h.paint key visible
  | dropImage imageId frameCount => exact h.dropImage imageId frameCount
  | reusePaint start stop =>
    refine ⟨h.atlas, h.removed, h.rendered, fun sprite hsprite => ?_⟩
    rcases mem_append.mp hsprite with hnext | hreused
    · exact h.next sprite hnext
    · exact h.rendered sprite (mem_of_mem_drop (mem_of_mem_take hreused))
  | finish => exact ⟨h.atlas, h.removed, h.next, by simp [SpriteWindow.step]⟩
  | present =>
    refine ⟨?_, ?_, h.rendered, h.next⟩
    · exact h.atlas.of_textures h.atlas.textures.flushUploads (fun tile hgave => hgave.flushUploads)
        fun key tile htile => (h.atlas.shows key tile htile).flushUploads
    · exact fun key tile hlast => (h.removed key tile hlast).flushUploads

lemma holds_run (steps : List SpriteStep) (maxTextureSize : ℕ)
    (colorTextureFormat : TextureFormat) :
    Holds content (run content steps (new maxTextureSize colorTextureFormat : SpriteWindow A)).1
      (run content steps (new maxTextureSize colorTextureFormat : SpriteWindow A)).2 := by
  induction steps using List.reverseRecOn with
  | nil => exact holds_new content maxTextureSize colorTextureFormat
  | append_singleton steps step ih =>
    rw [run, foldl_append]
    exact ih.step step

/-- In every run a key has a tile of its kind, and none that another has; it is given by a texture
that counts what it gave, and shows what was built for the key. -/
theorem run_keeps_books (steps : List SpriteStep) (maxTextureSize : ℕ)
    (colorTextureFormat : TextureFormat) :
    let atlas :=
      (run content steps (new maxTextureSize colorTextureFormat : SpriteWindow A)).1.spriteAtlas
    (∀ key tile, atlas.tilesByKey key = some tile → tile.textureId.kind = key.textureKind ∧
      atlas.backend.Gave tile ∧ atlas.backend.Shows content key tile) ∧
    (∀ key other tile tile', atlas.tilesByKey key = some tile →
      atlas.tilesByKey other = some tile' → tile.textureId = tile'.textureId →
      tile.tileId = tile'.tileId → key = other) ∧
    (∀ id texture, atlas.backend.storage.get id = some texture →
      texture.format = atlas.backend.format id.kind ∧
      texture.liveAtlasKeys = (LawfulAtlasAllocator.live texture.allocator).length) ∧
    ∀ kind, (atlas.backend.storage kind).freeList.Nodup ∧
      ∀ index ∈ (atlas.backend.storage kind).freeList,
        index < (atlas.backend.storage kind).textures.length ∧
          atlas.backend.storage.get ⟨index, kind⟩ = none := by
  intro atlas
  have h : atlas.Holds content :=
    (holds_run steps maxTextureSize colorTextureFormat).atlas
  have hold := h.textures
  refine ⟨fun key tile htile => ?_, h.injective, fun id texture hget => ?_, fun kind => ?_⟩
  · exact ⟨h.kind key tile htile, h.gave key tile htile, h.shows key tile htile⟩
  · exact ⟨hold.format_eq id texture hget, hold.count id texture hget⟩
  · exact ⟨hold.free_nodup kind, hold.free kind⟩

/-- In every run, a frame shows each of its sprites if every key its sprites were painted with
still has the tile they were painted with, or lost it and all that was inserted since spares it. -/
theorem run_showsSprites (steps : List SpriteStep) (maxTextureSize : ℕ)
    (colorTextureFormat : TextureFormat) (window : SpriteWindow A) (log : List AtlasEvent)
    (hrun : run content steps (new maxTextureSize colorTextureFormat) = (window, log))
    (hkept : ∀ sprite ∈ window.renderedFrame,
      window.spriteAtlas.tilesByKey sprite.key = some sprite.painted ∨
        RemovedLast log sprite.key sprite.painted) : window.ShowsSprites content := by
  have hholds : window.Holds content log := by
    have h := @holds_run A _ content _ steps maxTextureSize colorTextureFormat
    rwa [hrun] at h
  intro sprite hsprite texture hget x y hcovers
  have hshows : window.spriteAtlas.backend.Shows content sprite.key sprite.painted := by
    rcases hkept sprite hsprite with htile | hlast
    · exact hholds.atlas.shows _ _ htile
    · exact hholds.removed _ _ hlast
  obtain ⟨hid, hpart⟩ := hholds.rendered sprite hsprite
  exact hshows texture (hid ▸ hget) x y (hpart x y hcovers)

end SpriteWindow

structure RowAllocator where
  size : Size ℤ
  taken : List (ℕ × Bounds ℤ)

namespace RowAllocator

def edge (taken : List (ℕ × Bounds ℤ)) : ℤ :=
  taken.foldr (fun allocation edge => max (allocation.2.origin.x + allocation.2.size.width) edge) 0

def nextId (taken : List (ℕ × Bounds ℤ)) : ℕ :=
  taken.foldr (fun allocation next => max (allocation.1 + 1) next) 0

instance : AtlasAllocator RowAllocator where
  new size := ⟨size, []⟩
  allocate allocator size :=
    let corner : Point ℤ := ⟨edge allocator.taken, 0⟩
    if 0 < size.width ∧ 0 < size.height ∧ corner.x + size.width ≤ allocator.size.width ∧
        size.height ≤ allocator.size.height then
      ({ allocator with
          taken := (nextId allocator.taken, ⟨corner, size⟩) :: allocator.taken },
        some (nextId allocator.taken, corner))
    else (allocator, none)
  deallocate allocator id :=
    { allocator with taken := allocator.taken.filter fun allocation => allocation.1 ≠ id }

lemma lt_of_mem {taken : List (ℕ × Bounds ℤ)} {allocation : ℕ × Bounds ℤ} (h : allocation ∈ taken) :
    allocation.1 < nextId taken ∧ allocation.2.origin.x + allocation.2.size.width ≤ edge taken := by
  induction taken with
  | nil => simp at h
  | cons head taken ih =>
    simp only [nextId, edge, foldr_cons]
    rcases mem_cons.mp h with rfl | htail
    · exact ⟨Nat.lt_of_succ_le (le_max_left _ _), le_max_left _ _⟩
    · obtain ⟨hid, hedge⟩ := ih htail
      exact ⟨hid.trans_le (le_max_right _ _), hedge.trans (le_max_right _ _)⟩

instance : LawfulAtlasAllocator RowAllocator where
  live := taken
  live_new _ := rfl
  live_of_none allocator size h := by
    simp only [AtlasAllocator.allocate] at h ⊢
    split at h
    case isTrue => cases h
    case isFalse hfits => rw [if_neg hfits]
  live_of_some allocator size id min h := by
    simp only [AtlasAllocator.allocate] at h ⊢
    split at h
    case isTrue hfits =>
      obtain ⟨rfl, rfl⟩ := Prod.mk.inj (Option.some.inj h)
      refine ⟨⟨⟨edge allocator.taken, 0⟩, size⟩, by rw [if_pos hfits], ?_, fun _ _ hcovers => hcovers⟩
      intro allocation hmem
      obtain ⟨hid, hedge⟩ := lt_of_mem hmem
      refine ⟨hid.ne, fun x y hnew hold => ?_⟩
      simp only [Bounds.HasPixel] at hnew hold
      omega
    case isFalse => cases h
  live_deallocate _ _ := rfl

end RowAllocator

namespace SpriteWindow

def onePixelImages : AtlasKey → Option (Size ℤ × List UInt8)
  | .image params => some (⟨1, 1⟩, List.replicate 4 params.imageId.toUInt8)
  | _ => none

def dropsLast : List SpriteStep :=
  [.paint (.image ⟨1, 0⟩) none, .paint (.image ⟨2, 0⟩) none, .finish, .present,
    .dropImage 2 1, .reusePaint 0 2, .finish]

theorem dropsLast_showsSprites :
    (run onePixelImages dropsLast
      (new 8192 .bgra8Unorm : SpriteWindow RowAllocator)).1.ShowsSprites onePixelImages := by
  refine run_showsSprites dropsLast 8192 .bgra8Unorm _ _ rfl fun sprite hsprite => ?_
  have hframe : (run onePixelImages dropsLast
      (new 8192 .bgra8Unorm : SpriteWindow RowAllocator)).1.renderedFrame =
      [⟨⟨⟨⟨0, .polychrome⟩, 0⟩, ⟨⟨0, 0⟩, ⟨1, 1⟩⟩⟩, .image ⟨1, 0⟩,
        ⟨⟨⟨0, .polychrome⟩, 0⟩, ⟨⟨0, 0⟩, ⟨1, 1⟩⟩⟩⟩,
      ⟨⟨⟨⟨0, .polychrome⟩, 1⟩, ⟨⟨1, 0⟩, ⟨1, 1⟩⟩⟩, .image ⟨2, 0⟩,
        ⟨⟨⟨0, .polychrome⟩, 1⟩, ⟨⟨1, 0⟩, ⟨1, 1⟩⟩⟩⟩] := by decide
  rw [hframe, mem_cons, mem_singleton] at hsprite
  rcases hsprite with rfl | rfl
  · exact .inl (by decide)
  · exact .inr ⟨[], _, rfl, by simp⟩

theorem run_keeps_books_dropsLast :
    let atlas := (run onePixelImages dropsLast
      (new 8192 .bgra8Unorm : SpriteWindow RowAllocator)).1.spriteAtlas
    (∀ key tile, atlas.tilesByKey key = some tile → tile.textureId.kind = key.textureKind ∧
      atlas.backend.Gave tile ∧ atlas.backend.Shows onePixelImages key tile) ∧
    ∀ id texture, atlas.backend.storage.get id = some texture →
      texture.liveAtlasKeys = texture.allocator.taken.length := by
  intro atlas
  obtain ⟨hkeys, -, htextures, -⟩ :=
    @run_keeps_books RowAllocator _ onePixelImages _ dropsLast 8192 .bgra8Unorm
  exact ⟨hkeys, fun id texture hget => (htextures id texture hget).2⟩

def dropsReused : List SpriteStep :=
  [.paint (.image ⟨1, 0⟩) none, .finish, .present, .dropImage 1 1, .reusePaint 0 1,
    .paint (.image ⟨2, 0⟩) none, .finish]

/-- The sprite of a dropped image shows the one that was given its place. -/
theorem dropped_image_shows_other :
    ¬(run onePixelImages dropsReused
      (new 8192 .bgra8Unorm : SpriteWindow RowAllocator)).1.ShowsSprites onePixelImages := by
  intro hshows
  have hsprite := hshows ⟨⟨⟨⟨0, .polychrome⟩, 0⟩, ⟨⟨0, 0⟩, ⟨1, 1⟩⟩⟩, .image ⟨1, 0⟩,
    ⟨⟨⟨0, .polychrome⟩, 0⟩, ⟨⟨0, 0⟩, ⟨1, 1⟩⟩⟩⟩ (by decide) _ rfl 0 0 (by decide)
  exact absurd hsprite (by decide)

end SpriteWindow

end GpuiFast
