import GpuiFast.SpriteAtlasTextures

namespace GpuiFast

open List WgpuAtlasTexture Function

variable {A : Type*}

def AtlasKey.pixel (content : AtlasKey → Option (Size ℤ × List UInt8)) (format : TextureFormat)
    (key : AtlasKey) (x y : ℤ) : List UInt8 :=
  match content key with
  | none => []
  | some (size, bytes) =>
    pixelAt (swizzleUploadData bytes format) size.width format.bytesPerPixel x y

variable (content : AtlasKey → Option (Size ℤ × List UInt8))

namespace WgpuAtlasTextures

def Shows (textures : WgpuAtlasTextures A) (key : AtlasKey) (tile : PlacedTile) : Prop :=
  ∀ texture, textures.flushUploads.storage.get tile.textureId = some texture →
    ∀ x y, tile.bounds.HasPixel x y →
      texture.texture x y = key.pixel content (textures.format key.textureKind)
        (x - tile.bounds.origin.x) (y - tile.bounds.origin.y)

variable {content} {textures after : WgpuAtlasTextures A} {key : AtlasKey} {tile : PlacedTile}

lemma shows_iff : textures.Shows content key tile ↔
    ∀ texture, textures.storage.get tile.textureId = some texture →
      ∀ x y, tile.bounds.HasPixel x y →
        (texture.writeAll (textures.uploadsOf tile.textureId)).texture x y =
          key.pixel content (textures.format key.textureKind)
            (x - tile.bounds.origin.x) (y - tile.bounds.origin.y) := by
  rw [Shows, get_flushUploads]
  cases textures.storage.get tile.textureId <;> simp

lemma Shows.of_kept (h : textures.Shows content key tile)
    (hcolor : after.colorTextureFormat = textures.colorTextureFormat)
    (huploads : after.uploadsOf tile.textureId = textures.uploadsOf tile.textureId)
    (hkept : ∀ texture, after.storage.get tile.textureId = some texture →
      ∃ before, textures.storage.get tile.textureId = some before ∧
        texture.format = before.format ∧ texture.texture = before.texture) :
    after.Shows content key tile := by
  rw [shows_iff] at h ⊢
  intro texture hget x y hcovers
  obtain ⟨before, hbefore, hformat, hpixels⟩ := hkept texture hget
  rw [huploads, writeAll_texture_congr _ hformat hpixels, format_congr hcolor]
  exact h before hbefore x y hcovers

lemma Shows.flushUploads (h : textures.Shows content key tile) :
    textures.flushUploads.Shows content key tile := by
  have hnone : textures.flushUploads.uploadsOf tile.textureId = [] := rfl
  rw [shows_iff, hnone]
  exact h

variable {texture : WgpuAtlasTexture A} {size : Size ℤ} {kind : AtlasTextureKind}

lemma uploadsOf_uploadTexture (textures : WgpuAtlasTextures A) (id : AtlasTextureId)
    (bounds : Bounds ℤ) (bytes : List UInt8) (hget : textures.storage.get id = some texture)
    (other : AtlasTextureId) :
    (textures.uploadTexture id bounds bytes).uploadsOf other = textures.uploadsOf other ++
      if id = other then [⟨id, bounds, swizzleUploadData bytes texture.format⟩] else [] := by
  simp only [uploadTexture, uploadsOf, filter_append, hget]
  by_cases hid : id = other
  · simp [hid]
  · simp [hid]

lemma Shows.uploadTexture (h : textures.Shows content key tile) {id : AtlasTextureId}
    {bounds : Bounds ℤ} (bytes : List UInt8) (hget : textures.storage.get id = some texture)
    (hapart : id = tile.textureId → ∀ x y, bounds.HasPixel x y → ¬tile.bounds.HasPixel x y) :
    (textures.uploadTexture id bounds bytes).Shows content key tile := by
  rw [shows_iff] at h ⊢
  rw [uploadsOf_uploadTexture _ _ _ _ hget]
  intro texture' hget' x y hcovers
  by_cases hid : id = tile.textureId
  · have hnot : ¬bounds.HasPixel x y := fun hin => hapart hid x y hin hcovers
    rw [if_pos hid, writeAll, foldl_append, foldl_cons, foldl_nil, write]
    dsimp only
    rw [if_neg hnot]
    exact h texture' hget' x y hcovers
  · rw [if_neg hid, append_nil]
    exact h texture' hget' x y hcovers

lemma shows_uploadTexture {bytes : List UInt8} (hcontent : content key = some (size, bytes))
    (hsize : tile.bounds.size = size) (hget : textures.storage.get tile.textureId = some texture)
    (hformat : texture.format = textures.format key.textureKind) :
    (textures.uploadTexture tile.textureId tile.bounds bytes).Shows content key tile := by
  rw [shows_iff, uploadsOf_uploadTexture _ _ _ _ hget]
  intro texture' hget' x y hcovers
  obtain rfl : texture = texture' := Option.some.inj (hget.symm.trans hget')
  have hwritten : (texture.writeAll (textures.uploadsOf tile.textureId)).format =
      texture.format := by rw [writeAll_eq]
  rw [if_pos rfl, writeAll, foldl_append, foldl_cons, foldl_nil, write]
  dsimp only
  rw [if_pos hcovers, AtlasKey.pixel, hcontent, ← writeAll, hwritten, hformat, hsize]
  rfl

variable [AtlasAllocator A] [LawfulAtlasAllocator A]

open LawfulAtlasAllocator (live)

structure Removes (textures : WgpuAtlasTextures A) (tile : PlacedTile)
    (texture : WgpuAtlasTexture A) (after : WgpuAtlasTextures A) : Prop where
  color : after.colorTextureFormat = textures.colorTextureFormat
  others : ∀ id, id ≠ tile.textureId → after.storage.get id = textures.storage.get id ∧
    after.uploadsOf id = textures.uploadsOf id
  self : texture.liveAtlasKeys - 1 = 0 ∧ after.storage.get tile.textureId = none ∨
    texture.liveAtlasKeys - 1 ≠ 0 ∧
      after.uploadsOf tile.textureId = textures.uploadsOf tile.textureId ∧
      after.storage.get tile.textureId = some { texture with
        allocator := AtlasAllocator.deallocate texture.allocator tile.tileId
        liveAtlasKeys := texture.liveAtlasKeys - 1 }
  free_nodup : ∀ kind, (after.storage kind).freeList.Nodup
  free : ∀ kind, ∀ index ∈ (after.storage kind).freeList,
    index < (after.storage kind).textures.length ∧ after.storage.get ⟨index, kind⟩ = none

omit [LawfulAtlasAllocator A] in
lemma remove_of_none (h : textures.storage.get tile.textureId = none) :
    textures.remove tile = textures := by
  rw [remove, h]

lemma remove_spec (h : textures.Hold) (hget : textures.storage.get tile.textureId = some texture) :
    textures.Removes tile texture (textures.remove tile) := by
  have hid := h.id_eq _ _ hget
  have hlt := WgpuAtlasStorage.lt_length_of_get hget
  have hnotfree : tile.textureId.index ∉ (textures.storage tile.textureId.kind).freeList := by
    intro hmem
    rw [(h.free _ _ hmem).2] at hget
    cases hget
  rw [remove, hget]
  dsimp only
  split
  case isTrue hzero =>
    have hstorage : ∀ id slot, (WgpuAtlasStorage.get (update
        (textures.storage.set tile.textureId slot) tile.textureId.kind
        { textures.storage.set tile.textureId slot tile.textureId.kind with
          freeList := texture.id.index ::
            (textures.storage.set tile.textureId slot tile.textureId.kind).freeList }) id) =
        (textures.storage.set tile.textureId slot).get id := by
      intro id slot
      by_cases hkind : id.kind = tile.textureId.kind
      · simp [WgpuAtlasStorage.get, hkind]
      · simp [WgpuAtlasStorage.get, hkind]
    refine ⟨rfl, ?_, .inl ⟨hzero, ?_⟩, ?_, ?_⟩
    · intro id hne
      refine ⟨(hstorage id _).trans (WgpuAtlasStorage.get_set_of_ne hne), ?_⟩
      simp only [uploadsOf, filter_filter]
      congr 1
      funext upload
      by_cases hupload : upload.id = id
      · simp [hupload, hid, hne]
      · simp [hupload]
    · exact (hstorage _ _).trans (WgpuAtlasStorage.get_set_self hlt)
    · intro kind
      dsimp only
      rcases eq_or_ne kind tile.textureId.kind with rfl | hkind
      · rw [update_self, WgpuAtlasStorage.freeList_set, hid, nodup_cons]
        exact ⟨hnotfree, h.free_nodup _⟩
      · rw [update_of_ne hkind, WgpuAtlasStorage.freeList_set]
        exact h.free_nodup kind
    · intro kind index hindex
      dsimp only at hindex ⊢
      have hfree : ⟨index, kind⟩ = tile.textureId ∨
          index ∈ (textures.storage kind).freeList := by
        rcases eq_or_ne kind tile.textureId.kind with rfl | hkind
        · rw [update_self, WgpuAtlasStorage.freeList_set, hid, mem_cons] at hindex
          exact hindex.imp_left fun heq => by rw [heq]
        · rw [update_of_ne hkind, WgpuAtlasStorage.freeList_set] at hindex
          exact .inr hindex
      have hlength : ∀ slot list, (update (textures.storage.set tile.textureId slot)
          tile.textureId.kind
          { textures.storage.set tile.textureId slot tile.textureId.kind with freeList := list }
          kind).textures.length = (textures.storage kind).textures.length := by
        intro slot list
        rcases eq_or_ne kind tile.textureId.kind with rfl | hkind
        · rw [update_self, WgpuAtlasStorage.length_set]
        · rw [update_of_ne hkind, WgpuAtlasStorage.length_set]
      rcases hfree with heq | hmem
      · rw [hlength, hstorage, heq, WgpuAtlasStorage.get_set_self hlt]
        rw [← heq] at hlt
        exact ⟨hlt, rfl⟩
      · obtain ⟨hindexlt, hnone⟩ := h.free kind index hmem
        rw [hlength, hstorage, WgpuAtlasStorage.get_set_of_ne, hnone]
        · exact ⟨hindexlt, rfl⟩
        · rintro heq
          rw [heq, hget] at hnone
          cases hnone
  case isFalse hzero =>
    refine ⟨rfl, fun id hne => ⟨WgpuAtlasStorage.get_set_of_ne hne, rfl⟩,
      .inr ⟨hzero, rfl, WgpuAtlasStorage.get_set_self hlt⟩, ?_, ?_⟩
    · intro kind
      rw [WgpuAtlasStorage.freeList_set]
      exact h.free_nodup kind
    · intro kind index hindex
      rw [WgpuAtlasStorage.freeList_set] at hindex
      obtain ⟨hindexlt, hnone⟩ := h.free kind index hindex
      refine ⟨by rwa [WgpuAtlasStorage.length_set], ?_⟩
      rw [WgpuAtlasStorage.get_set_of_ne, hnone]
      rintro heq
      rw [heq, hget] at hnone
      cases hnone

lemma Shows.remove (hold : textures.Hold) (h : textures.Shows content key tile)
    (removed : PlacedTile) : (textures.remove removed).Shows content key tile := by
  cases hget : textures.storage.get removed.textureId with
  | none => rwa [remove_of_none hget]
  | some texture =>
    have hspec := remove_spec hold hget
    by_cases heq : tile.textureId = removed.textureId
    · rcases hspec.self with ⟨-, hnone⟩ | ⟨-, huploads, hsome⟩
      · rw [shows_iff, heq, hnone]
        simp
      · refine h.of_kept hspec.color (heq ▸ huploads) fun texture' hget' => ?_
        rw [heq, hsome] at hget'
        obtain rfl := Option.some.inj hget'
        exact ⟨texture, by rw [heq, hget], rfl, rfl⟩
    · obtain ⟨hsame, huploads⟩ := hspec.others _ heq
      refine h.of_kept hspec.color huploads fun texture' hget' => ?_
      exact ⟨texture', hsame ▸ hget', rfl, rfl⟩

def Gave (textures : WgpuAtlasTextures A) (tile : PlacedTile) : Prop :=
  ∃ texture, textures.storage.get tile.textureId = some texture ∧
    ∃ rectangle, (tile.tileId, rectangle) ∈ live texture.allocator ∧
      ∀ x y, tile.bounds.HasPixel x y → rectangle.HasPixel x y

lemma length_filter_key_ne {β : Type*} {entries : List (ℕ × β)}
    (hnodup : (entries.map Prod.fst).Nodup) {entry : ℕ × β} (hmem : entry ∈ entries) :
    (entries.filter fun other => other.1 ≠ entry.1).length = entries.length - 1 := by
  induction entries with
  | nil => simp at hmem
  | cons head entries ih =>
    rw [map_cons, nodup_cons] at hnodup
    by_cases hhead : head.1 = entry.1
    · have hall : ∀ other ∈ entries, other.1 ≠ entry.1 := by
        intro other hother heq
        exact hnodup.1 (mem_map.mpr ⟨other, hother, heq.trans hhead.symm⟩)
      have hself : (entries.filter fun other => other.1 ≠ entry.1) = entries :=
        filter_eq_self.mpr fun other hother => by simpa using hall other hother
      rw [filter_cons_of_neg (by simpa using hhead), hself, length_cons,
        Nat.add_sub_cancel]
    · have htail : entry ∈ entries := by
        rcases mem_cons.mp hmem with rfl | htail
        · exact absurd rfl hhead
        · exact htail
      have hpos := length_pos_of_mem htail
      have hlength := ih hnodup.2 htail
      rw [filter_cons_of_pos (by simpa using hhead), length_cons, hlength,
        length_cons]
      omega

lemma Removes.hold (h : textures.Hold) (hget : textures.storage.get tile.textureId = some texture)
    (hgave : textures.Gave tile) (hspec : textures.Removes tile texture after) : after.Hold := by
  obtain ⟨texture', hget', rectangle, hmem, -⟩ := hgave
  obtain rfl := Option.some.inj (hget.symm.trans hget')
  have hcount := h.count _ _ hget
  have hnodup := h.nodup _ _ hget
  have hall : ∀ id texture, after.storage.get id = some texture →
      texture.id = id ∧ texture.format = textures.format id.kind ∧
        texture.liveAtlasKeys = (live texture.allocator).length ∧
        ((live texture.allocator).map Prod.fst).Nodup := by
    intro id after' hafter
    rcases eq_or_ne id tile.textureId with rfl | hne
    · rcases hspec.self with ⟨-, hnone⟩ | ⟨-, -, hsome⟩
      · rw [hnone] at hafter
        cases hafter
      · obtain rfl := Option.some.inj (hsome.symm.trans hafter)
        refine ⟨h.id_eq _ texture hget, h.format_eq _ texture hget, ?_, ?_⟩
        · rw [LawfulAtlasAllocator.live_deallocate, hcount]
          exact (length_filter_key_ne hnodup hmem).symm
        · rw [LawfulAtlasAllocator.live_deallocate]
          exact hnodup.sublist (filter_sublist.map _)
    · rw [(hspec.others id hne).1] at hafter
      exact ⟨h.id_eq _ _ hafter, h.format_eq _ _ hafter, h.count _ _ hafter, h.nodup _ _ hafter⟩
  refine ⟨fun id texture hget => (hall id texture hget).1, ?_,
    fun id texture hget => (hall id texture hget).2.2.1,
    fun id texture hget => (hall id texture hget).2.2.2, hspec.free_nodup, hspec.free⟩
  intro id texture hget
  rw [(hall id texture hget).2.1, format_congr hspec.color]

lemma Hold.flushUploads (h : textures.Hold) : textures.flushUploads.Hold := by
  have hget : ∀ id texture, textures.flushUploads.storage.get id = some texture →
      ∃ before, textures.storage.get id = some before ∧
        texture = before.writeAll (textures.uploadsOf id) := by
    intro id texture hsome
    rw [get_flushUploads] at hsome
    obtain ⟨before, hbefore, heq⟩ := Option.map_eq_some_iff.mp hsome
    exact ⟨before, hbefore, heq.symm⟩
  refine ⟨?_, ?_, ?_, ?_, ?_, ?_⟩
  · intro id texture hsome
    obtain ⟨before, hbefore, rfl⟩ := hget id texture hsome
    rw [writeAll_eq]
    exact h.id_eq id before hbefore
  · intro id texture hsome
    obtain ⟨before, hbefore, rfl⟩ := hget id texture hsome
    rw [writeAll_eq]
    exact h.format_eq id before hbefore
  · intro id texture hsome
    obtain ⟨before, hbefore, rfl⟩ := hget id texture hsome
    rw [writeAll_eq]
    exact h.count id before hbefore
  · intro id texture hsome
    obtain ⟨before, hbefore, rfl⟩ := hget id texture hsome
    rw [writeAll_eq]
    exact h.nodup id before hbefore
  · intro kind
    exact (length_writeUpload textures.storage textures.pendingUploads kind).2 ▸ h.free_nodup kind
  · intro kind index hindex
    obtain ⟨hlength, hfree⟩ := length_writeUpload textures.storage textures.pendingUploads kind
    obtain ⟨hlt, hnone⟩ := h.free kind index (hfree ▸ hindex)
    refine ⟨hlength ▸ hlt, ?_⟩
    rw [get_flushUploads, hnone]
    rfl

lemma Gave.flushUploads (h : textures.Gave tile) : textures.flushUploads.Gave tile := by
  obtain ⟨texture, hget, hlive⟩ := h
  refine ⟨texture.writeAll (textures.uploadsOf tile.textureId), ?_, ?_⟩
  · rw [get_flushUploads, hget]
    rfl
  · rw [writeAll_eq]
    exact hlive

lemma Removes.gave (h : textures.Hold) {removed : PlacedTile}
    (hget : textures.storage.get removed.textureId = some texture)
    (hspec : textures.Removes removed texture after) (hremoved : textures.Gave removed)
    (hgave : textures.Gave tile)
    (hne : tile.textureId = removed.textureId → tile.tileId ≠ removed.tileId) :
    after.Gave tile := by
  obtain ⟨holder, hholder, rectangle, hmem, hcovers⟩ := hgave
  rcases eq_or_ne tile.textureId removed.textureId with hid | hid
  · obtain ⟨texture', hget', other, hmem', -⟩ := hremoved
    obtain rfl := Option.some.inj (hget.symm.trans hget')
    obtain rfl := Option.some.inj (hget.symm.trans (hid ▸ hholder))
    have hleft : (tile.tileId, rectangle) ∈
        (live texture.allocator).filter fun allocation => allocation.1 ≠ removed.tileId :=
      mem_filter.mpr ⟨hmem, by simpa using hne hid⟩
    have hlength := length_filter_key_ne (h.nodup _ _ hget) hmem'
    rcases hspec.self with ⟨hzero, -⟩ | ⟨-, -, hsome⟩
    · rw [h.count _ _ hget, ← hlength] at hzero
      exact absurd (length_pos_of_mem hleft) (by simp only [hzero]; omega)
    · refine ⟨_, hid ▸ hsome, rectangle, ?_, hcovers⟩
      rw [LawfulAtlasAllocator.live_deallocate]
      exact hleft
  · exact ⟨holder, (hspec.others _ hid).1.trans hholder, rectangle, hmem, hcovers⟩

variable {result : Option PlacedTile}

lemma Allocates.shows (ha : textures.Allocates size kind after result)
    (h : textures.Shows content key tile)
    (hthere : textures.storage.get tile.textureId ≠ none ∨ tile.textureId.kind ≠ kind) :
    after.Shows content key tile := by
  refine h.of_kept ha.color (by rw [uploadsOf, uploadsOf, ha.pending]) fun texture hget => ?_
  have hbase : ∀ base, textures.Base tile.textureId base → tile.textureId.kind = kind →
      ∃ before, textures.storage.get tile.textureId = some before ∧
        base.format = before.format ∧ base.texture = before.texture := by
    rintro base (⟨before, hbefore, hkept⟩ | ⟨hnone, -⟩) hkind
    · exact ⟨before, hbefore, hkept.format, hkept.pixels⟩
    · rcases hthere with hthere | hother
      · exact absurd hnone hthere
      · exact absurd hkind hother
  by_cases hkind : tile.textureId.kind = kind
  · rcases ha.get_cases hget with hkept | ⟨given, base, -, -, hgiven, htile, rfl⟩
    · exact hbase texture hkept hkind
    · obtain ⟨before, hbefore, hformat, hpixels⟩ := hbase base hgiven hkind
      obtain ⟨-, hformat', hpixels', -⟩ := allocate_some htile
      exact ⟨before, hbefore, hformat'.trans hformat, hpixels'.trans hpixels⟩
  · rw [WgpuAtlasStorage.get_congr (ha.others _ hkind)] at hget
    exact ⟨texture, hget, rfl, rfl⟩

lemma Allocates.gave (ha : textures.Allocates size kind after result) (h : textures.Gave tile) :
    after.Gave tile := by
  obtain ⟨texture, hget, rectangle, hmem, hcovers⟩ := h
  by_cases hgiven : ∃ given, result = some given ∧ given.textureId = tile.textureId
  · obtain ⟨given, hresult, hid⟩ := hgiven
    obtain ⟨-, base, hbase, hallocate, hafter⟩ := ha.given given hresult
    obtain ⟨-, -, -, -, -, -, other, hlive, -⟩ := allocate_some hallocate
    rw [hid] at hbase hafter
    rcases hbase with ⟨before, hbefore, hkept⟩ | ⟨hnone, -⟩
    · obtain rfl := Option.some.inj (hget.symm.trans hbefore)
      refine ⟨_, hafter, rectangle, ?_, hcovers⟩
      rw [hlive, hkept.live]
      exact mem_cons_of_mem _ hmem
    · rw [hget] at hnone
      cases hnone
  · push Not at hgiven
    rcases ha.rest _ hgiven with ⟨-, hnone⟩ | ⟨kept, hafter, ⟨before, hbefore, hkept⟩ | ⟨hnone, -⟩⟩
    · rw [hget] at hnone
      cases hnone
    · obtain rfl := Option.some.inj (hget.symm.trans hbefore)
      exact ⟨kept, hafter, rectangle, hkept.live ▸ hmem, hcovers⟩
    · rw [hget] at hnone
      cases hnone

lemma Allocates.given_apart {given : PlacedTile}
    (ha : textures.Allocates size kind after (some given)) :
    after.Gave given ∧ given.bounds.size = size ∧
      ∀ tile, textures.Gave tile → tile.textureId = given.textureId →
        tile.tileId ≠ given.tileId ∧
          ∀ x y, given.bounds.HasPixel x y → ¬tile.bounds.HasPixel x y := by
  obtain ⟨-, base, hbase, hallocate, hafter⟩ := ha.given given rfl
  obtain ⟨-, -, -, -, -, hsize, rectangle, hlive, hapart, hcovers⟩ :=
    allocate_some hallocate
  refine ⟨⟨_, hafter, rectangle, hlive ▸ mem_cons_self, hcovers⟩, hsize, ?_⟩
  rintro tile ⟨texture, hget, rectangle', hmem, hcovers'⟩ hid
  rw [hid] at hget
  rcases hbase with ⟨before, hbefore, hkept⟩ | ⟨hnone, -⟩
  · obtain rfl := Option.some.inj (hget.symm.trans hbefore)
    obtain ⟨hne, hdisjoint⟩ := hapart _ (hkept.live ▸ hmem)
    exact ⟨hne, fun x y hgiven htile => hdisjoint x y (hcovers x y hgiven) (hcovers' x y htile)⟩
  · rw [hget] at hnone
    cases hnone

end WgpuAtlasTextures

namespace AtlasState

variable [AtlasAllocator A] [LawfulAtlasAllocator A]

/-- What holds of an atlas: every key that has a tile has one a texture of its kind gave, no two
keys the same, and its content shows there. -/
structure Holds (atlas : AtlasState A) : Prop where
  textures : atlas.backend.Hold
  kind : ∀ key tile, atlas.tilesByKey key = some tile → tile.textureId.kind = key.textureKind
  gave : ∀ key tile, atlas.tilesByKey key = some tile → atlas.backend.Gave tile
  injective : ∀ key other tile tile', atlas.tilesByKey key = some tile →
    atlas.tilesByKey other = some tile' → tile.textureId = tile'.textureId →
    tile.tileId = tile'.tileId → key = other
  shows : ∀ key tile, atlas.tilesByKey key = some tile →
    atlas.backend.Shows content key tile

variable {content} {atlas : AtlasState A}

section

variable (h : atlas.Holds content)
include h

lemma Holds.of_textures {backend : WgpuAtlasTextures A} (hold : backend.Hold)
    (hgave : ∀ tile, atlas.backend.Gave tile → backend.Gave tile)
    (hshows : ∀ key tile, atlas.tilesByKey key = some tile → backend.Shows content key tile) :
    Holds content { atlas with backend } :=
  ⟨hold, h.kind, fun key tile htile => hgave tile (h.gave key tile htile), h.injective, hshows⟩

lemma Holds.insert {key : AtlasKey} {size : Size ℤ} {bytes : List UInt8}
    (hcontent : content key = some (size, bytes)) (hnone : atlas.tilesByKey key = none)
    {allocated : WgpuAtlasTextures A} {given : PlacedTile}
    (ha : atlas.backend.Allocates size key.textureKind allocated (some given)) :
    Holds content ⟨update atlas.tilesByKey key (some given),
      allocated.uploadTexture given.textureId given.bounds bytes⟩ := by
  obtain ⟨hgave, hsize, hapart⟩ := ha.given_apart
  have hallocated := ha.hold h.textures
  have hkind := (ha.given given rfl).1
  obtain ⟨texture, hget, -⟩ := id hgave
  -- every key is the one inserted, or had its tile before
  have hcases : ∀ other tile, update atlas.tilesByKey key (some given) other = some tile →
      other = key ∧ tile = given ∨ other ≠ key ∧ atlas.tilesByKey other = some tile := by
    intro other tile htile
    rcases eq_or_ne other key with rfl | hne
    · rw [update_self] at htile
      exact .inl ⟨rfl, (Option.some.inj htile).symm⟩
    · rw [update_of_ne hne] at htile
      exact .inr ⟨hne, htile⟩
  refine ⟨⟨hallocated.id_eq, hallocated.format_eq, hallocated.count, hallocated.nodup,
    hallocated.free_nodup, hallocated.free⟩, ?_, ?_, ?_, ?_⟩
  · intro other tile htile
    rcases hcases other tile htile with ⟨rfl, rfl⟩ | ⟨-, hbefore⟩
    · exact hkind
    · exact h.kind other tile hbefore
  · intro other tile htile
    rcases hcases other tile htile with ⟨rfl, rfl⟩ | ⟨-, hbefore⟩
    · exact hgave
    · exact ha.gave (h.gave other tile hbefore)
  · intro first second tile tile' htile htile' hid htileId
    rcases hcases first tile htile with ⟨rfl, rfl⟩ | ⟨-, hbefore⟩ <;>
      rcases hcases second tile' htile' with ⟨rfl, rfl⟩ | ⟨-, hbefore'⟩
    · rfl
    · exact absurd htileId.symm (hapart tile' (h.gave second tile' hbefore') hid.symm).1
    · exact absurd htileId (hapart tile (h.gave first tile hbefore) hid).1
    · exact h.injective first second tile tile' hbefore hbefore' hid htileId
  · intro other tile htile
    rcases hcases other tile htile with ⟨rfl, rfl⟩ | ⟨-, hbefore⟩
    · refine WgpuAtlasTextures.shows_uploadTexture hcontent hsize hget ?_
      rw [hallocated.format_eq _ _ hget, hkind]
    · have hother := h.gave other tile hbefore
      have hthere : atlas.backend.storage.get tile.textureId ≠ none := by
        obtain ⟨_, hsome, -⟩ := hother
        rw [hsome]
        nofun
      exact (ha.shows (h.shows other tile hbefore) (.inl hthere)).uploadTexture bytes hget
        fun hid => (hapart tile hother hid.symm).2

variable (key : AtlasKey) {other : AtlasKey} {tile : PlacedTile}

lemma Holds.getOrInsertWith : (atlas.getOrInsertWith key (content key)).1.Holds content := by
  rw [AtlasState.getOrInsertWith.eq_def]
  cases htile : atlas.tilesByKey key with
  | some tile => exact h
  | none =>
    cases hcontent : content key with
    | none => exact h
    | some built =>
      obtain ⟨size, bytes⟩ := built
      have ha := WgpuAtlasTextures.allocate_spec h.textures size key.textureKind
      dsimp only
      rw [WgpuAtlasTextures.insert]
      rcases hallocate : atlas.backend.allocate size key.textureKind with ⟨allocated, _ | given⟩
      · rw [hallocate] at ha
        refine h.of_textures (ha.hold h.textures) (fun tile => ha.gave) fun other tile hother => ?_
        refine ha.shows (h.shows other tile hother) (.inl ?_)
        obtain ⟨_, hsome, -⟩ := h.gave other tile hother
        rw [hsome]
        nofun
      · rw [hallocate] at ha
        exact h.insert hcontent htile ha

lemma Holds.getOrInsertWith_shows {key : AtlasKey} (hshows : atlas.backend.Shows content other tile)
    (hnone : atlas.tilesByKey key = none)
    (hspares : tile.textureId.kind = key.textureKind →
      atlas.backend.storage.get tile.textureId ≠ none ∧
      ∀ given, (atlas.getOrInsertWith key (content key)).2 = some given →
        given.textureId = tile.textureId →
          ∀ x y, given.bounds.HasPixel x y → ¬tile.bounds.HasPixel x y) :
    (atlas.getOrInsertWith key (content key)).1.backend.Shows content other tile := by
  rw [AtlasState.getOrInsertWith.eq_def, hnone] at hspares ⊢
  cases hcontent : content key with
  | none => exact hshows
  | some built =>
    obtain ⟨size, bytes⟩ := built
    have ha := WgpuAtlasTextures.allocate_spec h.textures size key.textureKind
    have hthere : atlas.backend.storage.get tile.textureId ≠ none ∨
        tile.textureId.kind ≠ key.textureKind := by
      by_cases hkind : tile.textureId.kind = key.textureKind
      · exact .inl (hspares hkind).1
      · exact .inr hkind
    rw [hcontent] at hspares
    dsimp only at hspares ⊢
    rw [WgpuAtlasTextures.insert] at hspares ⊢
    rcases hallocate : atlas.backend.allocate size key.textureKind with ⟨allocated, _ | given⟩
    · rw [hallocate] at ha
      exact ha.shows hshows hthere
    · rw [hallocate] at ha hspares
      obtain ⟨⟨texture, hget, -⟩, -⟩ := ha.given_apart
      refine (ha.shows hshows hthere).uploadTexture bytes hget fun hid => ?_
      exact (hspares (hid ▸ (ha.given given rfl).1)).2 given rfl hid

lemma Holds.remove : (atlas.remove key).Holds content := by
  rw [AtlasState.remove.eq_def]
  cases htile : atlas.tilesByKey key with
  | none => exact h
  | some removed =>
    have hgave := h.gave key removed htile
    obtain ⟨texture, hget, -⟩ := id hgave
    have hspec := WgpuAtlasTextures.remove_spec h.textures hget
    have hcases : ∀ other tile, update atlas.tilesByKey key none other = some tile →
        other ≠ key ∧ atlas.tilesByKey other = some tile := by
      intro other tile hother
      rcases eq_or_ne other key with rfl | hne
      · rw [update_self] at hother
        cases hother
      · rw [update_of_ne hne] at hother
        exact ⟨hne, hother⟩
    refine ⟨hspec.hold h.textures hget hgave, ?_, ?_, ?_, ?_⟩
    · intro other tile hother
      exact h.kind other tile (hcases other tile hother).2
    · intro other tile hother
      obtain ⟨hne, hbefore⟩ := hcases other tile hother
      refine hspec.gave h.textures hget hgave (h.gave other tile hbefore) fun hid htileId => ?_
      exact hne (h.injective other key tile removed hbefore htile hid htileId)
    · intro first second tile tile' hfirst hsecond
      exact h.injective first second tile tile' (hcases first tile hfirst).2
        (hcases second tile' hsecond).2
    · intro other tile hother
      exact (h.shows other tile (hcases other tile hother).2).remove h.textures removed

lemma Holds.remove_shows (hshows : atlas.backend.Shows content other tile) :
    (atlas.remove key).backend.Shows content other tile := by
  rw [AtlasState.remove.eq_def]
  cases atlas.tilesByKey key with
  | none => exact hshows
  | some removed => exact hshows.remove h.textures removed

end

end AtlasState

end GpuiFast
