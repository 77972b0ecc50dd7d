import GpuiFast.SpriteAtlas

namespace GpuiFast

open List Function

variable {A : Type*}

namespace WgpuAtlasStorage

variable {storage : WgpuAtlasStorage A} {id other : AtlasTextureId}
  {slot : Option (WgpuAtlasTexture A)} {texture : WgpuAtlasTexture A}

lemma lt_length_of_get (h : storage.get id = some texture) :
    id.index < (storage id.kind).textures.length := by
  by_contra hle
  rw [get, getElem?_eq_none (by omega)] at h
  simp at h

lemma get_set_self (h : id.index < (storage id.kind).textures.length) :
    (storage.set id slot).get id = slot := by
  simp [get, set, h]

lemma get_set_of_ne (h : other ≠ id) : (storage.set id slot).get other = storage.get other := by
  by_cases hkind : other.kind = id.kind
  · have hindex : id.index ≠ other.index := by
      intro hindex
      apply h
      cases other
      cases id
      simp_all
    simp [get, set, hkind, getElem?_set_ne hindex]
  · simp [get, set, update_of_ne hkind]

lemma join_getElem?_set_self {slots : List (Option (WgpuAtlasTexture A))} {index : ℕ}
    (h : index < slots.length) (texture : WgpuAtlasTexture A) :
    (slots.set index (some texture))[index]?.join = some texture := by
  simp [h]

lemma join_getElem?_concat (slots : List (Option (WgpuAtlasTexture A)))
    (texture : WgpuAtlasTexture A) :
    (slots ++ [some texture])[slots.length]?.join = some texture := by
  simp

lemma get_update (storage : WgpuAtlasStorage A) (kind : AtlasTextureKind)
    (list : AtlasTextureList (WgpuAtlasTexture A)) (index : ℕ) :
    WgpuAtlasStorage.get (update storage kind list) ⟨index, kind⟩ = list.textures[index]?.join := by
  simp [get]

lemma get_congr {after : WgpuAtlasStorage A} (h : after id.kind = storage id.kind) :
    after.get id = storage.get id := by
  rw [get, get, h]

variable (kind : AtlasTextureKind)

lemma length_set :
    ((storage.set id slot) kind).textures.length = (storage kind).textures.length := by
  by_cases hkind : kind = id.kind
  · subst hkind
    simp [set]
  · simp [set, update_of_ne hkind]

lemma freeList_set : ((storage.set id slot) kind).freeList = (storage kind).freeList := by
  by_cases hkind : kind = id.kind
  · subst hkind
    simp [set]
  · simp [set, update_of_ne hkind]

end WgpuAtlasStorage

namespace WgpuAtlasTexture

variable (texture : WgpuAtlasTexture A) (uploads : List PendingUpload)

def writeAll : WgpuAtlasTexture A := uploads.foldl write texture

lemma writeAll_eq : texture.writeAll uploads =
    { texture with texture := (texture.writeAll uploads).texture } := by
  induction uploads generalizing texture with
  | nil => rfl
  | cons upload uploads ih => exact ih (texture.write upload)

lemma writeAll_texture_congr {texture other : WgpuAtlasTexture A}
    (hformat : other.format = texture.format) (hpixels : other.texture = texture.texture) :
    (other.writeAll uploads).texture = (texture.writeAll uploads).texture := by
  induction uploads generalizing texture other with
  | nil => exact hpixels
  | cons upload uploads ih =>
    refine @ih (texture.write upload) (other.write upload) hformat ?_
    simp [write, hformat, hpixels]

end WgpuAtlasTexture

namespace WgpuAtlasTextures

open WgpuAtlasStorage

def uploadsOf (textures : WgpuAtlasTextures A) (id : AtlasTextureId) : List PendingUpload :=
  textures.pendingUploads.filter fun upload => upload.id = id

variable (storage : WgpuAtlasStorage A)

lemma get_writeUpload (upload : PendingUpload) (id : AtlasTextureId) :
    (writeUpload storage upload).get id =
      (storage.get id).map fun texture =>
        if upload.id = id then texture.write upload else texture := by
  rw [writeUpload]
  by_cases hid : upload.id = id
  · subst hid
    cases hget : storage.get upload.id with
    | none => simp [hget]
    | some texture => simp [get_set_self (lt_length_of_get hget)]
  · have hne : id ≠ upload.id := fun h => hid h.symm
    cases hget : storage.get upload.id with
    | none => simp [hid]
    | some texture => simp [hid, get_set_of_ne hne]

variable (uploads : List PendingUpload)

lemma get_foldl_writeUpload (id : AtlasTextureId) :
    (uploads.foldl writeUpload storage).get id =
      (storage.get id).map fun texture =>
        texture.writeAll (uploads.filter fun upload => upload.id = id) := by
  induction uploads generalizing storage with
  | nil => simp [WgpuAtlasTexture.writeAll]
  | cons upload uploads ih =>
    rw [foldl_cons, ih, get_writeUpload]
    by_cases hid : upload.id = id
    · simp [hid, comp_def, WgpuAtlasTexture.writeAll]
    · simp [hid]

lemma get_flushUploads (textures : WgpuAtlasTextures A) (id : AtlasTextureId) :
    textures.flushUploads.storage.get id =
      (textures.storage.get id).map fun texture => texture.writeAll (textures.uploadsOf id) :=
  get_foldl_writeUpload textures.storage textures.pendingUploads id

lemma length_writeUpload (kind : AtlasTextureKind) :
    ((uploads.foldl writeUpload storage) kind).textures.length = (storage kind).textures.length ∧
      ((uploads.foldl writeUpload storage) kind).freeList = (storage kind).freeList := by
  induction uploads generalizing storage with
  | nil => exact ⟨rfl, rfl⟩
  | cons upload uploads ih =>
    rw [foldl_cons]
    obtain ⟨hlength, hfree⟩ := ih (writeUpload storage upload)
    rw [hlength, hfree, writeUpload]
    cases storage.get upload.id with
    | none => exact ⟨rfl, rfl⟩
    | some texture => exact ⟨length_set kind, freeList_set kind⟩

end WgpuAtlasTextures

variable [AtlasAllocator A] [LawfulAtlasAllocator A]

open LawfulAtlasAllocator (live)

namespace WgpuAtlasTexture

structure Kept (before after : WgpuAtlasTexture A) : Prop where
  id : after.id = before.id
  format : after.format = before.format
  pixels : after.texture = before.texture
  live : live after.allocator = live before.allocator
  keys : after.liveAtlasKeys = before.liveAtlasKeys

lemma Kept.refl (texture : WgpuAtlasTexture A) : texture.Kept texture := ⟨rfl, rfl, rfl, rfl, rfl⟩

variable {texture : WgpuAtlasTexture A} {size : Size ℤ}

lemma allocate_none (h : (texture.allocate size).2 = none) :
    texture.Kept (texture.allocate size).1 := by
  rw [allocate] at h ⊢
  split at h
  case h_1 allocator hallocate =>
    have hnone := LawfulAtlasAllocator.live_of_none texture.allocator size (by rw [hallocate])
    simp only [hallocate] at hnone ⊢
    exact ⟨rfl, rfl, rfl, hnone, rfl⟩
  case h_2 => simp at h

lemma allocate_some {tile : PlacedTile} (h : (texture.allocate size).2 = some tile) :
    (texture.allocate size).1.id = texture.id ∧ (texture.allocate size).1.format = texture.format ∧
      (texture.allocate size).1.texture = texture.texture ∧
      (texture.allocate size).1.liveAtlasKeys = texture.liveAtlasKeys + 1 ∧
      tile.textureId = texture.id ∧ tile.bounds.size = size ∧
      ∃ rectangle, live (texture.allocate size).1.allocator =
          (tile.tileId, rectangle) :: live texture.allocator ∧
        (∀ allocation ∈ live texture.allocator, allocation.1 ≠ tile.tileId ∧
          ∀ x y, rectangle.HasPixel x y → ¬allocation.2.HasPixel x y) ∧
        ∀ x y, tile.bounds.HasPixel x y → rectangle.HasPixel x y := by
  rw [allocate] at h ⊢
  split at h
  case h_1 => simp at h
  case h_2 allocator id min hallocate =>
    obtain rfl := Option.some.inj h
    have hsome := LawfulAtlasAllocator.live_of_some texture.allocator size id min
      (by rw [hallocate])
    simp only [hallocate] at hsome ⊢
    exact ⟨trivial, trivial, trivial, trivial, trivial, trivial, hsome⟩

end WgpuAtlasTexture

omit [LawfulAtlasAllocator A] in
lemma allocateLast_length (size : Size ℤ) (slots : List (Option (WgpuAtlasTexture A))) :
    (allocateLast size slots).1.length = slots.length := by
  induction slots with
  | nil => rfl
  | cons slot slots ih =>
    rw [allocateLast]
    split
    case h_1 heq => simpa [heq] using ih
    case h_2 heq =>
      rw [heq] at ih
      cases slot <;> simpa using ih

variable {size : Size ℤ} {slots : List (Option (WgpuAtlasTexture A))}

lemma allocateLast_none (h : (allocateLast size slots).2 = none) (index : ℕ) :
    Option.Rel WgpuAtlasTexture.Kept slots[index]?.join
      (allocateLast size slots).1[index]?.join := by
  induction slots generalizing index with
  | nil => exact .none
  | cons slot slots ih =>
    rw [allocateLast] at h ⊢
    split at h
    case h_1 => simp at h
    case h_2 heq =>
      rw [heq] at ih
      cases slot with
      | none =>
        cases index with
        | zero => exact .none
        | succ index => simpa [heq] using ih rfl index
      | some texture =>
        cases index with
        | zero => simpa [heq] using Option.Rel.some (WgpuAtlasTexture.allocate_none h)
        | succ index => simpa [heq] using ih rfl index

lemma allocateLast_some {tile : PlacedTile} (h : (allocateLast size slots).2 = some tile) :
    ∃ (index : ℕ) (texture : WgpuAtlasTexture A), slots[index]?.join = some texture ∧
      (texture.allocate size).2 = some tile ∧
      (allocateLast size slots).1[index]?.join = some (texture.allocate size).1 ∧
      ∀ other, other ≠ index → Option.Rel WgpuAtlasTexture.Kept slots[other]?.join
        (allocateLast size slots).1[other]?.join := by
  induction slots with
  | nil => simp [allocateLast] at h
  | cons slot slots ih =>
    rw [allocateLast] at h ⊢
    split at h
    case h_1 slots' tile' heq =>
      obtain rfl := Option.some.inj h
      rw [heq] at ih
      obtain ⟨index, texture, hslot, htile, hafter, hothers⟩ := ih rfl
      refine ⟨index + 1, texture, by simpa using hslot, htile, by simpa [heq] using hafter, ?_⟩
      rintro (_ | other) hother
      · cases slot with
        | none => simp
        | some texture => simpa using Option.Rel.some (.refl texture)
      · simpa [heq] using hothers other (by omega)
    case h_2 slots' heq =>
      cases slot with
      | none => simp at h
      | some texture =>
        refine ⟨0, texture, rfl, h, by simp, ?_⟩
        rintro (_ | other) hother
        · exact absurd rfl hother
        · have hkept := @allocateLast_none A _ _ size slots (by rw [heq]) other
          simpa [heq] using hkept

namespace WgpuAtlasTextures

open WgpuAtlasStorage

structure Fresh (textures : WgpuAtlasTextures A) (id : AtlasTextureId)
    (texture : WgpuAtlasTexture A) : Prop where
  format : texture.format = textures.format id.kind
  id : texture.id = id
  live : live texture.allocator = []
  keys : texture.liveAtlasKeys = 0

def Base (textures : WgpuAtlasTextures A) (id : AtlasTextureId) (texture : WgpuAtlasTexture A) :
    Prop :=
  (∃ before, textures.storage.get id = some before ∧ before.Kept texture) ∨
    textures.storage.get id = none ∧ textures.Fresh id texture

/-- What holds of the textures by themselves: they know their slots, count the tiles they gave, and
only empty slots are free. -/
structure Hold (textures : WgpuAtlasTextures A) : Prop where
  id_eq : ∀ id texture, textures.storage.get id = some texture → texture.id = id
  format_eq : ∀ id texture, textures.storage.get id = some texture →
    texture.format = textures.format id.kind
  count : ∀ id texture, textures.storage.get id = some texture →
    texture.liveAtlasKeys = (live texture.allocator).length
  nodup : ∀ id texture, textures.storage.get id = some texture →
    ((live texture.allocator).map Prod.fst).Nodup
  free_nodup : ∀ kind, (textures.storage kind).freeList.Nodup
  free : ∀ kind, ∀ index ∈ (textures.storage kind).freeList,
    index < (textures.storage kind).textures.length ∧ textures.storage.get ⟨index, kind⟩ = none

structure Allocates (textures : WgpuAtlasTextures A) (size : Size ℤ) (kind : AtlasTextureKind)
    (after : WgpuAtlasTextures A) (result : Option PlacedTile) : Prop where
  color : after.colorTextureFormat = textures.colorTextureFormat
  pending : after.pendingUploads = textures.pendingUploads
  others : ∀ other, other ≠ kind → after.storage other = textures.storage other
  given : ∀ tile, result = some tile → tile.textureId.kind = kind ∧
    ∃ texture, textures.Base tile.textureId texture ∧
      (texture.allocate size).2 = some tile ∧
      after.storage.get tile.textureId = some (texture.allocate size).1
  rest : ∀ id, (∀ tile, result = some tile → tile.textureId ≠ id) →
    after.storage.get id = none ∧ textures.storage.get id = none ∨
      ∃ texture, after.storage.get id = some texture ∧ textures.Base id texture
  free_nodup : (after.storage kind).freeList.Nodup
  free : ∀ index ∈ (after.storage kind).freeList,
    index < (after.storage kind).textures.length ∧ after.storage.get ⟨index, kind⟩ = none

variable {textures : WgpuAtlasTextures A} {kind : AtlasTextureKind} {after : WgpuAtlasTextures A}
  {id : AtlasTextureId} {size : Size ℤ} {texture : WgpuAtlasTexture A}

lemma pushTexture_spec (hnodup : (textures.storage kind).freeList.Nodup)
    (hfree : ∀ index ∈ (textures.storage kind).freeList,
      index < (textures.storage kind).textures.length ∧ textures.storage.get ⟨index, kind⟩ = none)
    (minSize : Size ℤ) (h : textures.pushTexture minSize kind = (after, id)) :
    after.colorTextureFormat = textures.colorTextureFormat ∧
      after.pendingUploads = textures.pendingUploads ∧
      (∀ other, other ≠ kind → after.storage other = textures.storage other) ∧
      id.kind = kind ∧ textures.storage.get id = none ∧
      (∃ texture, after.storage.get id = some texture ∧ textures.Fresh id texture) ∧
      (∀ other, other ≠ id → after.storage.get other = textures.storage.get other) ∧
      (after.storage kind).freeList.Nodup ∧
      ∀ index ∈ (after.storage kind).freeList,
        index < (after.storage kind).textures.length ∧ after.storage.get ⟨index, kind⟩ = none := by
  rw [pushTexture] at h
  split at h
  case h_1 index freeList hlist =>
    obtain ⟨rfl, rfl⟩ := Prod.mk.inj h
    rw [hlist] at hnodup hfree
    obtain ⟨hnot, hnodup⟩ := nodup_cons.mp hnodup
    obtain ⟨hlt, hnone⟩ := hfree index mem_cons_self
    have hothers : ∀ other : AtlasTextureId, other ≠ ⟨index, kind⟩ → ∀ slot,
        WgpuAtlasStorage.get (update textures.storage kind
          ⟨(textures.storage kind).textures.set index slot, freeList⟩) other =
          textures.storage.get other := by
      intro other hother slot
      by_cases hkind : other.kind = kind
      · subst hkind
        have hindex : index ≠ other.index := by
          rintro rfl
          exact hother rfl
        simp [WgpuAtlasStorage.get, getElem?_set_ne hindex]
      · simp [WgpuAtlasStorage.get, update_of_ne hkind]
    refine ⟨rfl, rfl, fun other hother => update_of_ne hother _ _, rfl, hnone, ?_,
      fun other hother => hothers other hother _, by simpa using hnodup, ?_⟩
    · exact ⟨_, (get_update _ _ _ _).trans (join_getElem?_set_self hlt _),
        ⟨rfl, rfl, LawfulAtlasAllocator.live_new _, rfl⟩⟩
    · intro other hmem
      replace hmem : other ∈ freeList := by simpa using hmem
      have hne : other ≠ index := by
        rintro rfl
        exact hnot hmem
      obtain ⟨hlt', hnone'⟩ := hfree other (mem_cons_of_mem _ hmem)
      exact ⟨by simpa using hlt', (hothers ⟨other, kind⟩ (by simpa using hne) _).trans hnone'⟩
  case h_2 hlist =>
    obtain ⟨rfl, rfl⟩ := Prod.mk.inj h
    refine ⟨rfl, rfl, fun other hother => update_of_ne hother _ _, rfl,
      by simp [WgpuAtlasStorage.get], ⟨_, (get_update _ _ _ _).trans (join_getElem?_concat _ _),
        ⟨rfl, rfl, LawfulAtlasAllocator.live_new _, rfl⟩⟩, ?_, by simp, by simp⟩
    intro other hother
    by_cases hkind : other.kind = kind
    · subst hkind
      have hindex : other.index ≠ (textures.storage other.kind).textures.length := by
        intro hindex
        exact hother (by rw [← hindex])
      rcases lt_or_gt_of_ne hindex with hlt | hgt
      · simp [WgpuAtlasStorage.get, getElem?_append_left hlt]
      · have hgt' : (textures.storage other.kind).textures.length + 1 ≤ other.index := hgt
        simp [WgpuAtlasStorage.get, getElem?_eq_none hgt.le, getElem?_eq_none, hgt']
    · simp [WgpuAtlasStorage.get, update_of_ne hkind]

omit [AtlasAllocator A] [LawfulAtlasAllocator A] in
lemma get_slots (textures : WgpuAtlasTextures A) (kind : AtlasTextureKind)
    (slots : List (Option (WgpuAtlasTexture A))) (id : AtlasTextureId) :
    WgpuAtlasStorage.get (update textures.storage kind
        { textures.storage kind with textures := slots }) id =
      if id.kind = kind then slots[id.index]?.join else textures.storage.get id := by
  by_cases hkind : id.kind = kind
  · subst hkind
    simp [WgpuAtlasStorage.get]
  · simp [WgpuAtlasStorage.get, hkind]

lemma base_of_rel {slot : Option (WgpuAtlasTexture A)}
    (h : Option.Rel WgpuAtlasTexture.Kept (textures.storage.get id) slot) :
    slot = none ∧ textures.storage.get id = none ∨
      ∃ texture, slot = some texture ∧ textures.Base id texture := by
  cases hget : textures.storage.get id with
  | none =>
    rw [hget] at h
    cases h
    exact .inl ⟨rfl, rfl⟩
  | some before =>
    rw [hget] at h
    cases h with
    | some hkept => exact .inr ⟨_, rfl, .inl ⟨before, hget, hkept⟩⟩

lemma rel_kept_refl (slot : Option (WgpuAtlasTexture A)) :
    Option.Rel WgpuAtlasTexture.Kept slot slot := by
  cases slot with
  | none => exact .none
  | some texture => exact .some (.refl texture)

lemma eq_none_of_rel {before after : Option (WgpuAtlasTexture A)}
    (h : Option.Rel WgpuAtlasTexture.Kept before after) (hnone : before = none) : after = none := by
  subst hnone
  cases h
  rfl

variable {slots : List (Option (WgpuAtlasTexture A))} {result : Option PlacedTile}

lemma allocates_last (h : textures.Hold) {tile : PlacedTile}
    (heq : allocateLast size (textures.storage kind).textures = (slots, some tile)) :
    textures.Allocates size kind
      { textures with
        storage := update textures.storage kind
          { textures.storage kind with textures := slots } }
      (some tile) := by
  have hlength := allocateLast_length size (textures.storage kind).textures
  obtain ⟨index, texture, hslot, htile, hafter, hothers⟩ :=
    @allocateLast_some A _ _ size (textures.storage kind).textures tile (by rw [heq])
  rw [heq] at hlength hafter hothers
  have hget : textures.storage.get ⟨index, kind⟩ = some texture := hslot
  have hid : tile.textureId = ⟨index, kind⟩ :=
    (WgpuAtlasTexture.allocate_some htile).2.2.2.2.1.trans (h.id_eq _ _ hget)
  refine ⟨rfl, rfl, fun other hother => update_of_ne hother _ _, ?_, ?_, ?_, ?_⟩
  · intro tile' htile'
    obtain rfl := Option.some.inj htile'
    rw [hid]
    refine ⟨rfl, texture, .inl ⟨texture, hget, .refl texture⟩, htile, ?_⟩
    rw [get_slots, if_pos rfl]
    exact hafter
  · intro id hne
    rw [get_slots]
    by_cases hkind : id.kind = kind
    · subst hkind
      rw [if_pos rfl]
      refine base_of_rel (hothers id.index ?_)
      rintro rfl
      exact hne tile rfl hid
    · rw [if_neg hkind]
      exact base_of_rel (rel_kept_refl _)
  · simpa using h.free_nodup kind
  · intro other hother
    obtain ⟨hlt, hnone⟩ := h.free kind other (by simpa using hother)
    refine ⟨by simpa [hlength] using hlt, ?_⟩
    rw [get_slots, if_pos rfl]
    refine eq_none_of_rel (hothers other ?_) hnone
    rintro rfl
    rw [hget] at hnone
    cases hnone

lemma allocates_none (h : textures.Hold)
    (heq : allocateLast size (textures.storage kind).textures = (slots, none)) :
    textures.Allocates size kind
      { textures with
        storage := update textures.storage kind
          { textures.storage kind with textures := slots } }
      none := by
  have hlength := allocateLast_length size (textures.storage kind).textures
  have hkept := @allocateLast_none A _ _ size (textures.storage kind).textures (by rw [heq])
  rw [heq] at hlength hkept
  refine ⟨rfl, rfl, fun other hother => update_of_ne hother _ _, by simp, ?_, ?_, ?_⟩
  · intro id _
    rw [get_slots]
    by_cases hkind : id.kind = kind
    · subst hkind
      rw [if_pos rfl]
      exact base_of_rel (hkept id.index)
    · rw [if_neg hkind]
      exact base_of_rel (rel_kept_refl _)
  · simpa using h.free_nodup kind
  · intro other hother
    obtain ⟨hlt, hnone⟩ := h.free kind other (by simpa using hother)
    refine ⟨by simpa [hlength] using hlt, ?_⟩
    rw [get_slots, if_pos rfl]
    exact eq_none_of_rel (hkept other) hnone

lemma Allocates.push {asked pushed : WgpuAtlasTextures A}
    (h : textures.Allocates size kind asked none)
    (hpush : asked.pushTexture size kind = (pushed, id))
    (hget : pushed.storage.get id = some texture) :
    textures.Allocates size kind
      { pushed with storage := pushed.storage.set id (some (texture.allocate size).1) }
      (texture.allocate size).2 := by
  obtain ⟨hcolor, hpending, hothers, rfl, hnone, ⟨fresh, hfresh, hnew⟩, hrest, hnodup, hfree⟩ :=
    pushTexture_spec h.free_nodup h.free size hpush
  obtain rfl := Option.some.inj (hget.symm.trans hfresh)
  have hself : (pushed.storage.set id (some (texture.allocate size).1)).get id =
      some (texture.allocate size).1 := get_set_self (lt_length_of_get hget)
  have hbefore : textures.storage.get id = none := by
    rcases h.rest id (by simp) with ⟨-, hbefore⟩ | ⟨_, hsome, -⟩
    · exact hbefore
    · rw [hnone] at hsome
      cases hsome
  have hmade : textures.Fresh id texture := by
    refine ⟨?_, hnew.id, hnew.live, hnew.keys⟩
    rw [hnew.format, format.eq_def, format.eq_def, h.color]
  refine ⟨hcolor.trans h.color, hpending.trans h.pending, ?_, ?_, ?_, ?_, ?_⟩
  · intro other hother
    exact (update_of_ne hother _ _).trans ((hothers other hother).trans
      (h.others other hother))
  · intro tile htile
    have hid : tile.textureId = id :=
      (WgpuAtlasTexture.allocate_some htile).2.2.2.2.1.trans hnew.id
    rw [hid]
    exact ⟨rfl, texture, .inr ⟨hbefore, hmade⟩, htile, hself⟩
  · intro other hother
    by_cases hid : other = id
    · subst hid
      refine .inr ⟨_, hself, ?_⟩
      cases htile : (texture.allocate size).2 with
      | none =>
        have hkept := WgpuAtlasTexture.allocate_none htile
        exact .inr ⟨hbefore, ⟨hkept.format.trans hmade.format, hkept.id.trans hmade.id,
          hkept.live.trans hmade.live, hkept.keys.trans hmade.keys⟩⟩
      | some tile =>
        exact absurd ((WgpuAtlasTexture.allocate_some htile).2.2.2.2.1.trans hnew.id)
          (hother tile htile)
    · rw [get_set_of_ne hid, hrest other hid]
      exact h.rest other (by simp)
  · rw [freeList_set]
    exact hnodup
  · intro index hindex
    rw [freeList_set] at hindex
    obtain ⟨hlt, hnone'⟩ := hfree index hindex
    refine ⟨by rwa [WgpuAtlasStorage.length_set], ?_⟩
    rw [get_set_of_ne, hnone']
    intro hid
    rw [hid, hget] at hnone'
    cases hnone'

lemma allocate_spec (h : textures.Hold) (size : Size ℤ) (kind : AtlasTextureKind) :
    textures.Allocates size kind (textures.allocate size kind).1
      (textures.allocate size kind).2 := by
  rw [allocate]
  split
  case h_1 slots tile heq => exact allocates_last h heq
  case h_2 slots heq =>
    have hasked := allocates_none h heq
    dsimp only
    split
    case isTrue =>
      split
      case h_1 hnone =>
        obtain ⟨-, -, -, -, -, ⟨texture, hsome, -⟩, -⟩ :=
          pushTexture_spec hasked.free_nodup hasked.free size rfl
        exact absurd (hnone.symm.trans hsome) nofun
      case h_2 texture hget => exact hasked.push rfl hget
    case isFalse => exact hasked

lemma Base.id_eq (h : textures.Hold) (hbase : textures.Base id texture) : texture.id = id := by
  rcases hbase with ⟨before, hget, hkept⟩ | ⟨-, hfresh⟩
  · exact hkept.id.trans (h.id_eq id before hget)
  · exact hfresh.id

lemma Base.format_eq (h : textures.Hold) (hbase : textures.Base id texture) :
    texture.format = textures.format id.kind := by
  rcases hbase with ⟨before, hget, hkept⟩ | ⟨-, hfresh⟩
  · exact hkept.format.trans (h.format_eq id before hget)
  · exact hfresh.format

lemma Base.counts (h : textures.Hold) (hbase : textures.Base id texture) :
    texture.liveAtlasKeys = (live texture.allocator).length ∧
      ((live texture.allocator).map Prod.fst).Nodup := by
  rcases hbase with ⟨before, hget, hkept⟩ | ⟨-, hfresh⟩
  · rw [hkept.live, hkept.keys]
    exact ⟨h.count id before hget, h.nodup id before hget⟩
  · rw [hfresh.live, hfresh.keys]
    exact ⟨rfl, nodup_nil⟩

lemma Allocates.get_cases (ha : textures.Allocates size kind after result)
    (hget : after.storage.get id = some texture) :
    textures.Base id texture ∨ ∃ tile base, result = some tile ∧ tile.textureId = id ∧
      textures.Base id base ∧ (base.allocate size).2 = some tile ∧
      texture = (base.allocate size).1 := by
  by_cases hgiven : ∃ tile, result = some tile ∧ tile.textureId = id
  · obtain ⟨tile, hresult, rfl⟩ := hgiven
    obtain ⟨-, base, hbase, htile, hafter⟩ := ha.given tile hresult
    exact .inr ⟨tile, base, hresult, rfl, hbase, htile, Option.some.inj (hget.symm.trans hafter)⟩
  · push Not at hgiven
    rcases ha.rest id hgiven with ⟨hnone, -⟩ | ⟨texture', hsome, hbase⟩
    · rw [hget] at hnone
      cases hnone
    · obtain rfl := Option.some.inj (hget.symm.trans hsome)
      exact .inl hbase

omit [AtlasAllocator A] [LawfulAtlasAllocator A] in
lemma format_congr (h : after.colorTextureFormat = textures.colorTextureFormat)
    (kind : AtlasTextureKind) : after.format kind = textures.format kind := by
  rw [format.eq_def, format.eq_def, h]

lemma Allocates.hold (h : textures.Hold) (ha : textures.Allocates size kind after result) :
    after.Hold := by
  have hfree : ∀ other, (after.storage other).freeList.Nodup ∧
      ∀ index ∈ (after.storage other).freeList,
        index < (after.storage other).textures.length ∧
          after.storage.get ⟨index, other⟩ = none := by
    intro other
    by_cases hother : other = kind
    · subst hother
      exact ⟨ha.free_nodup, ha.free⟩
    · rw [ha.others other hother]
      refine ⟨h.free_nodup other, fun index hindex => ?_⟩
      obtain ⟨hlt, hnone⟩ := h.free other index hindex
      exact ⟨hlt, (get_congr (ha.others other hother)).trans hnone⟩
  have hall : ∀ id texture, after.storage.get id = some texture →
      texture.id = id ∧ texture.format = textures.format id.kind ∧
        texture.liveAtlasKeys = (live texture.allocator).length ∧
        ((live texture.allocator).map Prod.fst).Nodup := by
    intro id texture hget
    rcases ha.get_cases hget with hbase | ⟨tile, base, -, -, hbase, htile, rfl⟩
    · exact ⟨hbase.id_eq h, hbase.format_eq h, hbase.counts h⟩
    · obtain ⟨hid, hformat, -, hkeys, -, -, rectangle, hlive, hfresh, -⟩ :=
        WgpuAtlasTexture.allocate_some htile
      obtain ⟨hcount, hnodup⟩ := hbase.counts h
      refine ⟨hid.trans (hbase.id_eq h), hformat.trans (hbase.format_eq h), ?_, ?_⟩
      · rw [hkeys, hlive, hcount, length_cons]
      · rw [hlive, map_cons, nodup_cons]
        refine ⟨?_, hnodup⟩
        rintro hmem
        obtain ⟨allocation, hallocation, heq⟩ := mem_map.mp hmem
        exact (hfresh allocation hallocation).1 heq
  refine ⟨fun id texture hget => (hall id texture hget).1, ?_,
    fun id texture hget => (hall id texture hget).2.2.1,
    fun id texture hget => (hall id texture hget).2.2.2, fun kind => (hfree kind).1,
    fun kind => (hfree kind).2⟩
  intro id texture hget
  rw [(hall id texture hget).2.1, format_congr ha.color]

end WgpuAtlasTextures

end GpuiFast
