import GpuiFast.LayerTileOrder
import GpuiFast.OptionMaps

/-! The tiles of a scroll layer that show in its viewport are composited as sprites whose texture says
which layer they are of and whose tile id packs the tile's two coordinates into one word. Debug
builds assert that the coordinates fit, release builds do not. -/

namespace GpuiFast

open List Option

def LAYER_TILE_TEXTURE_BASE : ℕ := 0xF0000000

def LAYER_KEY_LIMIT : ℕ := 0x01000000

def TILE_COORD_BIAS : ℤ := 2048

def layerTileTextureId (debug : Bool) (layer : ℕ) : Option AtlasTextureId :=
  if debug ∧ ¬ layer < LAYER_KEY_LIMIT then none
  else some ⟨(LAYER_TILE_TEXTURE_BASE + layer) % 2 ^ 32, .polychrome⟩

def layerTileId (debug : Bool) (tile : TileCoord) : Option ℕ :=
  if debug ∧ ¬ ((-TILE_COORD_BIAS ≤ tile.x ∧ tile.x < TILE_COORD_BIAS) ∧
      -TILE_COORD_BIAS ≤ tile.y ∧ tile.y < TILE_COORD_BIAS) then none
  else
    let x := BitVec.ofInt 32 (tile.x + TILE_COORD_BIAS)
    let y := BitVec.ofInt 32 (tile.y + TILE_COORD_BIAS)
    some (x <<< 16 ||| y).toNat

def decodeLayerTile (texture : AtlasTextureId) (tile : ℕ) : Option (ℕ × TileCoord) :=
  if texture.kind ≠ .polychrome ∨ texture.index < LAYER_TILE_TEXTURE_BASE ∨
      LAYER_KEY_LIMIT ≤ texture.index - LAYER_TILE_TEXTURE_BASE then none
  else some (texture.index - LAYER_TILE_TEXTURE_BASE,
    ⟨((tile >>> 16 : ℕ) : ℤ) - TILE_COORD_BIAS, ((tile &&& 0xFFFF : ℕ) : ℤ) - TILE_COORD_BIAS⟩)

/-- A coordinate whose biased value has 16 bits. -/
def Packs (z : ℤ) : Prop := -2048 ≤ z ∧ z < 63488

lemma packed_toNat {a b : ℤ} (ha : Packs a) (hb : Packs b) :
    (BitVec.ofInt 32 (a + TILE_COORD_BIAS) <<< 16 ||| BitVec.ofInt 32 (b + TILE_COORD_BIAS)).toNat =
      (a + TILE_COORD_BIAS).toNat * 2 ^ 16 + (b + TILE_COORD_BIAS).toNat := by
  have hword : ∀ {z : ℤ}, Packs z → (z + TILE_COORD_BIAS).toNat < 2 ^ 16 ∧
      (BitVec.ofInt 32 (z + TILE_COORD_BIAS)).toNat = (z + TILE_COORD_BIAS).toNat := by
    intro z hz
    obtain ⟨hlow, hhigh⟩ := hz
    simp only [TILE_COORD_BIAS, BitVec.toNat_ofInt]
    omega
  obtain ⟨hx, hxword⟩ := hword ha
  obtain ⟨hy, hyword⟩ := hword hb
  rw [BitVec.toNat_or, BitVec.toNat_shiftLeft, hxword, hyword, Nat.shiftLeft_eq,
    Nat.mod_eq_of_lt (by omega), ← Nat.shiftLeft_eq, ← Nat.shiftLeft_add_eq_or_of_lt hy,
    Nat.shiftLeft_eq]

lemma decodeLayerTile_iff {layer id : ℕ} {tile : TileCoord} {texture : AtlasTextureId}
    {debug : Bool} (hlayer : layer < LAYER_KEY_LIMIT)
    (htexture : layerTileTextureId debug layer = some texture)
    (hid : layerTileId debug tile = some id) :
    decodeLayerTile texture id = some (layer, tile) ↔ Packs tile.x ∧ Packs tile.y := by
  have hindex : texture = ⟨LAYER_TILE_TEXTURE_BASE + layer, .polychrome⟩ := by
    simp only [layerTileTextureId, hlayer, not_true_eq_false, and_false, if_false,
      some.injEq] at htexture
    rw [← htexture, Nat.mod_eq_of_lt]
    simp only [LAYER_KEY_LIMIT, LAYER_TILE_TEXTURE_BASE] at hlayer ⊢
    omega
  have hdecode : decodeLayerTile texture id = some (layer,
      ⟨((id >>> 16 : ℕ) : ℤ) - TILE_COORD_BIAS, ((id &&& 0xFFFF : ℕ) : ℤ) - TILE_COORD_BIAS⟩) := by
    rw [decodeLayerTile, hindex, if_neg]
    · simp
    · simp only [ne_eq, not_true_eq_false, false_or, Nat.add_sub_cancel_left]
      omega
  have hshift : id >>> 16 = id / 2 ^ 16 := Nat.shiftRight_eq_div_pow _ _
  have hmask : id &&& 0xFFFF = id % 2 ^ 16 := Nat.and_two_pow_sub_one_eq_mod id 16
  unfold layerTileId at hid
  split at hid
  · cases hid
  · simp only [some.injEq] at hid
    rw [hdecode, some.injEq, Prod.mk.injEq, TileCoord.mk.injEq, hshift, hmask]
    constructor
    · rintro ⟨-, hx, hy⟩
      have hword : id < 2 ^ 32 := by
        rw [← hid]
        exact BitVec.isLt _
      simp only [Packs, TILE_COORD_BIAS] at hx hy ⊢
      omega
    · rintro ⟨hx, hy⟩
      rw [packed_toNat hx hy] at hid
      obtain ⟨hxlow, hxhigh⟩ := hx
      obtain ⟨hylow, hyhigh⟩ := hy
      simp only [TILE_COORD_BIAS] at hid ⊢
      refine ⟨trivial, ?_, ?_⟩ <;> omega

section Quads

variable {K P : Type*} [Field K] [LinearOrder K] [FloorRing K]

/-- A whole number as the nearest `i32`. -/
def asI32 (z : ℤ) : ℤ := max (-2 ^ 31) (min z (2 ^ 31 - 1))

/-- The whole numbers from `low` up to but without `high`. -/
def wholes (low high : ℤ) : List ℤ := (List.range (high - low).toNat).map (fun n : ℕ => low + n)

/-- The tiles that show in `viewport` with the content moved by `translation`, in rows. -/
def shownTiles (viewport : Bounds K) (translation : Point K) : List TileCoord :=
  let min : Point K := ⟨viewport.origin.x - translation.x, viewport.origin.y - translation.y⟩
  let max := (⟨min, viewport.size⟩ : Bounds K).bottomRight
  let x0 := asI32 ⌊min.x / TILE_SIZE⌋
  let y0 := asI32 ⌊min.y / TILE_SIZE⌋
  let x1 := asI32 ⌈max.x / TILE_SIZE⌉
  let y1 := asI32 ⌈max.y / TILE_SIZE⌉
  (wholes y0 y1).flatMap (fun y => (wholes x0 x1).map (fun x => ⟨x, y⟩))

def tileQuads (debug : Bool) (frame : LayerFrame K P) (layer : ℕ) (viewport : Bounds K)
    (translation : Point K) (rest : P) : Option (List (Primitive K P)) :=
  (layerTileTextureId debug layer).bind (fun texture =>
    (shownTiles viewport translation).mapM (fun coord =>
      (layerTileId debug coord).map (fun id =>
        ⟨.polychromeSprite ⟨texture, id⟩, (frame.tileBounds coord).translate translation, viewport,
          rest⟩)))

/-- Inserts the tiles of a layer that show in `viewport`, all in one layer of the scene. -/
def insertTileQuads (debug : Bool) (scene : Scene K P) (record : Option (LayerContent K P))
    (layer : ℕ) (viewport : Bounds K) (translation : Point K) (rest : P) : Option (Scene K P) :=
  match record with
  | none => some scene
  | some content =>
    if viewport.isEmpty then some scene
    else
      (tileQuads debug ⟨TILE_SIZE, content⟩ layer viewport translation rest).map (fun quads =>
        (quads.foldl Scene.insertPrimitive (scene.pushLayer viewport)).popLayer)

/-- The point lies in `b`, its left and top edges included. -/
def Bounds.HasPoint (b : Bounds K) (p : Point K) : Prop :=
  (b.origin.x ≤ p.x ∧ p.x < b.bottomRight.x) ∧ b.origin.y ≤ p.y ∧ p.y < b.bottomRight.y

/-- `sprites` are the tiles of `layer` over `viewport`: disjoint squares that cover it, each of
them over it and found again by its ids. -/
structure ShowsTiles (layer : ℕ) (viewport : Bounds K) (translation : Point K)
    (sprites : List (Primitive K P)) : Prop where
  squares : ∀ sprite ∈ sprites, sprite.bounds.size = ⟨TILE_SIZE, TILE_SIZE⟩
  disjoint : sprites.Pairwise (fun a b => ∀ p, ¬ (a.bounds.HasPoint p ∧ b.bounds.HasPoint p))
  covers : ∀ p, viewport.HasPoint p → ∃ sprite ∈ sprites, sprite.bounds.HasPoint p
  meets : ∀ sprite ∈ sprites, sprite.bounds.intersects viewport = true
  decodes : ∀ sprite ∈ sprites, ∃ tile coord, sprite.shape = .polychromeSprite tile ∧
    decodeLayerTile tile.textureId tile.tileId = some (layer, coord) ∧
    sprite.bounds = (⟨⟨coord.x * TILE_SIZE, coord.y * TILE_SIZE⟩,
      ⟨TILE_SIZE, TILE_SIZE⟩⟩ : Bounds K).translate translation

/-- What the coordinates of a tile stay below: what an id can pack or, in a debug build, what its
assertions allow. -/
def coordLimit (debug : Bool) : ℕ := if debug then 2048 else 63488

def InReach (debug : Bool) (viewport : Bounds K) (translation : Point K) : Prop :=
  (-(2048 * 512) ≤ viewport.origin.x - translation.x ∧
      viewport.bottomRight.x - translation.x ≤ (coordLimit debug * 512 : ℕ)) ∧
    -(2048 * 512) ≤ viewport.origin.y - translation.y ∧
      viewport.bottomRight.y - translation.y ≤ (coordLimit debug * 512 : ℕ)

lemma mem_wholes {low high z : ℤ} : z ∈ wholes low high ↔ low ≤ z ∧ z < high := by
  simp only [wholes, List.mem_map, mem_range]
  constructor
  · rintro ⟨n, hn, rfl⟩
    omega
  · rintro ⟨hlow, hhigh⟩
    exact ⟨(z - low).toNat, by omega, by omega⟩

lemma wholes_nodup (low high : ℤ) : (wholes low high).Nodup :=
  nodup_range.map fun m n h => by simpa using h

lemma foldl_insertPrimitive (quads : List (Primitive K P))
    (hkind : ∀ quad ∈ quads, quad.kind = .polychromeSprite) (scene : Scene K P) :
    ∃ placed, (quads.foldl Scene.insertPrimitive scene).primitives .polychromeSprite =
        scene.primitives .polychromeSprite ++ placed ∧
      placed.map Placed.primitive = quads.filter (fun quad => !quad.clippedBounds.isEmpty) := by
  induction quads generalizing scene with
  | nil => exact ⟨[], by simp, rfl⟩
  | cons quad quads ih =>
    obtain ⟨placed, hplaced, hquads⟩ :=
      ih (fun quad hquad => hkind quad (mem_cons_of_mem _ hquad)) (scene.insertPrimitive quad)
    rw [foldl_cons, hplaced, filter_cons, Scene.insertPrimitive]
    split
    · rename_i hempty
      exact ⟨placed, rfl, by simpa [hempty] using hquads⟩
    · rename_i hshown
      have hpoly : (⟨quad, (scene.nextOrder quad.clippedBounds).2.1, scene.paintOperations.length,
          (scene.nextOrder quad.clippedBounds).2.2⟩ : Placed K P).kind = .polychromeSprite :=
        hkind quad mem_cons_self
      simp only [hpoly, Function.update_self, append_assoc]
      exact ⟨_, rfl, by simp [hshown, hquads]⟩

end Quads

section Axis

variable {K : Type*} [Field K] [LinearOrder K] [IsStrictOrderedRing K] [FloorRing K]

omit [LinearOrder K] [IsStrictOrderedRing K] [FloorRing K] in
lemma cast_tileSize : ((TILE_SIZE : ℕ) : K) = 512 := by norm_num [TILE_SIZE]

variable {z : ℤ}

lemma asI32_eq (hlow : -2 ^ 31 ≤ z) (hhigh : z < 2 ^ 31) : asI32 z = z := by
  rw [asI32]
  omega

variable {min max : K}

lemma axis_meets (hlow : ⌊min / 512⌋ ≤ z) (hhigh : z < ⌈max / 512⌉) :
    (z : K) * 512 < max ∧ min < z * 512 + 512 := by
  have hmax := Int.lt_ceil.mp hhigh
  have hmin := Int.floor_le_iff.mp hlow
  rw [lt_div_iff₀ (by norm_num)] at hmax
  rw [div_lt_iff₀ (by norm_num)] at hmin
  exact ⟨hmax, by linarith⟩

lemma axis_covers {p : K} (hmin : min ≤ p) (hmax : p < max) :
    (⌊min / 512⌋ ≤ ⌊p / 512⌋ ∧ ⌊p / 512⌋ < ⌈max / 512⌉) ∧
      (⌊p / 512⌋ : K) * 512 ≤ p ∧ p < ⌊p / 512⌋ * 512 + 512 := by
  have hfloor := Int.floor_le (p / 512)
  have hnext := Int.lt_floor_add_one (p / 512)
  rw [le_div_iff₀ (by norm_num)] at hfloor
  rw [div_lt_iff₀ (by norm_num)] at hnext
  refine ⟨⟨?_, ?_⟩, hfloor, by linarith⟩
  · exact Int.floor_mono (by linarith)
  · rw [Int.lt_ceil, lt_div_iff₀ (by norm_num)]
    exact hfloor.trans_lt hmax

lemma axis_reach {limit : ℕ} (hmin : -(2048 * 512) ≤ min) (hmax : max ≤ (limit * 512 : ℕ)) :
    -2048 ≤ ⌊min / 512⌋ ∧ ⌈max / 512⌉ ≤ limit := by
  constructor
  · rw [Int.le_floor, le_div_iff₀ (by norm_num)]
    push_cast
    linarith
  · rw [Int.ceil_le, div_le_iff₀ (by norm_num)]
    push_cast at hmax ⊢
    exact hmax

end Axis

section Shown

variable {K P : Type*} [Field K] [LinearOrder K] [IsStrictOrderedRing K] [FloorRing K]
  {debug : Bool} {content : LayerContent K P} {layer : ℕ} {viewport : Bounds K}
  {translation : Point K} (rest : P)

variable {coord : TileCoord} {texture : AtlasTextureId}

omit [IsStrictOrderedRing K] in
lemma mem_shownTiles : coord ∈ shownTiles viewport translation ↔
    (asI32 ⌊(viewport.origin.x - translation.x) / 512⌋ ≤ coord.x ∧
        coord.x < asI32 ⌈(viewport.bottomRight.x - translation.x) / 512⌉) ∧
      asI32 ⌊(viewport.origin.y - translation.y) / 512⌋ ≤ coord.y ∧
        coord.y < asI32 ⌈(viewport.bottomRight.y - translation.y) / 512⌉ := by
  have hright : ∀ a b c : K, a - c + b = a + b - c := fun a b c => by ring
  simp only [shownTiles, mem_flatMap, List.mem_map, mem_wholes, Bounds.bottomRight,
    cast_tileSize, hright]
  constructor
  · rintro ⟨y, hy, x, hx, rfl⟩
    exact ⟨hx, hy⟩
  · rintro ⟨hx, hy⟩
    exact ⟨coord.y, hy, coord.x, hx, rfl⟩

omit [IsStrictOrderedRing K] in
lemma shownTiles_nodup : (shownTiles viewport translation).Nodup := by
  refine nodup_flatMap.mpr ⟨fun y _ => ?_, ?_⟩
  · exact (wholes_nodup _ _).map fun a b h => (TileCoord.mk.inj h).1
  · refine (wholes_nodup _ _).imp fun {a b} hne => ?_
    intro coord ha hb
    obtain ⟨x, -, rfl⟩ := List.mem_map.mp ha
    obtain ⟨x', -, heq⟩ := List.mem_map.mp hb
    exact hne (TileCoord.mk.inj heq).2.symm

def tileSprite (texture : AtlasTextureId) (viewport : Bounds K) (translation : Point K) (rest : P)
    (coord : TileCoord) (id : ℕ) : Primitive K P :=
  ⟨.polychromeSprite ⟨texture, id⟩, (⟨⟨coord.x * TILE_SIZE, coord.y * TILE_SIZE⟩,
    ⟨TILE_SIZE, TILE_SIZE⟩⟩ : Bounds K).translate translation, viewport, rest⟩

variable {quads : List (Primitive K P)} {id : ℕ}

omit [IsStrictOrderedRing K] in
lemma tileQuads_mem
    (h : tileQuads debug ⟨TILE_SIZE, content⟩ layer viewport translation rest = some quads) :
    ∀ quad ∈ quads, ∃ texture coord id, layerTileTextureId debug layer = some texture ∧
      coord ∈ shownTiles viewport translation ∧ layerTileId debug coord = some id ∧
      quad = tileSprite texture viewport translation rest coord id := by
  obtain ⟨texture, htexture, hquads⟩ := bind_eq_some_iff.mp h
  intro quad hquad
  obtain ⟨coord, hcoord, heq⟩ := mapM_mem hquads quad hquad
  obtain ⟨id, hid, rfl⟩ := map_eq_some_iff.mp heq
  exact ⟨texture, coord, id, htexture, hcoord, hid, rfl⟩

lemma coord_reach (hlayer : layer < LAYER_KEY_LIMIT)
    (htexture : layerTileTextureId debug layer = some texture)
    (hid : layerTileId debug coord = some id)
    (hdecode : decodeLayerTile texture id = some (layer, coord)) :
    (-2048 ≤ coord.x ∧ coord.x < coordLimit debug) ∧
      -2048 ≤ coord.y ∧ coord.y < coordLimit debug := by
  obtain ⟨hx, hy⟩ := (decodeLayerTile_iff hlayer htexture hid).mp hdecode
  cases debug with
  | false => exact ⟨hx, hy⟩
  | true =>
    unfold layerTileId at hid
    split at hid
    · cases hid
    · rename_i hassert
      simp only [true_and, Decidable.not_not, TILE_COORD_BIAS] at hassert
      exact hassert

lemma inReach_of_showsTiles {sprites : List (Primitive K P)} (hlayer : layer < LAYER_KEY_LIMIT)
    (hviewport : viewport.isEmpty = false)
    (hsprites : ∀ sprite ∈ sprites, ∃ texture coord id,
      layerTileTextureId debug layer = some texture ∧ layerTileId debug coord = some id ∧
      sprite = tileSprite texture viewport translation rest coord id)
    (h : ShowsTiles layer viewport translation sprites) : InReach debug viewport translation := by
  -- A sprite over a point has a tile in reach.
  have hover : ∀ p, viewport.HasPoint p → ∃ coord : TileCoord,
      ((-2048 ≤ coord.x ∧ coord.x < coordLimit debug) ∧
        -2048 ≤ coord.y ∧ coord.y < coordLimit debug) ∧
      (coord.x * 512 + translation.x ≤ p.x ∧ p.x < coord.x * 512 + translation.x + 512) ∧
        coord.y * 512 + translation.y ≤ p.y ∧ p.y < coord.y * 512 + translation.y + 512 := by
    intro p hp
    obtain ⟨sprite, hsprite, hpoint⟩ := h.covers p hp
    obtain ⟨texture, coord, id, htexture, hid, rfl⟩ := hsprites sprite hsprite
    obtain ⟨tile, coord', hshape, hdecode, hbounds⟩ := h.decodes _ hsprite
    obtain rfl : (⟨texture, id⟩ : AtlasTile) = tile := by
      simpa [tileSprite] using hshape
    have hcoord : coord' = coord := by
      simp only [tileSprite, Bounds.translate, Bounds.mk.injEq, Point.mk.injEq, add_left_inj,
        cast_tileSize, and_true] at hbounds
      have hx := mul_right_cancel₀ (by norm_num) hbounds.1
      have hy := mul_right_cancel₀ (by norm_num) hbounds.2
      cases coord
      cases coord'
      rw [TileCoord.mk.injEq]
      exact ⟨(Int.cast_injective hx).symm, (Int.cast_injective hy).symm⟩
    rw [hcoord] at hdecode
    refine ⟨coord, coord_reach hlayer htexture hid hdecode, ?_⟩
    simpa [tileSprite, Bounds.HasPoint, Bounds.translate, cast_tileSize] using hpoint
  obtain ⟨hwidth, hheight⟩ := Bounds.isEmpty_eq_false_iff.mp hviewport
  have hlow : ∀ {a t : K} {z : ℤ}, -2048 ≤ z → (z : K) * 512 + t ≤ a → -(2048 * 512) ≤ a - t := by
    intro a t z hz hle
    have hcast : ((-2048 : ℤ) : K) ≤ z := Int.cast_le.mpr hz
    push_cast at hcast
    linarith
  have hhigh : ∀ {p t : K} {z : ℤ}, z < coordLimit debug → p < (z : K) * 512 + t + 512 →
      p < (coordLimit debug * 512 : ℕ) + t := by
    intro p t z hz hlt
    have hcast : ((z + 1 : ℤ) : K) ≤ (coordLimit debug : ℤ) := Int.cast_le.mpr hz
    push_cast at hcast ⊢
    linarith
  obtain ⟨corner, ⟨hcx, hcy⟩, ⟨hx, -⟩, hy, -⟩ := hover viewport.origin ⟨⟨le_rfl, hwidth⟩, le_rfl, hheight⟩
  refine ⟨⟨hlow hcx.1 hx, ?_⟩, hlow hcy.1 hy, ?_⟩
  · by_contra hfar
    obtain ⟨coord, ⟨hc, -⟩, ⟨-, hlt⟩, -⟩ :=
      hover ⟨max viewport.origin.x ((coordLimit debug * 512 : ℕ) + translation.x),
        viewport.origin.y⟩ ⟨⟨le_max_left _ _, max_lt hwidth (by linarith)⟩, le_rfl, hheight⟩
    exact absurd (hhigh hc.2 hlt) (not_lt.mpr (le_max_right _ _))
  · by_contra hfar
    obtain ⟨coord, ⟨-, hc⟩, -, -, hlt⟩ :=
      hover ⟨viewport.origin.x, max viewport.origin.y
        ((coordLimit debug * 512 : ℕ) + translation.y)⟩
        ⟨⟨le_rfl, hwidth⟩, le_max_left _ _, max_lt hheight (by linarith)⟩
    exact absurd (hhigh hc.2 hlt) (not_lt.mpr (le_max_right _ _))

lemma layerTileId_of_reach (h : (-2048 ≤ coord.x ∧ coord.x < coordLimit debug) ∧
      -2048 ≤ coord.y ∧ coord.y < coordLimit debug) :
    (∃ id, layerTileId debug coord = some id) ∧ Packs coord.x ∧ Packs coord.y := by
  cases debug with
  | false => exact ⟨⟨_, rfl⟩, h⟩
  | true =>
    simp only [coordLimit, if_true] at h
    refine ⟨⟨_, if_neg ?_⟩, by unfold Packs; omega, by unfold Packs; omega⟩
    simp only [true_and, Decidable.not_not, TILE_COORD_BIAS]
    exact h

section

variable (hviewport : viewport.isEmpty = false) (h : InReach debug viewport translation)
include hviewport h

lemma mem_shownTiles_of_inReach :
    coord ∈ shownTiles viewport translation ↔
      (⌊(viewport.origin.x - translation.x) / 512⌋ ≤ coord.x ∧
          coord.x < ⌈(viewport.bottomRight.x - translation.x) / 512⌉) ∧
        ⌊(viewport.origin.y - translation.y) / 512⌋ ≤ coord.y ∧
          coord.y < ⌈(viewport.bottomRight.y - translation.y) / 512⌉ := by
  obtain ⟨hwidth, hheight⟩ := Bounds.isEmpty_eq_false_iff.mp hviewport
  have hlimit : coordLimit debug ≤ 63488 := by cases debug <;> decide
  have haxis : ∀ {min max : K}, min < max → -(2048 * 512) ≤ min →
      max ≤ (coordLimit debug * 512 : ℕ) →
      asI32 ⌊min / 512⌋ = ⌊min / 512⌋ ∧ asI32 ⌈max / 512⌉ = ⌈max / 512⌉ := by
    intro min max hlt hmin hmax
    obtain ⟨hlow, hhigh⟩ := axis_reach hmin hmax
    obtain ⟨⟨hfloor, hceil⟩, -⟩ := axis_covers le_rfl hlt
    exact ⟨asI32_eq (by omega) (by omega), asI32_eq (by omega) (by omega)⟩
  obtain ⟨hx0, hx1⟩ := haxis (by linarith) h.1.1 h.1.2
  obtain ⟨hy0, hy1⟩ := haxis (by linarith) h.2.1 h.2.2
  rw [mem_shownTiles, hx0, hx1, hy0, hy1]

lemma tileSprite_meets (hcoord : coord ∈ shownTiles viewport translation) (texture : AtlasTextureId)
    (id : ℕ) :
    (tileSprite texture viewport translation rest coord id).bounds.intersects viewport = true := by
  obtain ⟨hx, hy⟩ := (mem_shownTiles_of_inReach hviewport h).mp hcoord
  obtain ⟨hxmax, hxmin⟩ := axis_meets hx.1 hx.2
  obtain ⟨hymax, hymin⟩ := axis_meets hy.1 hy.2
  rw [Bounds.intersects_iff]
  simp only [tileSprite, Bounds.translate, Bounds.bottomRight, cast_tileSize] at *
  refine ⟨⟨?_, ?_⟩, ?_, ?_⟩ <;> linarith

lemma tileSprite_shown (hcoord : coord ∈ shownTiles viewport translation) (texture : AtlasTextureId)
    (id : ℕ) :
    (tileSprite texture viewport translation rest coord id).clippedBounds.isEmpty = false := by
  have hmeets := tileSprite_meets rest hviewport h hcoord texture id
  obtain ⟨hwidth, hheight⟩ := Bounds.isEmpty_eq_false_iff.mp hviewport
  rw [Bounds.intersects_iff] at hmeets
  rw [Primitive.clippedBounds, Bounds.isEmpty_intersect_eq_false_iff]
  simp only [max_lt_iff, lt_min_iff]
  simp only [tileSprite, Bounds.translate, Bounds.bottomRight, cast_tileSize] at *
  refine ⟨⟨⟨?_, ?_⟩, ?_, ?_⟩, ⟨?_, ?_⟩, ?_, ?_⟩ <;> linarith

end

lemma tileSprite_disjoint {coord' : TileCoord} {id' : ℕ} (hne : coord ≠ coord') (p : Point K) :
    ¬ ((tileSprite texture viewport translation rest coord id).bounds.HasPoint p ∧
      (tileSprite texture viewport translation rest coord' id').bounds.HasPoint p) := by
  have haxis : ∀ {a t : K} {z z' : ℤ}, (z : K) * 512 + t ≤ a ∧ a < z * 512 + t + 512 →
      (z' : K) * 512 + t ≤ a ∧ a < z' * 512 + t + 512 → z = z' := by
    intro a t z z' hz hz'
    have hlt : (z : K) < (z' + 1 : ℤ) := by
      push_cast
      linarith
    have hlt' : (z' : K) < (z + 1 : ℤ) := by
      push_cast
      linarith
    have hle := Int.cast_lt.mp hlt
    have hle' := Int.cast_lt.mp hlt'
    omega
  rintro ⟨hp, hp'⟩
  simp only [tileSprite, Bounds.HasPoint, Bounds.translate, Bounds.bottomRight,
    cast_tileSize] at hp hp'
  have hx := haxis hp.1 hp'.1
  have hy := haxis hp.2 hp'.2
  cases coord
  cases coord'
  exact hne (by rw [TileCoord.mk.injEq]; exact ⟨hx, hy⟩)

lemma showsTiles_of_inReach {ids : TileCoord → ℕ} (hlayer : layer < LAYER_KEY_LIMIT)
    (hviewport : viewport.isEmpty = false) (h : InReach debug viewport translation)
    (htexture : layerTileTextureId debug layer = some texture)
    (hids : ∀ coord ∈ shownTiles viewport translation,
      layerTileId debug coord = some (ids coord) ∧ Packs coord.x ∧ Packs coord.y) :
    ShowsTiles layer viewport translation ((shownTiles viewport translation).map
      (fun coord => tileSprite texture viewport translation rest coord (ids coord))) where
  squares := by
    intro sprite hsprite
    obtain ⟨coord, -, rfl⟩ := List.mem_map.mp hsprite
    rfl
  disjoint := pairwise_map.mpr
    (shownTiles_nodup.imp fun hne p => tileSprite_disjoint rest hne p)
  covers := by
    intro p hp
    obtain ⟨⟨hxlow, hxhigh⟩, hylow, hyhigh⟩ := hp
    have hx := @axis_covers K _ _ _ _ (viewport.origin.x - translation.x)
      (viewport.bottomRight.x - translation.x) (p.x - translation.x) (by linarith) (by linarith)
    have hy := @axis_covers K _ _ _ _ (viewport.origin.y - translation.y)
      (viewport.bottomRight.y - translation.y) (p.y - translation.y) (by linarith) (by linarith)
    have hcoord : (⟨⌊(p.x - translation.x) / 512⌋, ⌊(p.y - translation.y) / 512⌋⟩ : TileCoord) ∈
        shownTiles viewport translation :=
      (mem_shownTiles_of_inReach hviewport h).mpr ⟨hx.1, hy.1⟩
    refine ⟨_, mem_map_of_mem hcoord, ?_⟩
    simp only [tileSprite, Bounds.HasPoint, Bounds.translate, Bounds.bottomRight, cast_tileSize]
    refine ⟨⟨?_, ?_⟩, ?_, ?_⟩ <;> linarith
  meets := by
    intro sprite hsprite
    obtain ⟨coord, hcoord, rfl⟩ := List.mem_map.mp hsprite
    exact tileSprite_meets rest hviewport h hcoord texture _
  decodes := by
    intro sprite hsprite
    obtain ⟨coord, hcoord, rfl⟩ := List.mem_map.mp hsprite
    obtain ⟨hid, hpacks⟩ := hids coord hcoord
    exact ⟨_, coord, rfl, (decodeLayerTile_iff hlayer htexture hid).mpr hpacks, rfl⟩

omit [IsStrictOrderedRing K] in
lemma insertTileQuads_eq (hviewport : viewport.isEmpty = false) (scene : Scene K P) :
    insertTileQuads debug scene (some content) layer viewport translation rest =
      (tileQuads debug ⟨TILE_SIZE, content⟩ layer viewport translation rest).map (fun quads =>
        (quads.foldl Scene.insertPrimitive (scene.pushLayer viewport)).popLayer) := by
  simp [insertTileQuads, hviewport]

omit [IsStrictOrderedRing K] in
lemma tileQuads_kind
    (h : tileQuads debug ⟨TILE_SIZE, content⟩ layer viewport translation rest = some quads) :
    ∀ quad ∈ quads, quad.kind = .polychromeSprite := by
  intro quad hquad
  obtain ⟨texture, coord, id, -, -, -, rfl⟩ := tileQuads_mem rest h quad hquad
  rfl

lemma inReach_of_insertTileQuads (hlayer : layer < LAYER_KEY_LIMIT)
    (hviewport : viewport.isEmpty = false) {scene scene' : Scene K P} {placed : List (Placed K P)}
    (hscene : insertTileQuads debug scene (some content) layer viewport translation rest =
      some scene')
    (hadded : scene'.primitives .polychromeSprite = scene.primitives .polychromeSprite ++ placed)
    (hshows : ShowsTiles layer viewport translation (placed.map Placed.primitive)) :
    InReach debug viewport translation := by
  rw [insertTileQuads_eq rest hviewport] at hscene
  obtain ⟨quads, hquads, rfl⟩ := map_eq_some_iff.mp hscene
  obtain ⟨placed', hplaced', hprimitives⟩ :=
    foldl_insertPrimitive quads (tileQuads_kind rest hquads) (scene.pushLayer viewport)
  have hsame : placed = placed' := append_cancel_left (hadded.symm.trans hplaced')
  subst hsame
  refine inReach_of_showsTiles rest hlayer hviewport (fun sprite hsprite => ?_) hshows
  rw [hprimitives] at hsprite
  obtain ⟨texture, coord, id, htexture, -, hid, heq⟩ :=
    tileQuads_mem rest hquads sprite (mem_of_mem_filter hsprite)
  exact ⟨texture, coord, id, htexture, hid, heq⟩

/-- The tile quads of a viewport cover it, each found again by its ids, exactly when the tiles the
viewport shows are in reach of the ids. -/
theorem insertTileQuads_showsTiles_iff (debug : Bool) (scene : Scene K P)
    (content : LayerContent K P) (layer : ℕ) (hlayer : layer < LAYER_KEY_LIMIT)
    (viewport : Bounds K) (hviewport : viewport.isEmpty = false) (translation : Point K) (rest : P) :
    (∃ scene' placed,
      insertTileQuads debug scene (some content) layer viewport translation rest = some scene' ∧
      scene'.primitives .polychromeSprite = scene.primitives .polychromeSprite ++ placed ∧
      ShowsTiles layer viewport translation (placed.map Placed.primitive)) ↔
    InReach debug viewport translation := by
  constructor
  · rintro ⟨scene', placed, hscene, hadded, hshows⟩
    exact inReach_of_insertTileQuads rest hlayer hviewport hscene hadded hshows
  · intro h
    rw [insertTileQuads_eq rest hviewport]
    obtain ⟨texture, htexture⟩ : ∃ texture, layerTileTextureId debug layer = some texture :=
      ⟨_, if_neg fun hrefused => hrefused.2 hlayer⟩
    have hcoords : ∀ coord ∈ shownTiles viewport translation,
        (∃ id, layerTileId debug coord = some id) ∧ Packs coord.x ∧ Packs coord.y := by
      intro coord hcoord
      obtain ⟨hx, hy⟩ := (mem_shownTiles_of_inReach hviewport h).mp hcoord
      obtain ⟨hxlow, hxhigh⟩ := axis_reach h.1.1 h.1.2
      obtain ⟨hylow, hyhigh⟩ := axis_reach h.2.1 h.2.2
      exact layerTileId_of_reach ⟨⟨by omega, by omega⟩, by omega, by omega⟩
    let ids := fun coord => (layerTileId debug coord).getD 0
    have hids : ∀ coord ∈ shownTiles viewport translation,
        layerTileId debug coord = some (ids coord) := by
      intro coord hcoord
      obtain ⟨id, hid⟩ := (hcoords coord hcoord).1
      simp [ids, hid]
    have hquads : tileQuads debug ⟨TILE_SIZE, content⟩ layer viewport translation rest =
        some ((shownTiles viewport translation).map
          (fun coord => tileSprite texture viewport translation rest coord (ids coord))) := by
      rw [tileQuads, htexture, bind_some]
      refine mapM_eq_some_map fun coord hcoord => ?_
      rw [hids coord hcoord]
      rfl
    obtain ⟨placed, hplaced, hprimitives⟩ :=
      foldl_insertPrimitive _ (tileQuads_kind rest hquads) (scene.pushLayer viewport)
    have hall : ((shownTiles viewport translation).map
        (fun coord => tileSprite texture viewport translation rest coord (ids coord))).filter
          (fun quad => !quad.clippedBounds.isEmpty) =
        (shownTiles viewport translation).map
          (fun coord => tileSprite texture viewport translation rest coord (ids coord)) := by
      refine filter_eq_self.mpr fun quad hquad => ?_
      obtain ⟨coord, hcoord, rfl⟩ := List.mem_map.mp hquad
      rw [tileSprite_shown rest hviewport h hcoord]
      rfl
    refine ⟨_, placed, map_eq_some_iff.mpr ⟨_, hquads, rfl⟩, hplaced, ?_⟩
    rw [hprimitives, hall]
    exact showsTiles_of_inReach rest hlayer hviewport h htexture
      fun coord hcoord => ⟨hids coord hcoord, (hcoords coord hcoord).2⟩

/-- A viewport scrolled a little past the start. -/
theorem insertTileQuads_showsTiles_scrolled :
    ∃ (scene' : Scene ℚ Unit) (placed : List (Placed ℚ Unit)),
      insertTileQuads true Scene.default (some []) 7 ⟨⟨0, 0⟩, ⟨800, 600⟩⟩ ⟨-3, -1000⟩ () =
        some scene' ∧ scene'.primitives .polychromeSprite = [] ++ placed ∧
      ShowsTiles 7 ⟨⟨0, 0⟩, ⟨800, 600⟩⟩ ⟨-3, -1000⟩ (placed.map Placed.primitive) :=
  (insertTileQuads_showsTiles_iff true Scene.default [] 7 (by decide) ⟨⟨0, 0⟩, ⟨800, 600⟩⟩ (by decide)
    ⟨-3, -1000⟩ ()).mpr (by norm_num [InReach, coordLimit])

/-- A release build scrolled by 63488 tiles: the ids of the tile shown are those of another. -/
theorem insertTileQuads_past_ids :
    (¬ ∃ (scene' : Scene ℚ Unit) (placed : List (Placed ℚ Unit)),
      insertTileQuads false Scene.default (some []) 0 ⟨⟨0, 0⟩, ⟨512, 512⟩⟩ ⟨0, -32505856⟩ () =
        some scene' ∧ scene'.primitives .polychromeSprite = [] ++ placed ∧
      ShowsTiles 0 ⟨⟨0, 0⟩, ⟨512, 512⟩⟩ ⟨0, -32505856⟩ (placed.map Placed.primitive)) ∧
    (layerTileId false ⟨0, 63488⟩).bind (decodeLayerTile ⟨LAYER_TILE_TEXTURE_BASE, .polychrome⟩) =
      some (0, ⟨1, -2048⟩) := by
  refine ⟨?_, by decide⟩
  rintro ⟨scene', placed, hscene, hadded, hshows⟩
  have hreach := inReach_of_insertTileQuads () (by decide) (by decide) hscene hadded hshows
  norm_num [InReach, coordLimit] at hreach

end Shown

end GpuiFast
