import GpuiFast.TileCacheHolds

namespace GpuiFast

open List Option

variable {C B S : Type*}

/-- The tile's texture was drawn from content that agrees, over the tile, with the generation the
tile is at, if the tile lies in what that generation painted. -/
def Tile.Shows (stream : C → TileCoord → S) (made : List (CompositedLayer C B S))
    (key : LayerKey × TileCoord) (tile : Tile C B) : Prop :=
  ∃ t r f, tile.texture = some t ∧ t.raster = some r ∧ r.tile = key.2 ∧ f ∈ made ∧ f.key = key.1 ∧
    f.record.generation = tile.generation ∧
    ∀ hash, f.record.tileHashes.get? key.2 = some hash →
      stream r.content key.2 = hash ∧ r.background = f.record.background

namespace TileCache

variable {stream : C → TileCoord → S} {made : List (CompositedLayer C B S)}
  {layers : List (CompositedLayer C B S)} {frame : ℕ} {tiles : Tiles C B}

/-- Every held texture shows what it should, but for those of tiles waiting in `planned`. -/
def Waiting (stream : C → TileCoord → S) (made layers : List (CompositedLayer C B S))
    (planned : List (ℕ × TileCoord)) (tiles : Tiles C B) : Prop :=
  ∀ key tile, tiles.get? key = some tile → tile.valid = true →
    tile.Shows stream made key ∨
      ∃ e ∈ planned, ∃ layer, layers[e.1]? = some layer ∧ key = (layer.key, e.2)

def HeldAt (layers : List (CompositedLayer C B S)) (frame : ℕ) (e : ℕ × TileCoord)
    (tiles : Tiles C B) : Prop :=
  ∀ layer, layers[e.1]? = some layer → ∃ tile, tiles.get? (layer.key, e.2) = some tile ∧
    tile.valid = true ∧ tile.generation = layer.record.generation ∧ tile.lastUsed = frame

/-- `e` is a tile of the layer a frame takes for its key. -/
def Taken (layers : List (CompositedLayer C B S)) (e : ℕ × TileCoord) : Prop :=
  ∃ key, (indices layers).get? key = some e.1

variable {e' : ℕ × TileCoord} {layer : CompositedLayer C B S}
  {handed : List (CompositedLayer C B S)} {core : LayerKey → Layer C B S} {cache : TileCache C B}
  {s : Tiles C B × List (ℕ × TileCoord)} {todo : List (ℕ × TileCoord)}

lemma Taken.index_eq {e : ℕ × TileCoord} (h : Taken layers e) (h' : Taken layers e')
    {layer' : CompositedLayer C B S} (hl : layers[e.1]? = some layer)
    (hl' : layers[e'.1]? = some layer') (hk : layer.key = layer'.key) : layer = layer' := by
  obtain ⟨key, hi⟩ := h
  obtain ⟨key', hi'⟩ := h'
  obtain ⟨_, hm, hkey⟩ := exists_of_indices hi
  obtain ⟨_, hm', hkey'⟩ := exists_of_indices hi'
  obtain rfl := some.inj (hl.symm.trans hm)
  obtain rfl := some.inj (hl'.symm.trans hm')
  rw [← hkey] at hi
  rw [← hkey', ← hk] at hi'
  rw [some.inj (hi.symm.trans hi')] at hl
  exact some.inj (hl.symm.trans hl')

lemma Waiting.seeLayer (hcore : CoreHolds stream made handed core)
    (h : Waiting stream made layers [] cache.tiles) (hlayer : layer ∈ made) :
    Waiting stream made layers [] (cache.seeLayer layer).tiles := by
  rw [TileCache.seeLayer]
  split_ifs
  · exact h
  · intro key tile ht hvalid
    rw [KeyMap.get?_mapValues, map_eq_some_iff] at ht
    obtain ⟨old, hold, rfl⟩ := ht
    by_cases hkey : key.1 ≠ layer.key
    · rw [if_pos hkey] at hvalid ⊢
      exact h key old hold hvalid
    · rw [if_neg hkey, carry] at hvalid ⊢
      rw [not_not] at hkey
      split_ifs at hvalid ⊢ with hcarry
      · obtain ⟨hnext, hv, hgen, -, hdirty⟩ := hcarry
        rcases h key old hold hv with ⟨t, r, f, ht, hr, hrt, hf, hfk, hfg, hshows⟩ | ⟨e, he, -⟩
        · refine .inl ⟨t, r, layer, ht, hr, hrt, hlayer, hkey.symm, rfl, fun hash hh => ?_⟩
          have hcarries := hcore.carries f hf layer hlayer (hfk.trans hkey) (by omega)
          obtain ⟨hhash, hb⟩ := hcarries key.2 hdirty hash hh
          obtain ⟨hs, hb'⟩ := hshows hash hhash
          exact ⟨hs, hb'.trans hb⟩
        · simp at he

lemma seeLayer_frame (cache : TileCache C B) (layer : CompositedLayer C B S) :
    (cache.seeLayer layer).frame = cache.frame := by
  rw [TileCache.seeLayer]
  split_ifs <;> rfl

lemma seeLayer_layers (cache : TileCache C B) (layer : CompositedLayer C B S) :
    (cache.seeLayer layer).layers =
      cache.layers.insert layer.key ⟨layer.record.generation, cache.frame⟩ := by
  rw [TileCache.seeLayer]
  split_ifs <;> rfl

lemma foldl_seeLayer_frame (cache : TileCache C B) (layers : List (CompositedLayer C B S)) :
    (layers.foldl seeLayer cache).frame = cache.frame := by
  induction layers generalizing cache with
  | nil => rfl
  | cons layer layers ih => rw [foldl_cons, ih, seeLayer_frame]

def SeenNow (cache : TileCache C B) (key : LayerKey) : Prop :=
  ∃ seen, cache.layers.get? key = some seen ∧ seen.lastFrame = cache.frame

lemma SeenNow.seeLayer {key : LayerKey} (h : cache.SeenNow key ∨ layer.key = key) :
    (cache.seeLayer layer).SeenNow key := by
  rw [SeenNow, seeLayer_layers, seeLayer_frame, KeyMap.get?_insert]
  split_ifs with hk
  · exact ⟨_, rfl, rfl⟩
  · exact h.resolve_right (Ne.symm hk)

lemma foldl_seeLayer_seen {key : LayerKey}
    (h : cache.SeenNow key ∨ ∃ layer ∈ layers, layer.key = key) :
    (layers.foldl seeLayer cache).SeenNow key := by
  induction layers generalizing cache with
  | nil => exact h.resolve_right (by simp)
  | cons layer layers ih =>
    refine ih ?_
    rcases h with h | ⟨l, hl, hk⟩
    · exact .inl (SeenNow.seeLayer (.inl h))
    · rcases mem_cons.mp hl with rfl | hl
      · exact .inl (SeenNow.seeLayer (.inr hk))
      · exact .inr ⟨l, hl, hk⟩

lemma foldl_seeLayer_waiting (hcore : CoreHolds stream made handed core) (cache : TileCache C B)
    (h : Waiting stream made layers [] cache.tiles) {more : List (CompositedLayer C B S)}
    (hmore : ∀ layer ∈ more, layer ∈ made) :
    Waiting stream made layers [] (more.foldl TileCache.seeLayer cache).tiles := by
  induction more generalizing cache with
  | nil => exact h
  | cons layer more ih =>
    exact ih _ (Waiting.seeLayer hcore h (hmore layer (by simp))) (fun l hl => hmore l (by simp [hl]))

variable {e : ℕ × TileCoord} {planned : List (ℕ × TileCoord)}

variable {f : Tile C B → Tile C B}

lemma HeldAt.modify (h : HeldAt layers frame e tiles) (key : LayerKey × TileCoord)
    (hf : ∀ tile, (f tile).valid = tile.valid ∧
      (f tile).generation = tile.generation ∧ (tile.lastUsed = frame → (f tile).lastUsed = frame)) :
    HeldAt layers frame e (tiles.modify key f) := by
  intro layer hl
  obtain ⟨tile, ht, hv, hg, hu⟩ := h layer hl
  obtain ⟨hfv, hfg, hfu⟩ := hf tile
  rw [KeyMap.get?_modify, ht]
  split_ifs
  · exact ⟨f tile, rfl, hfv.trans hv, hfg.trans hg, hfu hu⟩
  · exact ⟨tile, rfl, hv, hg, hu⟩

lemma Waiting.useTile (h : Waiting stream made layers [] s.1) (key : LayerKey × TileCoord) :
    Waiting stream made layers [] (useTile layers frame s key).1 := by
  rw [TileCache.useTile]
  split
  · exact h
  · simp only
    split_ifs
    · intro k tile ht hv
      rw [KeyMap.get?_modify] at ht
      split_ifs at ht with hk
      · obtain ⟨old, hold, rfl⟩ := map_eq_some_iff.mp ht
        exact h k old hold hv
      · exact h k tile ht hv
    · exact h
    · exact h

def Used (layers : List (CompositedLayer C B S)) (frame : ℕ)
    (s : Tiles C B × List (ℕ × TileCoord)) (key : LayerKey × TileCoord) : Prop :=
  ∀ i, (indices layers).get? key.1 = some i →
    (i, key.2) ∈ s.2 ∨ HeldAt layers frame (i, key.2) s.1

lemma Used.useTile {key : LayerKey × TileCoord} (key' : LayerKey × TileCoord)
    (h : Used layers frame s key ∨ key' = key) :
    Used layers frame (useTile layers frame s key') key := by
  intro i hi
  rw [TileCache.useTile]
  have hlast : ∀ tile : Tile C B, ({ tile with lastUsed := frame } : Tile C B).valid = tile.valid ∧
      ({ tile with lastUsed := frame } : Tile C B).generation = tile.generation ∧
      (tile.lastUsed = frame → ({ tile with lastUsed := frame } : Tile C B).lastUsed = frame) :=
    fun tile => ⟨rfl, rfl, fun _ => rfl⟩
  rcases h with h | rfl
  · split
    · exact h i hi
    · simp only
      split_ifs
      · exact (h i hi).imp_right (fun hh => hh.modify key' hlast)
      · exact h i hi
      · exact (h i hi).imp_left (fun hm => mem_append_left _ hm)
  · rw [hi]
    simp only
    split_ifs with hheld hmem
    · right
      intro layer hl
      obtain ⟨layer', hl', hk⟩ := exists_of_indices hi
      obtain rfl := some.inj (hl.symm.trans hl')
      rw [Option.any_eq_true] at hheld
      obtain ⟨tile, ht, hcond⟩ := hheld
      simp only [hl, any_some, Bool.and_eq_true, decide_eq_true_eq] at hcond
      rw [hk, KeyMap.get?_modify, if_pos rfl, ht]
      exact ⟨_, rfl, hcond.1, hcond.2.1, rfl⟩
    · exact .inl hmem
    · exact .inl (by simp)

lemma useTile_taken (h : ∀ e ∈ s.2, Taken layers e) (key : LayerKey × TileCoord) :
    ∀ e ∈ (useTile layers frame s key).2, Taken layers e := by
  rw [TileCache.useTile]
  split
  · exact h
  · next i hi =>
    simp only
    split_ifs
    · exact h
    · exact h
    · intro e he
      rcases mem_append.mp he with he | he
      · exact h e he
      · exact ⟨key.1, mem_singleton.mp he ▸ hi⟩

lemma foldl_useTile (frame : ℕ) (composited : List (LayerKey × TileCoord))
    (s : Tiles C B × List (ℕ × TileCoord)) (hw : Waiting stream made layers [] s.1)
    (ht : ∀ e ∈ s.2, Taken layers e) :
    let s' := composited.foldl (useTile layers frame) s
    Waiting stream made layers [] s'.1 ∧ (∀ e ∈ s'.2, Taken layers e) ∧
      ∀ key, (Used layers frame s key ∨ key ∈ composited) → Used layers frame s' key := by
  induction composited generalizing s with
  | nil => exact ⟨hw, ht, fun key h => h.resolve_right (by simp)⟩
  | cons key' composited ih =>
    obtain ⟨hw', ht', hu⟩ := ih _ (hw.useTile key') (useTile_taken ht key')
    refine ⟨hw', ht', fun key h => hu key ?_⟩
    rcases h with h | h
    · exact .inl (Used.useTile key' (.inl h))
    · rcases mem_cons.mp h with rfl | h
      · exact .inl (Used.useTile _ (.inr rfl))
      · exact .inr h

lemma Waiting.planTile (h : Waiting stream made layers planned tiles) (he : e ∈ planned) :
    Waiting stream made layers planned (planTile layers frame tiles e) := by
  rw [TileCache.planTile]
  split
  · exact h
  · next layer hl =>
    intro key tile ht hv
    rw [KeyMap.get?_insert] at ht
    split_ifs at ht with hk
    · exact .inr ⟨e, he, layer, hl, hk⟩
    · exact h key tile ht hv

lemma HeldAt.planTile (he : Taken layers e) (he' : Taken layers e')
    (h : HeldAt layers frame e tiles ∨ e' = e) :
    HeldAt layers frame e (planTile layers frame tiles e') := by
  intro layer hl
  rw [TileCache.planTile]
  rcases h with h | rfl
  · obtain ⟨tile, ht, hv, hg, hu⟩ := h layer hl
    split
    · exact ⟨tile, ht, hv, hg, hu⟩
    · next layer' hl' =>
      rw [KeyMap.get?_insert]
      split_ifs with hk
      · have hlayer := he.index_eq he' hl hl' (congrArg Prod.fst hk)
        exact ⟨_, rfl, rfl, hlayer ▸ rfl, rfl⟩
      · exact ⟨tile, ht, hv, hg, hu⟩
  · rw [hl]
    simp only [KeyMap.get?_insert, if_true]
    exact ⟨_, rfl, rfl, rfl, rfl⟩

lemma foldl_planTile (frame : ℕ) (hw : Waiting stream made layers planned tiles)
    (htodo : ∀ e ∈ todo, e ∈ planned) (htaken : ∀ e ∈ planned, Taken layers e) :
    Waiting stream made layers planned (todo.foldl (planTile layers frame) tiles) ∧
      ∀ e, Taken layers e → (HeldAt layers frame e tiles ∨ e ∈ todo) →
        HeldAt layers frame e (todo.foldl (planTile layers frame) tiles) := by
  induction todo generalizing tiles with
  | nil => exact ⟨hw, fun e _ h => h.resolve_right (by simp)⟩
  | cons e' todo ih =>
    have hmem := htodo e' (by simp)
    obtain ⟨hw', hh⟩ := ih (hw.planTile hmem) (fun e he => htodo e (by simp [he]))
    refine ⟨hw', fun e he h => hh e he ?_⟩
    rcases h with h | h
    · exact .inl (HeldAt.planTile he (htaken e' hmem) (.inl h))
    · rcases mem_cons.mp h with rfl | h
      · exact .inl (HeldAt.planTile he he (.inr rfl))
      · exact .inr h

lemma Waiting.filter (h : Waiting stream made layers planned tiles)
    (p : LayerKey × TileCoord → Tile C B → Bool) :
    Waiting stream made layers planned (tiles.filter p) := by
  intro key tile ht hv
  rw [KeyMap.get?_filter, filter_eq_some_iff] at ht
  exact h key tile ht.1 hv

lemma HeldAt.filter (h : HeldAt layers frame e tiles) {p : LayerKey × TileCoord → Tile C B → Bool}
    (hp : ∀ layer, layers[e.1]? = some layer → ∀ tile, tiles.get? (layer.key, e.2) = some tile →
      tile.lastUsed = frame → p (layer.key, e.2) tile = true) :
    HeldAt layers frame e (tiles.filter p) := by
  intro layer hl
  obtain ⟨tile, ht, hv, hg, hu⟩ := h layer hl
  refine ⟨tile, ?_, hv, hg, hu⟩
  rw [KeyMap.get?_filter, ht, filter_some, if_pos (hp layer hl tile ht hu)]

lemma HeldAt.dropUnseenLayers (h : HeldAt layers frame e cache.tiles)
    (hseen : ∀ layer, layers[e.1]? = some layer → cache.SeenNow layer.key) :
    HeldAt layers frame e cache.dropUnseenLayers.tiles := by
  refine h.filter (fun layer hl _ _ _ => ?_)
  obtain ⟨seen, hs, hf⟩ := hseen layer hl
  simp only [decide_eq_true_eq, KeyMap.mem_keys, not_exists]
  intro seen' hs'
  rw [KeyMap.get?_filter, hs, filter_eq_some_iff] at hs'
  obtain ⟨heq, hlt⟩ := hs'
  obtain rfl := some.inj heq
  simp only [decide_eq_true_eq, hf] at hlt
  omega

lemma Waiting.evictTile {s : Tiles C B × ℕ} (h : Waiting stream made layers planned s.1)
    (budgetBytes : ℕ) (key : LayerKey × TileCoord) :
    Waiting stream made layers planned (evictTile budgetBytes s key).1 := by
  rw [TileCache.evictTile]
  split_ifs
  · exact h
  · exact h.filter _

lemma HeldAt.evictTile {s : Tiles C B × ℕ} (h : HeldAt layers frame e s.1) (budgetBytes : ℕ)
    {key : LayerKey × TileCoord}
    (hkey : ∀ layer, layers[e.1]? = some layer → (layer.key, e.2) ≠ key) :
    HeldAt layers frame e (evictTile budgetBytes s key).1 := by
  rw [TileCache.evictTile]
  split_ifs
  · exact h
  · exact h.filter (fun layer hl _ _ _ => by simpa using hkey layer hl)

lemma foldl_evictTile (frame : ℕ) (s : Tiles C B × ℕ) (budgetBytes : ℕ) {keys : List (LayerKey × TileCoord)}
    (hw : Waiting stream made layers planned s.1) :
    Waiting stream made layers planned (keys.foldl (TileCache.evictTile budgetBytes) s).1 ∧
      ∀ e, HeldAt layers frame e s.1 →
        (∀ layer, layers[e.1]? = some layer → (layer.key, e.2) ∉ keys) →
        HeldAt layers frame e (keys.foldl (TileCache.evictTile budgetBytes) s).1 := by
  induction keys generalizing s with
  | nil => exact ⟨hw, fun e h _ => h⟩
  | cons key keys ih =>
    obtain ⟨hw', hh⟩ := ih _ (hw.evictTile budgetBytes key)
    refine ⟨hw', fun e h hkeys => hh e (h.evictTile budgetBytes fun layer hl => ?_)
      fun layer hl hm => hkeys layer hl (by simp [hm])⟩
    exact fun heq => hkeys layer hl (by simp [heq])

lemma evictToBudget_spec (hw : Waiting stream made layers planned cache.tiles) :
    Waiting stream made layers planned cache.evictToBudget.tiles ∧
      ∀ e, HeldAt layers cache.frame e cache.tiles →
        HeldAt layers cache.frame e cache.evictToBudget.tiles := by
  obtain ⟨hw', hh⟩ := foldl_evictTile cache.frame
    (cache.tiles, (popPool cache.budgetBytes _ cache.pool.reverse).1) cache.budgetBytes hw
  refine ⟨hw', fun e h => hh e h fun layer hl hm => ?_⟩
  obtain ⟨tile, ht, -, -, hu⟩ := h layer hl
  simp only [List.mem_map, mem_insertionSort, mem_filter] at hm
  obtain ⟨⟨k, tile'⟩, ⟨hmem, hne⟩, rfl⟩ := hm
  obtain rfl := some.inj (ht.symm.trans (KeyMap.get?_eq_some.mpr hmem))
  simp [hu] at hne

def Textured (layers : List (CompositedLayer C B S)) (e : ℕ × TileCoord) (tiles : Tiles C B) : Prop :=
  ∀ layer, layers[e.1]? = some layer → ∀ tile, tiles.get? (layer.key, e.2) = some tile →
    tile.texture.isSome = true

lemma prepareTile_eq (layers : List (CompositedLayer C B S))
    (s : Tiles C B × List (TileTexture C B)) (e : ℕ × TileCoord) :
    (prepareTile layers s e).1 = s.1 ∧ Textured layers e s.1 ∨
      ∃ layer texture, layers[e.1]? = some layer ∧ (prepareTile layers s e).1 =
        s.1.modify (layer.key, e.2) (fun tile => { tile with texture := some texture }) := by
  rw [prepareTile]
  cases hl : layers[e.1]? with
  | none => exact .inl ⟨rfl, fun layer h => by simp [hl] at h⟩
  | some layer =>
    simp only
    cases ht : s.1.get? (layer.key, e.2) with
    | none =>
      refine .inl ⟨rfl, fun layer' hl' tile ht' => ?_⟩
      obtain rfl := some.inj (hl.symm.trans hl')
      simp [ht] at ht'
    | some tile =>
      simp only
      split_ifs with hany
      · refine .inl ⟨rfl, fun layer' hl' tile' ht' => ?_⟩
        obtain rfl := some.inj (hl.symm.trans hl')
        obtain rfl := some.inj (ht.symm.trans ht')
        obtain ⟨texture, htexture, -⟩ := (Option.any_eq_true _ _).mp hany
        rw [htexture, isSome_some]
      · exact .inr ⟨layer, _, rfl, rfl⟩

lemma Textured.modify {e : ℕ × TileCoord} (h : Textured layers e tiles) (key : LayerKey × TileCoord)
    (hf : ∀ tile, tile.texture.isSome = true → (f tile).texture.isSome = true) :
    Textured layers e (tiles.modify key f) := by
  intro layer hl tile ht
  rw [KeyMap.get?_modify] at ht
  split_ifs at ht
  · obtain ⟨old, hold, rfl⟩ := map_eq_some_iff.mp ht
    exact hf old (h layer hl old hold)
  · exact h layer hl tile ht

lemma prepareTile_spec (frame : ℕ) {s : Tiles C B × List (TileTexture C B)} (he' : e' ∈ planned)
    (hw : Waiting stream made layers planned s.1) :
    Waiting stream made layers planned (prepareTile layers s e').1 ∧
      (∀ e, HeldAt layers frame e s.1 → HeldAt layers frame e (prepareTile layers s e').1) ∧
      ∀ e, (Textured layers e s.1 ∨ e' = e) → Textured layers e (prepareTile layers s e').1 := by
  rcases prepareTile_eq layers s e' with ⟨heq, htex⟩ | ⟨layer, texture, hl, heq⟩
  · rw [heq]
    refine ⟨hw, fun e h => h, fun e h => ?_⟩
    rcases h with h | rfl
    · exact h
    · exact htex
  · rw [heq]
    refine ⟨fun key tile ht hv => ?_, fun e h => ?_, fun e h => ?_⟩
    · rw [KeyMap.get?_modify] at ht
      split_ifs at ht with hk
      · exact .inr ⟨e', he', layer, hl, hk⟩
      · exact hw key tile ht hv
    · exact h.modify _ (fun tile => ⟨rfl, rfl, fun h => h⟩)
    · rcases h with h | rfl
      · exact h.modify _ (fun _ _ => rfl)
      · intro layer' hl' tile ht
        obtain rfl := some.inj (hl.symm.trans hl')
        rw [KeyMap.get?_modify, if_pos rfl] at ht
        obtain ⟨old, -, rfl⟩ := map_eq_some_iff.mp ht
        rfl

lemma foldl_prepareTile (frame : ℕ) (s : Tiles C B × List (TileTexture C B))
    (htodo : ∀ e ∈ todo, e ∈ planned) (hw : Waiting stream made layers planned s.1) :
    Waiting stream made layers planned (todo.foldl (prepareTile layers) s).1 ∧
      (∀ e, HeldAt layers frame e s.1 →
        HeldAt layers frame e (todo.foldl (prepareTile layers) s).1) ∧
      ∀ e, (Textured layers e s.1 ∨ e ∈ todo) →
        Textured layers e (todo.foldl (prepareTile layers) s).1 := by
  induction todo generalizing s with
  | nil => exact ⟨hw, fun e h => h, fun e h => h.resolve_right (by simp)⟩
  | cons e' todo ih =>
    obtain ⟨hw₁, hh₁, ht₁⟩ := prepareTile_spec frame (htodo e' (by simp)) hw
    obtain ⟨hw₂, hh₂, ht₂⟩ := ih _ (fun e he => htodo e (by simp [he])) hw₁
    refine ⟨hw₂, fun e h => hh₂ e (hh₁ e h), fun e h => ht₂ e ?_⟩
    rcases h with h | h
    · exact .inl (ht₁ e (.inl h))
    · rcases mem_cons.mp h with rfl | h
      · exact .inl (ht₁ _ (.inr rfl))
      · exact .inr h

lemma Waiting.rasterize (hw : Waiting stream made layers (e' :: todo) tiles)
    (hh : HeldAt layers frame e' tiles) (ht : Textured layers e' tiles)
    (hmade : ∀ layer ∈ layers, layer ∈ made)
    (hstreamed : ∀ layer ∈ layers, layer.record.Streamed stream) :
    Waiting stream made layers todo (rasterize layers tiles e') := by
  rw [TileCache.rasterize]
  split
  · next hnone =>
    intro key tile hk hv
    refine (hw key tile hk hv).imp_right ?_
    rintro ⟨e, he, layer, hl, hkey⟩
    rcases mem_cons.mp he with rfl | he
    · simp [hnone] at hl
    · exact ⟨e, he, layer, hl, hkey⟩
  · next layer hl =>
    have hmem : layer ∈ layers := mem_of_getElem? hl
    intro key tile hk hv
    rw [KeyMap.get?_modify] at hk
    split_ifs at hk with hkey
    · subst hkey
      obtain ⟨old, hold, rfl⟩ := map_eq_some_iff.mp hk
      obtain ⟨tile', ht', hv', hg, -⟩ := hh layer hl
      obtain rfl := some.inj (hold.symm.trans ht')
      obtain ⟨texture, htexture⟩ := isSome_iff_exists.mp (ht layer hl old hold)
      let raster : Raster C B := ⟨layer.record.content, e'.2, layer.record.background⟩
      rw [if_pos hv']
      refine .inl ⟨{ texture with raster := some raster }, raster, layer, by simp [htexture, raster],
        rfl, rfl, hmade layer hmem, rfl, hg.symm, fun hash hh => ?_⟩
      exact ⟨(hstreamed layer hmem _ hash hh).symm, rfl⟩
    · refine (hw key tile hk hv).imp_right ?_
      rintro ⟨e, he, layer', hl', hkey'⟩
      rcases mem_cons.mp he with rfl | he
      · obtain rfl := some.inj (hl.symm.trans hl')
        exact absurd hkey' hkey
      · exact ⟨e, he, layer', hl', hkey'⟩

lemma rasterize_keeps (layers : List (CompositedLayer C B S)) (frame : ℕ) (tiles : Tiles C B)
    (e' : ℕ × TileCoord) :
    (∀ e, HeldAt layers frame e tiles → HeldAt layers frame e (rasterize layers tiles e')) ∧
      ∀ e, Textured layers e tiles → Textured layers e (rasterize layers tiles e') := by
  rw [TileCache.rasterize]
  split
  · exact ⟨fun e h => h, fun e h => h⟩
  · refine ⟨fun e h => h.modify _ (fun tile => ?_), fun e h => h.modify _ (fun tile htex => ?_)⟩
    · split_ifs
      · exact ⟨rfl, rfl, fun h => h⟩
      · exact ⟨rfl, rfl, fun h => h⟩
    · split_ifs
      · simpa using htex
      · exact htex

lemma foldl_rasterize (hw : Waiting stream made layers todo tiles)
    (hh : ∀ e ∈ todo, HeldAt layers frame e tiles) (ht : ∀ e ∈ todo, Textured layers e tiles)
    (hmade : ∀ layer ∈ layers, layer ∈ made)
    (hstreamed : ∀ layer ∈ layers, layer.record.Streamed stream) :
    Waiting stream made layers [] (todo.foldl (rasterize layers) tiles) ∧
      ∀ e, HeldAt layers frame e tiles →
        HeldAt layers frame e (todo.foldl (rasterize layers) tiles) := by
  induction todo generalizing tiles with
  | nil => exact ⟨hw, fun e h => h⟩
  | cons e' todo ih =>
    obtain ⟨hk, hk'⟩ := rasterize_keeps layers frame tiles e'
    obtain ⟨hw', hh'⟩ := ih
      (hw.rasterize (hh e' (by simp)) (ht e' (by simp)) hmade hstreamed)
      (fun e he => hk e (hh e (by simp [he]))) (fun e he => hk' e (ht e (by simp [he])))
    exact ⟨hw', fun e h => hh' e (hk e h)⟩

lemma Waiting.of_nil (h : Waiting stream made layers [] tiles)
    (layers' : List (CompositedLayer C B S)) (planned : List (ℕ × TileCoord)) :
    Waiting stream made layers' planned tiles := by
  intro key tile ht hv
  refine (h key tile ht hv).imp_right ?_
  rintro ⟨e, he, -⟩
  simp at he

lemma beginFrame_spec (hcore : CoreHolds stream made handed core)
    (h : Waiting stream made [] [] cache.tiles) (hlayers : ∀ layer ∈ layers, layer ∈ made)
    (composited : List (LayerKey × TileCoord)) : let s := cache.beginFrame layers composited
    Waiting stream made layers s.2 s.1.tiles ∧ s.1.frame = cache.frame + 1 ∧
      (∀ e ∈ s.2, HeldAt layers (cache.frame + 1) e s.1.tiles) ∧
      ∀ key ∈ composited, ∀ i, (indices layers).get? key.1 = some i →
        HeldAt layers (cache.frame + 1) (i, key.2) s.1.tiles := by
  set seen := layers.foldl seeLayer { cache with frame := cache.frame + 1 } with hseen
  have hframe : seen.frame = cache.frame + 1 := foldl_seeLayer_frame _ _
  have hwaiting : Waiting stream made layers [] seen.tiles :=
    foldl_seeLayer_waiting hcore { cache with frame := cache.frame + 1 } (h.of_nil _ _) hlayers
  have hnow : ∀ e : ℕ × TileCoord, ∀ layer, layers[e.1]? = some layer → seen.SeenNow layer.key :=
    fun e layer hl => foldl_seeLayer_seen (.inr ⟨layer, mem_of_getElem? hl, rfl⟩)
  obtain ⟨hw, htaken, hused⟩ := foldl_useTile seen.frame composited (seen.tiles, []) hwaiting
    (by simp)
  set used := composited.foldl (useTile layers seen.frame) (seen.tiles, []) with hused'
  set planned := used.2.insertionSort
    (fun a b => toLex (a.1, a.2.lex) ≤ toLex (b.1, b.2.lex)) with hplanned
  have hmem : ∀ e, e ∈ planned ↔ e ∈ used.2 := fun e => mem_insertionSort _
  obtain ⟨hw', hheld⟩ := foldl_planTile seen.frame (hw.of_nil layers planned)
    (fun e he => he) (fun e he => htaken e ((hmem e).mp he))
  have hdrop : ∀ e, Taken layers e → (HeldAt layers seen.frame e used.1 ∨ e ∈ planned) →
      HeldAt layers seen.frame e (cache.beginFrame layers composited).1.tiles := fun e he h =>
    HeldAt.dropUnseenLayers (hheld e he h) (hnow e)
  refine ⟨hw'.filter _, hframe, fun e he => ?_, fun key hkey i hi => ?_⟩
  · rw [← hframe]
    exact hdrop e (htaken e ((hmem e).mp he)) (.inr he)
  · rw [← hframe]
    refine hdrop _ ⟨key.1, hi⟩ ?_
    rcases hused key (.inr hkey) i hi with hm | hh
    · exact .inr ((hmem _).mpr hm)
    · exact .inl hh

lemma render_spec (hcore : CoreHolds stream made handed core)
    (h : Waiting stream made [] [] cache.tiles) (hlayers : ∀ layer ∈ layers, layer ∈ handed)
    (composited : List (LayerKey × TileCoord)) :
    Waiting stream made [] [] (cache.render layers composited).tiles ∧
      ∀ key ∈ composited, ∀ i, (indices layers).get? key.1 = some i →
        HeldAt layers (cache.frame + 1) (i, key.2) (cache.render layers composited).tiles := by
  have hmade : ∀ layer ∈ layers, layer ∈ made := fun layer hl =>
    (hcore.handed layer (hlayers layer hl)).1
  have hstreamed : ∀ layer ∈ layers, layer.record.Streamed stream := fun layer hl =>
    (hcore.handed layer (hlayers layer hl)).2
  obtain ⟨hw, hframe, hplanned, hused⟩ := beginFrame_spec hcore h hmade composited
  set begun := cache.beginFrame layers composited
  obtain ⟨hw₁, hh₁⟩ := evictToBudget_spec hw
  rw [hframe] at hh₁
  obtain ⟨hw₂, hh₂, ht₂⟩ := foldl_prepareTile (cache.frame + 1)
    (begun.1.evictToBudget.tiles, begun.1.evictToBudget.pool) (fun e he => he) hw₁
  obtain ⟨hw₃, hh₃⟩ := foldl_rasterize hw₂ (fun e he => hh₂ e (hh₁ e (hplanned e he)))
    (fun e he => ht₂ e (.inr he)) hmade hstreamed
  exact ⟨hw₃.of_nil _ _, fun key hkey i hi => hh₃ _ (hh₂ _ (hh₁ _ (hused key hkey i hi)))⟩

lemma Waiting.mono {made' : List (CompositedLayer C B S)}
    (h : Waiting stream made layers planned tiles) (hmade : ∀ f ∈ made, f ∈ made') :
    Waiting stream made' layers planned tiles := by
  intro key tile ht hv
  refine (h key tile ht hv).imp_left ?_
  rintro ⟨t, r, f, ht, hr, hrt, hf, hrest⟩
  exact ⟨t, r, f, ht, hr, hrt, hmade f hf, hrest⟩

end TileCache

namespace TileWorld

variable {stream : C → TileCoord → S}

def Holds (stream : C → TileCoord → S) (w : TileWorld C B S) : Prop :=
  ∃ made, CoreHolds stream made w.handed w.core ∧
    TileCache.Waiting stream made [] [] w.cache.tiles

lemma holds_new (budgetBytes : ℕ) : (new budgetBytes : TileWorld C B S).Holds stream :=
  ⟨[], coreHolds_new, fun key tile ht => by simp [new, TileCache.new] at ht⟩

variable {w : TileWorld C B S}

lemma mem_handed_of_mem_layers {frames : List ℕ} {layer : CompositedLayer C B S}
    (h : layer ∈ w.layers frames) : layer ∈ w.handed := by
  obtain ⟨i, -, hi⟩ := mem_filterMap.mp h
  exact mem_of_getElem? hi

variable [DecidableEq B] [DecidableEq S]

lemma Holds.step (h : w.Holds stream) (event : TileEvent C B S) :
    (w.step stream event).Holds stream := by
  obtain ⟨made, hcore, hcache⟩ := h
  have hset : ∀ key layer viewportEmpty made', (∀ f ∈ made, f ∈ made') →
      CoreHolds stream made' w.handed (Function.update w.core key layer) →
      (w.setLayer key layer (layer.insertLayer key viewportEmpty)).Holds stream := by
    intro key layer viewportEmpty made' hmade hcore'
    have hhand := hcore'.hand key viewportEmpty
    rw [Function.update_self] at hhand
    exact ⟨made', hhand, hcache.mono hmade⟩
  cases event with
  | repaint key content region background hasPaths viewportEmpty =>
    obtain ⟨made', hmade, hcore'⟩ := hcore.recordContent key content
      (tileHashes stream content region) background hasPaths (w.core key).list (by
        intro _ coord hash hh
        exact (KeyMap.get?_ofKeys.mp hh).2.symm)
    exact hset key _ viewportEmpty made' hmade hcore'
  | repaintRows key content hashes background =>
    obtain ⟨made', hmade, hcore'⟩ := hcore.recordContent key content hashes background
      false true (by simp)
    exact hset key _ false made' hmade hcore'
  | compositeAt key background viewportEmpty =>
    obtain ⟨made', hmade, hcore'⟩ := hcore.compositeAt key background
    exact hset key _ viewportEmpty made' hmade hcore'
  | dropRecord key =>
    exact hset key { w.core key with record := none } true made (fun f hf => hf)
      (hcore.keep rfl (.inl rfl))
  | demote key =>
    exact hset key (w.core key).demote true made (fun f hf => hf) (hcore.keep rfl (.inl rfl))
  | render frames composited =>
    exact ⟨made, hcore, (TileCache.render_spec hcore hcache
      (fun layer hl => mem_handed_of_mem_layers hl) composited).1⟩
  | renderFailed frames composited =>
    exact ⟨made, hcore, fun key tile ht => by
      simp [TileWorld.step, TileCache.renderFailed, TileCache.clear] at ht⟩
  | clear => exact ⟨made, hcore, fun key tile ht => by simp [TileWorld.step, TileCache.clear] at ht⟩

lemma Holds.run (h : w.Holds stream) (events : List (TileEvent C B S)) :
    (w.run stream events).Holds stream := by
  induction events generalizing w with
  | nil => exact h
  | cons event events ih => exact ih (h.step event)

/-- After any run, a frame of any layers the core handed out shows every tile it composites from a
texture drawn for that tile, and if the tile lies in the region the layer's record painted, from
content and over a background whose stream for the tile is the record's. A layer handed out at the
generation the core holds is handed out as the core holds it. -/
theorem render_shows_record (budgetBytes : ℕ) (events : List (TileEvent C B S))
    (frames : List ℕ) (composited : List (LayerKey × TileCoord)) :
    let w := (new budgetBytes : TileWorld C B S).run stream events
    let cache := w.cache.render (w.layers frames) composited
    ∀ key coord, (key, coord) ∈ composited → ∀ layer,
      (w.layers frames).reverse.find? (fun layer => layer.key = key) = some layer →
      (∃ t r, cache.texture key coord = some t ∧ t.raster = some r ∧ r.tile = coord ∧
        (coord ∈ layer.record.tileHashes.keys →
          stream r.content coord = stream layer.record.content coord ∧
            r.background = layer.record.background)) ∧
      ∀ record, (w.core key).record = some record →
        record.generation = layer.record.generation → record = layer.record := by
  intro w cache key coord hmem layer hlayer
  obtain ⟨made, hcore, hcache⟩ := ((holds_new budgetBytes).run events : w.Holds stream)
  obtain ⟨hw, hheld⟩ := TileCache.render_spec hcore hcache
    (fun layer (hl : layer ∈ w.layers frames) => mem_handed_of_mem_layers hl) composited
  rw [← TileCache.indices_get?, bind_eq_some_iff] at hlayer
  obtain ⟨i, hi, hl⟩ := hlayer
  obtain ⟨_, hl', hkey⟩ := TileCache.exists_of_indices hi
  obtain rfl := some.inj (hl.symm.trans hl')
  have hhanded := hcore.handed layer (mem_handed_of_mem_layers (mem_of_getElem? hl))
  obtain ⟨tile, ht, hv, hg, -⟩ := hheld (key, coord) hmem i hi layer hl
  rw [hkey] at ht
  refine ⟨?_, fun record hr hgen => ?_⟩
  · rcases hw (key, coord) tile ht hv with ⟨t, r, f, htex, hr, hrt, hf, hfk, hfg, hshows⟩ | ⟨e, he, -⟩
    · obtain rfl := hcore.unique f hf layer hhanded.1 (hfk.trans hkey.symm) (hfg.trans hg)
      refine ⟨t, r, ?_, hr, hrt, fun hc => ?_⟩
      · show ((cache.tiles.get? (key, coord)).filter (·.valid)).bind (·.texture) = some t
        rw [ht, filter_some, if_pos hv, bind_some, htex]
      · obtain ⟨hash, hhash⟩ := KeyMap.mem_keys.mp hc
        obtain ⟨hs, hb⟩ := hshows hash hhash
        exact ⟨hs.trans (hhanded.2 coord hash hhash), hb⟩
    · simp at he
  · obtain ⟨hm, -⟩ := hcore.current key record hr
    have := hcore.unique _ hm layer hhanded.1 hkey.symm hgen
    rw [← this]

/-- Content repainted where only another tile changed: the tile shown keeps its first texture. -/
theorem render_shows_record_keptTile :
    let stream : ℕ → TileCoord → ℕ := fun content tile => if tile.x = 0 then 0 else content
    let events : List (TileEvent ℕ ℕ ℕ) :=
      [.repaint 0 5 [⟨0, 0⟩, ⟨1, 0⟩] 7 false false, .render [0] [(0, ⟨0, 0⟩)],
        .repaint 0 6 [⟨0, 0⟩, ⟨1, 0⟩] 7 false false]
    let w := (new (2 ^ 26) : TileWorld ℕ ℕ ℕ).run stream events
    let cache := w.cache.render (w.layers [1]) [(0, ⟨0, 0⟩)]
    (cache.texture 0 ⟨0, 0⟩).bind (·.raster) = some ⟨5, ⟨0, 0⟩, 7⟩ ∧
      ∃ layer, (w.layers [1]).reverse.find? (fun layer => layer.key = 0) = some layer ∧
        ∃ t r, cache.texture 0 ⟨0, 0⟩ = some t ∧ t.raster = some r ∧ r.tile = ⟨0, 0⟩ ∧
          ((⟨0, 0⟩ : TileCoord) ∈ layer.record.tileHashes.keys →
            stream r.content ⟨0, 0⟩ = stream layer.record.content ⟨0, 0⟩ ∧
              r.background = layer.record.background) := by
  intro stream events w cache
  refine ⟨by decide, ?_⟩
  have hsome : ((w.layers [1]).reverse.find? (fun layer => layer.key = 0)).isSome = true := by
    decide
  obtain ⟨layer, hlayer⟩ := isSome_iff_exists.mp hsome
  exact ⟨layer, hlayer, (render_shows_record (2 ^ 26) events [1] [(0, ⟨0, 0⟩)] 0 ⟨0, 0⟩ (by simp)
    layer hlayer).1⟩

end TileWorld

end GpuiFast
