import GpuiFast.TileCacheShows

/-! The cache counts the bytes of its tiles by the size each is recorded with and those of its pool by
their textures, and releases until the rest fits. The count is that of what is left all along, so
it never runs below zero, and what a frame uses is never released for it. -/

namespace GpuiFast

open List Option

variable {C B S : Type*}

lemma KeyMap.sum_filter_ne {κ β : Type*} [DecidableEq κ] (m : KeyMap κ β) (k : κ) (weight : β → ℕ) :
    ((m.filter (fun j _ => j ≠ k)).entries.map (fun e => weight e.2)).sum +
        (m.get? k).elim 0 weight = (m.entries.map (fun e => weight e.2)).sum := by
  obtain ⟨l, hl⟩ := m
  simp only [filter, get?]
  induction l with
  | nil => simp
  | cons e l ih =>
    obtain ⟨hn, hd⟩ : e.1 ∉ l.map Prod.fst ∧ (l.map Prod.fst).Nodup := by simpa using hl
    by_cases he : e.1 = k
    · -- the entry itself: the tail has no other entry under its key
      have htail : l.filter (fun e => e.1 ≠ k) = l := by
        refine filter_eq_self.mpr (fun d hd => ?_)
        have hne : d.1 ≠ k := fun hk => hn (mem_map.mpr ⟨d, hd, hk.trans he.symm⟩)
        simpa using hne
      have hsum := congrArg (fun l => (l.map (fun e => weight e.2)).sum) htail
      simp only [ne_eq, decide_not] at hsum
      simp [he, hsum, Nat.add_comm]
    · have ih' := ih hd
      simp only [he, find?_cons, filter_cons, map_cons, sum_cons, ne_eq,
        decide_not, decide_false, Bool.not_false, if_true] at ih' ⊢
      omega

namespace TileCache

def Tile.bytes (tile : Tile C B) : ℕ := if Tile.hasBytes tile then tileBytes tile.tileSize else 0

def tilesBytes (tiles : Tiles C B) : ℕ := (tiles.entries.map (fun e => Tile.bytes e.2)).sum

def poolBytes (pool : List (TileTexture C B)) : ℕ := (pool.map (fun t => tileBytes t.size)).sum

def bytes (cache : TileCache C B) : ℕ := tilesBytes cache.tiles + poolBytes cache.pool

def evictTo (cache : TileCache C B) (budgetBytes : ℕ) : TileCache C B :=
  { ({ cache with budgetBytes := budgetBytes } : TileCache C B).evictToBudget with
    budgetBytes := cache.budgetBytes }

def checkedSub (a b : ℕ) : Option ℕ := if b ≤ a then some (a - b) else none

/-- `popPool` with checked subtractions. -/
def checkedPopPool (budgetBytes : ℕ) : (bytes : ℕ) → List (TileTexture C B) →
    Option (ℕ × List (TileTexture C B))
  | bytes, [] => some (bytes, [])
  | bytes, texture :: pool =>
    if budgetBytes < bytes then
      (checkedSub bytes (tileBytes texture.size)).bind
        (fun bytes => checkedPopPool budgetBytes bytes pool)
    else some (bytes, texture :: pool)

/-- `evictTile` with a checked subtraction. -/
def checkedEvictTile (budgetBytes : ℕ) (s : Tiles C B × ℕ) (key : LayerKey × TileCoord) :
    Option (Tiles C B × ℕ) :=
  if s.2 ≤ budgetBytes then some s
  else
    (match s.1.get? key with
      | some tile => if Tile.hasBytes tile then checkedSub s.2 (tileBytes tile.tileSize) else some s.2
      | none => some s.2).map (fun bytes => (s.1.filter (fun k _ => k ≠ key), bytes))

def candidates (cache : TileCache C B) : List ((LayerKey × TileCoord) × Tile C B) :=
  (cache.tiles.entries.filter (fun e => e.2.lastUsed ≠ cache.frame)).insertionSort
    (fun a b => toLex (a.2.lastUsed, toLex (a.1.1, a.1.2.lex)) ≤
      toLex (b.2.lastUsed, toLex (b.1.1, b.1.2.lex)))

/-- `evictTo` with checked subtractions. -/
def checkedEvictTo (cache : TileCache C B) (budgetBytes : ℕ) : Option (TileCache C B) :=
  (checkedPopPool budgetBytes cache.bytes cache.pool.reverse).bind (fun popped =>
    ((cache.candidates.map (·.1)).foldlM (checkedEvictTile budgetBytes)
        (cache.tiles, popped.1)).map (fun s =>
      { cache with pool := popped.2.reverse, tiles := s.1 }))

variable (cache : TileCache C B) (budgetBytes rest : ℕ) (tiles : Tiles C B)
  (key : LayerKey × TileCoord) {layers : List (CompositedLayer C B S)}
  {composited : List (LayerKey × TileCoord)} {frame : ℕ}

variable (pool : List (TileTexture C B))

lemma popPool_spec :
    ∃ gone kept, pool = gone ++ kept ∧
      popPool budgetBytes (rest + poolBytes pool) pool = (rest + poolBytes kept, kept) ∧
      checkedPopPool budgetBytes (rest + poolBytes pool) pool = some (rest + poolBytes kept, kept) ∧
      (rest + poolBytes kept ≤ budgetBytes ∨ kept = []) := by
  induction pool with
  | nil => exact ⟨[], [], rfl, rfl, rfl, .inr rfl⟩
  | cons texture pool ih =>
    by_cases hover : budgetBytes < rest + poolBytes (texture :: pool)
    · obtain ⟨gone, kept, rfl, hpop, hchecked, hfits⟩ := ih
      have hbytes : rest + poolBytes (texture :: (gone ++ kept)) =
          rest + poolBytes (gone ++ kept) + tileBytes texture.size := by
        rw [poolBytes, map_cons, sum_cons, ← poolBytes]
        omega
      refine ⟨texture :: gone, kept, rfl, ?_, ?_, hfits⟩
      · rw [popPool, if_pos hover, hbytes, Nat.add_sub_cancel, hpop]
      · rw [checkedPopPool, if_pos hover, hbytes, checkedSub, if_pos (Nat.le_add_left _ _),
          Nat.add_sub_cancel, bind_some, hchecked]
    · refine ⟨[], texture :: pool, rfl, ?_, ?_, .inl (Nat.le_of_not_lt hover)⟩
      · rw [popPool, if_neg hover]
      · rw [checkedPopPool, if_neg hover]

lemma tilesBytes_filter_ne :
    tilesBytes (tiles.filter (fun k _ => k ≠ key)) + (tiles.get? key).elim 0 Tile.bytes =
      tilesBytes tiles := tiles.sum_filter_ne key Tile.bytes

lemma evictTile_spec :
    (rest + tilesBytes tiles ≤ budgetBytes ∧
      evictTile budgetBytes (tiles, rest + tilesBytes tiles) key =
        (tiles, rest + tilesBytes tiles) ∧
      checkedEvictTile budgetBytes (tiles, rest + tilesBytes tiles) key =
        some (tiles, rest + tilesBytes tiles)) ∨
      let left := tiles.filter (fun k _ => k ≠ key)
      evictTile budgetBytes (tiles, rest + tilesBytes tiles) key =
        (left, rest + tilesBytes left) ∧
      checkedEvictTile budgetBytes (tiles, rest + tilesBytes tiles) key =
        some (left, rest + tilesBytes left) := by
  by_cases hfits : rest + tilesBytes tiles ≤ budgetBytes
  · refine .inl ⟨hfits, ?_, ?_⟩
    · rw [evictTile, if_pos hfits]
    · rw [checkedEvictTile, if_pos hfits]
  · refine .inr ?_
    have hleft := tilesBytes_filter_ne tiles key
    intro left
    rw [evictTile, checkedEvictTile, if_neg hfits, if_neg hfits]
    dsimp only
    cases htile : tiles.get? key with
    | none =>
      rw [htile, elim_none, Nat.add_zero] at hleft
      exact ⟨by rw [← hleft], by rw [← hleft]; rfl⟩
    | some tile =>
      rw [htile, elim_some, Tile.bytes] at hleft
      dsimp only
      by_cases hbytes : Tile.hasBytes tile = true
      · rw [if_pos hbytes] at hleft
        have hsub : rest + tilesBytes tiles = rest + tilesBytes left + tileBytes tile.tileSize := by
          rw [← hleft]
          exact (Nat.add_assoc _ _ _).symm
        rw [if_pos hbytes, if_pos hbytes, checkedSub, hsub, if_pos (Nat.le_add_left _ _),
          Nat.add_sub_cancel]
        exact ⟨rfl, rfl⟩
      · rw [if_neg hbytes, Nat.add_zero] at hleft
        rw [if_neg hbytes, if_neg hbytes, ← hleft]
        exact ⟨rfl, rfl⟩

lemma foldl_evictTile_fits {budgetBytes : ℕ} {s : Tiles C B × ℕ} (h : s.2 ≤ budgetBytes)
    (keys : List (LayerKey × TileCoord)) : keys.foldl (evictTile budgetBytes) s = s ∧
      keys.foldlM (checkedEvictTile budgetBytes) s = some s := by
  induction keys with
  | nil => exact ⟨rfl, rfl⟩
  | cons key keys ih =>
    obtain ⟨hfold, hchecked⟩ := ih
    rw [foldl_cons, foldlM_cons, evictTile, if_pos h, checkedEvictTile, if_pos h]
    exact ⟨hfold, hchecked⟩

lemma foldl_evictTile_spec (keys : List (LayerKey × TileCoord)) (tiles : Tiles C B) :
    ∃ gone kept left, keys = gone ++ kept ∧
      keys.foldl (evictTile budgetBytes) (tiles, rest + tilesBytes tiles) =
        (left, rest + tilesBytes left) ∧
      keys.foldlM (checkedEvictTile budgetBytes) (tiles, rest + tilesBytes tiles) =
        some (left, rest + tilesBytes left) ∧
      (∀ key, left.get? key = if key ∈ gone then none else tiles.get? key) ∧
      (rest + tilesBytes left ≤ budgetBytes ∨ kept = []) ∧
      (rest + tilesBytes tiles ≤ budgetBytes → left = tiles) := by
  by_cases hfits : rest + tilesBytes tiles ≤ budgetBytes
  · obtain ⟨hfold, hchecked⟩ := foldl_evictTile_fits (s := (tiles, rest + tilesBytes tiles)) hfits keys
    refine ⟨[], keys, tiles, rfl, hfold, hchecked, fun key => ?_, .inl hfits, fun _ => rfl⟩
    rw [if_neg not_mem_nil]
  · induction keys generalizing tiles with
    | nil =>
      refine ⟨[], [], tiles, rfl, rfl, rfl, fun key => ?_, .inr rfl, fun _ => rfl⟩
      rw [if_neg not_mem_nil]
    | cons key keys ih =>
      rcases evictTile_spec budgetBytes rest tiles key with ⟨hfits', -⟩ | ⟨hevict, hchecked⟩
      · exact absurd hfits' hfits
      · set left := tiles.filter (fun k _ => k ≠ key) with hleft
        have hget : ∀ k, left.get? k = if k = key then none else tiles.get? k := by
          intro k
          rw [hleft, KeyMap.get?_filter]
          by_cases hk : k = key
          · simp [hk]
          · cases hold : tiles.get? k <;> simp [hk]
        by_cases hfits' : rest + tilesBytes left ≤ budgetBytes
        · obtain ⟨hfold, hfoldM⟩ :=
            @foldl_evictTile_fits C B budgetBytes (left, rest + tilesBytes left) hfits' keys
          refine ⟨[key], keys, left, rfl, ?_, ?_, fun k => ?_, .inl hfits',
            fun h => absurd h hfits⟩
          · rw [foldl_cons, hevict, hfold]
          · rw [foldlM_cons, hchecked]
            exact hfoldM
          · simp only [hget, mem_singleton]
        · obtain ⟨gone, kept, final, rfl, hfold, hfoldM, hfinal, hend, -⟩ := ih left hfits'
          refine ⟨key :: gone, kept, final, rfl, ?_, ?_, fun k => ?_, hend,
            fun h => absurd h hfits⟩
          · rw [foldl_cons, hevict, hfold]
          · rw [foldlM_cons, hchecked]
            exact hfoldM
          · rw [hfinal, hget]
            by_cases hk : k = key
            · simp [hk]
            · simp [hk]

lemma poolBytes_reverse : poolBytes pool.reverse = poolBytes pool := by
  rw [poolBytes, map_reverse, sum_reverse, poolBytes]

lemma tilesBytes_eq : ((tiles.entries.filter (fun e => Tile.hasBytes e.2)).map
    (fun e => tileBytes e.2.tileSize)).sum = tilesBytes tiles := by
  rw [tilesBytes]
  induction tiles.entries with
  | nil => rfl
  | cons e entries ih =>
    rw [map_cons, sum_cons, ← ih, filter_cons, Tile.bytes]
    split
    · rw [map_cons, sum_cons]
    · rw [Nat.zero_add]

lemma evictTo_spec :
    ∃ gone kept, cache.candidates.map (·.1) = gone ++ kept ∧
      cache.checkedEvictTo budgetBytes = some (cache.evictTo budgetBytes) ∧
      (∀ key, (cache.evictTo budgetBytes).tiles.get? key =
        if key ∈ gone then none else cache.tiles.get? key) ∧
      ((cache.evictTo budgetBytes).bytes ≤ budgetBytes ∨
        (cache.evictTo budgetBytes).pool = [] ∧ kept = []) := by
  obtain ⟨-, pool, -, hpop, hcheckedPop, hpool⟩ :=
    popPool_spec budgetBytes (tilesBytes cache.tiles) cache.pool.reverse
  obtain ⟨gone, kept, left, hkeys, hfold, hchecked, hleft, hend, hnone⟩ :=
    foldl_evictTile_spec budgetBytes (poolBytes pool) (cache.candidates.map (·.1)) cache.tiles
  rw [Nat.add_comm (poolBytes pool)] at hfold hchecked
  have hevict : cache.evictTo budgetBytes =
      { cache with pool := pool.reverse, tiles := left } := by
    rw [evictTo, evictToBudget]
    dsimp only
    rw [tilesBytes_eq, show (cache.pool.map (fun t => tileBytes t.size)).sum =
      poolBytes cache.pool.reverse from (poolBytes_reverse cache.pool).symm, hpop]
    dsimp only
    rw [show ((cache.tiles.entries.filter (fun e => e.2.lastUsed ≠ cache.frame)).insertionSort
        (fun a b => toLex (a.2.lastUsed, toLex (a.1.1, a.1.2.lex)) ≤
          toLex (b.2.lastUsed, toLex (b.1.1, b.1.2.lex)))) = cache.candidates from rfl, hfold]
  have hcheck : cache.checkedEvictTo budgetBytes =
      some { cache with pool := pool.reverse, tiles := left } := by
    rw [checkedEvictTo, bytes, ← poolBytes_reverse, hcheckedPop]
    dsimp only [bind_some]
    rw [hchecked, map_some]
  refine ⟨gone, kept, hkeys, by rw [hcheck, hevict], fun key => by rw [hevict]; exact hleft key, ?_⟩
  rw [hevict, bytes]
  dsimp only
  rw [poolBytes_reverse]
  rcases hend with hfits | rfl
  · exact .inl (Nat.add_comm _ _ ▸ hfits)
  · rcases hpool with hfits | rfl
    · rw [Nat.add_comm] at hfits
      rw [hnone (Nat.add_comm _ _ ▸ hfits)]
      exact .inl (Nat.add_comm _ _ ▸ hfits)
    · exact .inr ⟨rfl, rfl⟩

lemma mem_candidates {cache : TileCache C B} {key : LayerKey × TileCoord} {tile : Tile C B} :
    (key, tile) ∈ cache.candidates ↔
      cache.tiles.get? key = some tile ∧ tile.lastUsed ≠ cache.frame := by
  rw [candidates, mem_insertionSort, mem_filter, KeyMap.get?_eq_some]
  simp

lemma candidates_pairwise : cache.candidates.Pairwise (fun a b => a.2.lastUsed ≤ b.2.lastUsed) := by
  refine (pairwise_insertionSort _ _).imp (fun {a b} h => ?_)
  rcases Prod.Lex.toLex_le_toLex.mp h with h | h
  · exact h.le
  · exact h.1.le

def lastUsed (tiles : Tiles C B) (key : LayerKey × TileCoord) : Option ℕ :=
  (tiles.get? key).map (·.lastUsed)

lemma lastUsed_modify (k key : LayerKey × TileCoord) (f : Tile C B → Tile C B)
    (hf : ∀ tile, (f tile).lastUsed = tile.lastUsed) :
    lastUsed (tiles.modify k f) key = lastUsed tiles key := by
  rw [lastUsed, KeyMap.get?_modify, lastUsed]
  split
  · rw [Option.map_map]
    exact congrArg (fun g => (tiles.get? key).map g) (funext hf)
  · rfl

lemma lastUsed_seeLayer (layer : CompositedLayer C B S) (key : LayerKey × TileCoord) :
    lastUsed (cache.seeLayer layer).tiles key = lastUsed cache.tiles key := by
  rw [seeLayer]
  split
  · rfl
  · dsimp only
    rw [lastUsed, KeyMap.get?_mapValues, Option.map_map, lastUsed]
    refine congrArg (fun g => (cache.tiles.get? key).map g) (funext fun tile => ?_)
    simp only [Function.comp_apply]
    split
    · rfl
    · rw [carry]
      split <;> rfl

lemma lastUsed_foldl_seeLayer (layers : List (CompositedLayer C B S)) (cache : TileCache C B)
    (key : LayerKey × TileCoord) :
    lastUsed (layers.foldl seeLayer cache).tiles key = lastUsed cache.tiles key := by
  induction layers generalizing cache with
  | nil => rfl
  | cons layer layers ih => rw [foldl_cons, ih, lastUsed_seeLayer]

lemma useTile_cases (layers : List (CompositedLayer C B S)) (frame : ℕ)
    (s : Tiles C B × List (ℕ × TileCoord)) (e : LayerKey × TileCoord) :
    ((indices layers).get? e.1 = none ∧ useTile layers frame s e = s) ∨
      ∃ index, (indices layers).get? e.1 = some index ∧
        (((∀ key, lastUsed (useTile layers frame s e).1 key =
            if key = e then some frame else lastUsed s.1 key) ∧
          (useTile layers frame s e).2 = s.2) ∨
        ((useTile layers frame s e).1 = s.1 ∧
          ∀ p, p ∈ (useTile layers frame s e).2 ↔ p ∈ s.2 ∨ p = (index, e.2))) := by
  rw [useTile]
  cases hindex : (indices layers).get? e.1 with
  | none => exact .inl ⟨rfl, rfl⟩
  | some index =>
    refine .inr ⟨index, rfl, ?_⟩
    dsimp only
    split_ifs with hheld hmem
    · obtain ⟨tile, htile, -⟩ := any_eq_true _ _ |>.mp hheld
      refine .inl ⟨fun key => ?_, rfl⟩
      rw [lastUsed, KeyMap.get?_modify, lastUsed]
      by_cases hkey : key = e
      · rw [if_pos hkey, if_pos hkey, hkey, htile]
        rfl
      · rw [if_neg hkey, if_neg hkey]
    · refine .inr ⟨rfl, fun p => ⟨.inl, fun h => ?_⟩⟩
      rcases h with h | rfl
      · exact h
      · exact hmem
    · refine .inr ⟨rfl, fun p => ?_⟩
      rw [mem_append, mem_singleton]

def ofLayers (layers : List (CompositedLayer C B S)) (composited : List (LayerKey × TileCoord)) :
    List (LayerKey × TileCoord) :=
  composited.filter (fun e => ((indices layers).get? e.1).isSome)

lemma mem_ofLayers {e : LayerKey × TileCoord} :
    e ∈ ofLayers layers composited ↔
      e ∈ composited ∧ ∃ index, (indices layers).get? e.1 = some index := by
  rw [ofLayers, mem_filter, isSome_iff_exists]

structure Marked (layers : List (CompositedLayer C B S)) (frame : ℕ)
    (composited : List (LayerKey × TileCoord)) (s : Tiles C B × List (ℕ × TileCoord)) : Prop where
  used : ∀ key, lastUsed s.1 key = some frame → key ∈ ofLayers layers composited
  marked : ∀ key ∈ composited, ∀ index, (indices layers).get? key.1 = some index →
    lastUsed s.1 key = some frame ∨ (index, key.2) ∈ s.2
  planned : ∀ p ∈ s.2, ∃ key ∈ composited, (indices layers).get? key.1 = some p.1 ∧ key.2 = p.2
  le : ∀ key n, lastUsed s.1 key = some n → n ≤ frame

lemma Marked.useTile {s : Tiles C B × List (ℕ × TileCoord)} (h : Marked layers frame composited s)
    (e : LayerKey × TileCoord) :
    Marked layers frame (composited ++ [e]) (useTile layers frame s e) := by
  have hmono : ∀ key, key ∈ ofLayers layers composited →
      key ∈ ofLayers layers (composited ++ [e]) := by
    intro key hkey
    obtain ⟨hmem, hindex⟩ := mem_ofLayers.mp hkey
    exact mem_ofLayers.mpr ⟨mem_append_left _ hmem, hindex⟩
  have hlast : e ∈ composited ++ [e] := mem_append_right _ (mem_singleton_self e)
  rcases useTile_cases layers frame s e with ⟨hnone, heq⟩ | ⟨index, hindex, hcases⟩
  · rw [heq]
    refine ⟨fun key hkey => hmono key (h.used key hkey), fun key hkey i hi => ?_,
      fun p hp => ?_, h.le⟩
    · rcases mem_append.mp hkey with hkey | hkey
      · exact h.marked key hkey i hi
      · rw [mem_singleton.mp hkey, hnone] at hi
        cases hi
    · obtain ⟨key, hkey, hi⟩ := h.planned p hp
      exact ⟨key, mem_append_left _ hkey, hi⟩
  · rcases hcases with ⟨hused, hplanned⟩ | ⟨htiles, hplanned⟩
    · refine ⟨fun key hkey => ?_, fun key hkey i hi => ?_, fun p hp => ?_, fun key n hn => ?_⟩
      · by_cases hke : key = e
        · rw [hke]
          exact mem_ofLayers.mpr ⟨hlast, index, hindex⟩
        · rw [hused, if_neg hke] at hkey
          exact hmono key (h.used key hkey)
      · rw [hused, hplanned]
        by_cases hke : key = e
        · exact .inl (if_pos hke)
        · rw [if_neg hke]
          refine h.marked key ((mem_append.mp hkey).resolve_right fun hmem => ?_) i hi
          exact hke (mem_singleton.mp hmem)
      · rw [hplanned] at hp
        obtain ⟨key, hkey, hi⟩ := h.planned p hp
        exact ⟨key, mem_append_left _ hkey, hi⟩
      · rw [hused] at hn
        split at hn
        · exact (some.inj hn).ge
        · exact h.le key n hn
    · refine ⟨fun key hkey => ?_, fun key hkey i hi => ?_, fun p hp => ?_, fun key n hn => ?_⟩
      · rw [htiles] at hkey
        exact hmono key (h.used key hkey)
      · rw [htiles, hplanned]
        rcases mem_append.mp hkey with hkey | hkey
        · exact (h.marked key hkey i hi).imp_right .inl
        · rw [mem_singleton.mp hkey] at hi ⊢
          rw [some.inj (hi.symm.trans hindex)]
          exact .inr (.inr rfl)
      · rcases (hplanned p).mp hp with hp | rfl
        · obtain ⟨key, hkey, hi⟩ := h.planned p hp
          exact ⟨key, mem_append_left _ hkey, hi⟩
        · exact ⟨e, hlast, hindex, rfl⟩
      · rw [htiles] at hn
        exact h.le key n hn

lemma Marked.foldl_useTile (composited : List (LayerKey × TileCoord)) {tiles : Tiles C B}
    (h : ∀ key n, lastUsed tiles key = some n → n < frame) :
    Marked layers frame composited
      (composited.foldl (TileCache.useTile layers frame) (tiles, [])) := by
  induction composited using reverseRecOn with
  | nil =>
    refine ⟨fun key hkey => absurd (h key frame hkey) (lt_irrefl _), ?_, ?_,
      fun key n hn => (h key n hn).le⟩
    · rintro key ⟨⟩
    · rintro p ⟨⟩
  | append_singleton composited e ih =>
    rw [foldl_append]
    exact ih.useTile e

lemma lastUsed_planTile {p : ℕ × TileCoord} {key : LayerKey × TileCoord}
    (hindex : (indices layers).get? key.1 = some p.1) (hcoord : key.2 = p.2)
    (k : LayerKey × TileCoord) :
    lastUsed (planTile layers frame tiles p) k =
      if k = key then some frame else lastUsed tiles k := by
  obtain ⟨layer, hlayer, hkey⟩ := exists_of_indices hindex
  rw [planTile, hlayer]
  dsimp only
  rw [hkey, ← hcoord, Prod.mk.eta, lastUsed, KeyMap.get?_insert, lastUsed]
  split <;> rfl

lemma lastUsed_foldl_planTile (planned : List (ℕ × TileCoord))
    (hplanned : ∀ p ∈ planned, ∃ key ∈ composited,
      (indices layers).get? key.1 = some p.1 ∧ key.2 = p.2) (tiles : Tiles C B) :
    (∀ k, lastUsed (planned.foldl (planTile layers frame) tiles) k = lastUsed tiles k ∨
      k ∈ ofLayers layers composited ∧
        lastUsed (planned.foldl (planTile layers frame) tiles) k = some frame) ∧
    (∀ k, lastUsed tiles k = some frame →
      lastUsed (planned.foldl (planTile layers frame) tiles) k = some frame) ∧
    ∀ key p, p ∈ planned → (indices layers).get? key.1 = some p.1 → key.2 = p.2 →
      lastUsed (planned.foldl (planTile layers frame) tiles) key = some frame := by
  induction planned generalizing tiles with
  | nil => exact ⟨fun k => .inl rfl, fun k hk => hk, fun key p hp => absurd hp not_mem_nil⟩
  | cons p planned ih =>
    obtain ⟨key, hkey, hindex, hcoord⟩ := hplanned p mem_cons_self
    obtain ⟨hcases, hkeeps, hmarks⟩ := ih (fun q hq => hplanned q (mem_cons_of_mem _ hq))
      (planTile layers frame tiles p)
    have hplan := @lastUsed_planTile C B S tiles layers frame p
    refine ⟨fun k => ?_, fun k hk => hkeeps k ?_, fun key' q hq hi hc => ?_⟩
    · rcases hcases k with heq | hmarked
      · rw [foldl_cons, heq, hplan hindex hcoord]
        by_cases hk : k = key
        · rw [if_pos hk, hk]
          exact .inr ⟨mem_ofLayers.mpr ⟨hkey, p.1, hindex⟩, rfl⟩
        · exact .inl (if_neg hk)
      · exact .inr hmarked
    · rw [hplan hindex hcoord]
      split
      · rfl
      · exact hk
    · rcases mem_cons.mp hq with rfl | hq
      · refine hkeeps key' ?_
        rw [hplan hi hc, if_pos rfl]
      · exact hmarks key' q hq hi hc

lemma lastUsed_dropUnseenLayers :
    (lastUsed cache.dropUnseenLayers.tiles key = lastUsed cache.tiles key ∨
      lastUsed cache.dropUnseenLayers.tiles key = none) ∧
    (∀ seen, cache.layers.get? key.1 = some seen → seen.lastFrame = cache.frame →
      lastUsed cache.dropUnseenLayers.tiles key = lastUsed cache.tiles key ∧
        cache.dropUnseenLayers.layers.get? key.1 = some seen) := by
  have hget : cache.dropUnseenLayers.tiles.get? key = (cache.tiles.get? key).filter (fun _ =>
      key.1 ∉ (cache.layers.filter (fun _ seen =>
        seen.lastFrame + LAYER_KEEP_FRAMES < cache.frame)).keys) :=
    cache.tiles.get?_filter _ key
  constructor
  · rw [lastUsed, hget, lastUsed]
    cases cache.tiles.get? key with
    | none => exact .inl rfl
    | some tile =>
      rw [filter_some]
      split
      · exact .inl rfl
      · exact .inr rfl
  · intro seen hseen hframe
    have hkept : key.1 ∉ (cache.layers.filter (fun _ seen =>
        seen.lastFrame + LAYER_KEEP_FRAMES < cache.frame)).keys := by
      rw [KeyMap.mem_keys, not_exists]
      intro seen' hseen'
      rw [KeyMap.get?_filter, hseen, filter_eq_some_iff] at hseen'
      obtain ⟨heq, hlt⟩ := hseen'
      obtain rfl := some.inj heq
      simp only [decide_eq_true_eq, hframe] at hlt
      omega
    have hlayer : cache.dropUnseenLayers.layers.get? key.1 =
        (cache.layers.get? key.1).filter (fun _ => key.1 ∉ (cache.layers.filter (fun _ seen =>
          seen.lastFrame + LAYER_KEEP_FRAMES < cache.frame)).keys) :=
      cache.layers.get?_filter _ key.1
    constructor
    · rw [lastUsed, hget, lastUsed]
      cases cache.tiles.get? key with
      | none => rfl
      | some tile => rw [filter_some, if_pos (decide_eq_true hkept)]
    · rw [hlayer, hseen, filter_some, if_pos (decide_eq_true hkept)]

lemma lastUsed_prepareTile (layers : List (CompositedLayer C B S))
    (s : Tiles C B × List (TileTexture C B)) (p : ℕ × TileCoord) (key : LayerKey × TileCoord) :
    lastUsed (prepareTile layers s p).1 key = lastUsed s.1 key := by
  rw [prepareTile]
  split
  · rfl
  · split
    · rfl
    · split
      · rfl
      · exact lastUsed_modify _ _ _ _ (fun _ => rfl)

lemma lastUsed_foldl_prepareTile (layers : List (CompositedLayer C B S))
    (planned : List (ℕ × TileCoord)) (s : Tiles C B × List (TileTexture C B))
    (key : LayerKey × TileCoord) :
    lastUsed (planned.foldl (prepareTile layers) s).1 key = lastUsed s.1 key := by
  induction planned generalizing s with
  | nil => rfl
  | cons p planned ih => rw [foldl_cons, ih, lastUsed_prepareTile]

lemma lastUsed_evictTo :
    (lastUsed (cache.evictTo budgetBytes).tiles key = lastUsed cache.tiles key ∨
      lastUsed (cache.evictTo budgetBytes).tiles key = none) ∧
    (lastUsed cache.tiles key = some cache.frame →
      (cache.evictTo budgetBytes).tiles.get? key = cache.tiles.get? key) := by
  obtain ⟨gone, kept, hkeys, -, hget, -⟩ := evictTo_spec cache budgetBytes
  constructor
  · rw [lastUsed, hget, lastUsed]
    split
    · exact .inr rfl
    · exact .inl rfl
  · intro hused
    rw [hget, if_neg]
    intro hgone
    obtain ⟨⟨k, tile⟩, hmem, rfl⟩ := mem_map.mp (hkeys ▸ mem_append_left kept hgone)
    obtain ⟨htile, hne⟩ := mem_candidates.mp hmem
    rw [lastUsed, htile] at hused
    exact hne (some.inj hused)

end TileCache

inductive TileAction (C B S : Type*) where
  | beginFrame (layers : List (CompositedLayer C B S)) (composited : List (LayerKey × TileCoord))
  | prepare (layers : List (CompositedLayer C B S)) (planned : List (ℕ × TileCoord))
  | dropUnseenLayers
  | evictToBudget (budgetBytes : ℕ)
  | clear

structure TileFrames (C B : Type*) where
  cache : TileCache C B
  used : List (LayerKey × TileCoord)

namespace TileFrames

def step (state : TileFrames C B) : TileAction C B S → TileFrames C B
  | .beginFrame layers composited =>
    ⟨(state.cache.beginFrame layers composited).1, TileCache.ofLayers layers composited⟩
  | .prepare layers planned => { state with cache := state.cache.prepare layers planned }
  | .dropUnseenLayers => { state with cache := state.cache.dropUnseenLayers }
  | .evictToBudget budgetBytes => { state with cache := state.cache.evictTo budgetBytes }
  | .clear => ⟨state.cache.clear, []⟩

def run (budgetBytes : ℕ) (actions : List (TileAction C B S)) : TileFrames C B :=
  actions.foldl step ⟨.new budgetBytes, []⟩

structure Holds (state : TileFrames C B) : Prop where
  used : ∀ key, TileCache.lastUsed state.cache.tiles key = some state.cache.frame ↔ key ∈ state.used
  le : ∀ key n, TileCache.lastUsed state.cache.tiles key = some n → n ≤ state.cache.frame
  seen : ∀ key ∈ state.used, ∃ seen, state.cache.layers.get? key.1 = some seen ∧
    seen.lastFrame = state.cache.frame

variable {state : TileFrames C B}

lemma Holds.keep (h : Holds state) {cache : TileCache C B}
    (hframe : cache.frame = state.cache.frame)
    (hcases : ∀ key, TileCache.lastUsed cache.tiles key = TileCache.lastUsed state.cache.tiles key ∨
      TileCache.lastUsed cache.tiles key = none) (hused : ∀ key ∈ state.used,
      TileCache.lastUsed cache.tiles key = TileCache.lastUsed state.cache.tiles key)
    (hlayers : ∀ key ∈ state.used, cache.layers.get? key.1 = state.cache.layers.get? key.1) :
    Holds (⟨cache, state.used⟩ : TileFrames C B) := by
  refine ⟨fun key => ⟨fun hkey => ?_, fun hkey => ?_⟩, fun key n hn => ?_, fun key hkey => ?_⟩
  · rcases hcases key with heq | hnone
    · rw [heq, hframe] at hkey
      exact (h.used key).mp hkey
    · rw [hnone] at hkey
      cases hkey
  · rw [hused key hkey, hframe]
    exact (h.used key).mpr hkey
  · rcases hcases key with heq | hnone
    · rw [heq] at hn
      rw [hframe]
      exact h.le key n hn
    · rw [hnone] at hn
      cases hn
  · rw [hlayers key hkey, hframe]
    exact h.seen key hkey

lemma Holds.dropUnseenLayers (h : Holds state) :
    Holds (⟨state.cache.dropUnseenLayers, state.used⟩ : TileFrames C B) := by
  have hseen : ∀ key ∈ state.used,
      TileCache.lastUsed state.cache.dropUnseenLayers.tiles key =
          TileCache.lastUsed state.cache.tiles key ∧
        state.cache.dropUnseenLayers.layers.get? key.1 = state.cache.layers.get? key.1 := by
    intro key hkey
    obtain ⟨seen, hget, hframe⟩ := h.seen key hkey
    obtain ⟨htile, hlayer⟩ :=
      (TileCache.lastUsed_dropUnseenLayers state.cache key).2 seen hget hframe
    exact ⟨htile, hlayer.trans hget.symm⟩
  exact h.keep rfl (fun key => (TileCache.lastUsed_dropUnseenLayers state.cache key).1)
    (fun key hkey => (hseen key hkey).1) (fun key hkey => (hseen key hkey).2)

lemma Holds.evictTo (h : Holds state) (budgetBytes : ℕ) :
    Holds (⟨state.cache.evictTo budgetBytes, state.used⟩ : TileFrames C B) := by
  refine h.keep rfl (fun key => (TileCache.lastUsed_evictTo state.cache budgetBytes key).1)
    (fun key hkey => ?_) (fun _ _ => rfl)
  have hget := (TileCache.lastUsed_evictTo state.cache budgetBytes key).2 ((h.used key).mpr hkey)
  rw [TileCache.lastUsed, hget, TileCache.lastUsed]

lemma Holds.prepare (h : Holds state) (layers : List (CompositedLayer C B S))
    (planned : List (ℕ × TileCoord)) :
    Holds (⟨state.cache.prepare layers planned, state.used⟩ : TileFrames C B) := by
  have hevict := h.evictTo state.cache.budgetBytes
  refine hevict.keep rfl (fun key => .inl ?_) (fun key _ => ?_) (fun _ _ => rfl)
  · exact TileCache.lastUsed_foldl_prepareTile layers planned _ key
  · exact TileCache.lastUsed_foldl_prepareTile layers planned _ key

lemma Holds.beginFrame (h : Holds state) (layers : List (CompositedLayer C B S))
    (composited : List (LayerKey × TileCoord)) :
    Holds (⟨(state.cache.beginFrame layers composited).1,
      TileCache.ofLayers layers composited⟩ : TileFrames C B) := by
  set frame := state.cache.frame + 1 with hframe
  set seen := layers.foldl TileCache.seeLayer { state.cache with frame := frame } with hseen
  have hseenFrame : seen.frame = frame := TileCache.foldl_seeLayer_frame _ _
  have hbefore : ∀ key n, TileCache.lastUsed seen.tiles key = some n → n < frame := by
    intro key n hn
    rw [hseen, TileCache.lastUsed_foldl_seeLayer] at hn
    exact Nat.lt_succ_of_le (h.le key n hn)
  have hmarked := @TileCache.Marked.foldl_useTile C B S layers frame composited _ hbefore
  set looked := composited.foldl (TileCache.useTile layers frame) (seen.tiles, []) with hlooked
  set planned := looked.2.insertionSort (fun a b => toLex (a.1, a.2.lex) ≤ toLex (b.1, b.2.lex))
    with hplanned
  have hmem : ∀ p, p ∈ planned ↔ p ∈ looked.2 := fun p => mem_insertionSort _
  obtain ⟨hcases, hkeeps, hmarks⟩ := @TileCache.lastUsed_foldl_planTile C B S layers
    composited frame planned (fun p hp => hmarked.planned p ((hmem p).mp hp)) looked.1
  set tiles := planned.foldl (TileCache.planTile layers frame) looked.1 with htiles
  have heq : (state.cache.beginFrame layers composited).1 =
      ({ seen with tiles := tiles } : TileCache C B).dropUnseenLayers := by
    rw [TileCache.beginFrame]
    simp only [← hseen, hseenFrame, ← hframe, ← hlooked, ← hplanned, ← htiles]
  have hholds : Holds (⟨{ seen with tiles := tiles }, TileCache.ofLayers layers composited⟩ :
      TileFrames C B) := by
    refine ⟨fun key => ?_, fun key n hn => ?_, fun key hkey => ?_⟩
    · dsimp only
      rw [hseenFrame]
      refine ⟨fun hkey => ?_, fun hkey => ?_⟩
      · rcases hcases key with hsame | ⟨hused, -⟩
        · rw [hsame] at hkey
          exact hmarked.used key hkey
        · exact hused
      · obtain ⟨hcomposited, index, hindex⟩ := TileCache.mem_ofLayers.mp hkey
        rcases hmarked.marked key hcomposited index hindex with hused | hmem'
        · exact hkeeps key hused
        · exact hmarks key (index, key.2) ((hmem _).mpr hmem') hindex rfl
    · dsimp only at hn ⊢
      rw [hseenFrame]
      rcases hcases key with hsame | ⟨-, hframe'⟩
      · rw [hsame] at hn
        exact hmarked.le key n hn
      · rw [hframe'] at hn
        exact (some.inj hn).ge
    · obtain ⟨-, index, hindex⟩ := TileCache.mem_ofLayers.mp hkey
      obtain ⟨layer, hlayer, hkey'⟩ := TileCache.exists_of_indices hindex
      exact TileCache.foldl_seeLayer_seen (.inr ⟨layer, mem_of_getElem? hlayer, hkey'⟩)
  rw [heq]
  exact hholds.dropUnseenLayers

lemma Holds.rasterizes (h : Holds state) (layers : List (CompositedLayer C B S))
    (composited : List (LayerKey × TileCoord)) {p : ℕ × TileCoord}
    (hp : p ∈ (state.cache.beginFrame layers composited).2) {layer : CompositedLayer C B S}
    (hlayer : layers[p.1]? = some layer) :
    (layer.key, p.2) ∈ TileCache.ofLayers layers composited := by
  set frame := state.cache.frame + 1 with hframe
  set seen := layers.foldl TileCache.seeLayer { state.cache with frame := frame } with hseen
  have hseenFrame : seen.frame = frame := TileCache.foldl_seeLayer_frame _ _
  have hmarked := @TileCache.Marked.foldl_useTile C B S layers frame composited seen.tiles (by
    intro key n hn
    rw [hseen, TileCache.lastUsed_foldl_seeLayer] at hn
    exact Nat.lt_succ_of_le (h.le key n hn))
  rw [TileCache.beginFrame] at hp
  simp only [← hseen, hseenFrame, ← hframe, mem_insertionSort] at hp
  obtain ⟨key, hkey, hindex, hcoord⟩ := hmarked.planned p hp
  obtain ⟨layer', hlayer', hkey'⟩ := TileCache.exists_of_indices hindex
  obtain rfl := some.inj (hlayer.symm.trans hlayer')
  rw [hkey', ← hcoord, Prod.mk.eta]
  exact TileCache.mem_ofLayers.mpr ⟨hkey, p.1, hindex⟩

lemma Holds.step (h : Holds state) (action : TileAction C B S) : Holds (state.step action) := by
  cases action with
  | beginFrame layers composited => exact h.beginFrame layers composited
  | prepare layers planned => exact h.prepare layers planned
  | dropUnseenLayers => exact h.dropUnseenLayers
  | evictToBudget budgetBytes => exact h.evictTo budgetBytes
  | clear =>
    refine ⟨fun key => ⟨fun hkey => ?_, fun hkey => absurd hkey not_mem_nil⟩,
      fun key n hn => ?_, fun key hkey => absurd hkey not_mem_nil⟩
    · cases hkey
    · cases hn

lemma holds_run (budgetBytes : ℕ) (actions : List (TileAction C B S)) :
    Holds (run budgetBytes actions) := by
  induction actions using reverseRecOn with
  | nil =>
    refine ⟨fun key => ⟨fun hkey => ?_, fun hkey => absurd hkey not_mem_nil⟩,
      fun key n hn => ?_, fun key hkey => absurd hkey not_mem_nil⟩
    · cases hkey
    · cases hn
  | append_singleton actions action ih =>
    rw [run, foldl_append]
    exact ih.step action

/-- After every run an eviction keeps the tiles that the current frame composites, among which are
the ones it rasterizes. Its count never runs below zero. It keeps any other tile as it is or
releases it, and releases none that was used later than one it keeps. What is left fits the budget,
unless only tiles of the frame are left. -/
theorem run_evicts (budgetBytes : ℕ) (actions : List (TileAction C B S)) (budget : ℕ) :
    let state := run budgetBytes actions
    let cache := state.cache
    let left := cache.evictTo budget
    cache.checkedEvictTo budget = some left ∧
    (∀ (layers : List (CompositedLayer C B S)) composited,
      ∀ p ∈ (cache.beginFrame layers composited).2, ∀ layer, layers[p.1]? = some layer →
        (layer.key, p.2) ∈ (state.step (.beginFrame layers composited)).used) ∧
    (∀ key ∈ state.used, ∃ tile, left.tiles.get? key = some tile ∧
      cache.tiles.get? key = some tile) ∧
    (∀ key, left.tiles.get? key = none ∨ left.tiles.get? key = cache.tiles.get? key) ∧
    (∀ key tile key' tile', cache.tiles.get? key = some tile → left.tiles.get? key = none →
      left.tiles.get? key' = some tile' → key' ∉ state.used → tile.lastUsed ≤ tile'.lastUsed) ∧
    (left.bytes ≤ budget ∨
      left.pool = [] ∧ ∀ key tile, left.tiles.get? key = some tile → key ∈ state.used) := by
  intro state cache left
  have h : Holds state := holds_run budgetBytes actions
  obtain ⟨gone, kept, hkeys, hchecked, hget, hend⟩ := TileCache.evictTo_spec cache budget
  have hcandidate : ∀ key tile, cache.tiles.get? key = some tile → key ∉ state.used →
      (key, tile) ∈ cache.candidates := by
    intro key tile htile hused
    refine TileCache.mem_candidates.mpr ⟨htile, fun hframe => hused ((h.used key).mp ?_)⟩
    rw [TileCache.lastUsed, htile, map_some, hframe]
  refine ⟨hchecked,
    fun layers composited p hp layer hlayer => h.rasterizes layers composited hp hlayer,
    fun key hkey => ?_, fun key => ?_, fun key tile key' tile' htile hgone htile'
    hused' => ?_, ?_⟩
  · have hused := (h.used key).mpr hkey
    obtain ⟨tile, htile, -⟩ := map_eq_some_iff.mp hused
    exact ⟨tile, ((TileCache.lastUsed_evictTo cache budget key).2 hused).trans htile, htile⟩
  · rw [hget]
    split
    · exact .inl rfl
    · exact .inr rfl
  · rw [hget] at hgone htile'
    split at htile'
    · cases htile'
    · next hkept' =>
      split at hgone
      · next hgone' =>
        obtain ⟨goneTiles, keptTiles, hsplit, rfl, rfl⟩ := map_eq_append_iff.mp hkeys
        obtain ⟨⟨k, t⟩, hmem, rfl⟩ := mem_map.mp hgone'
        have hk : (k, t) ∈ cache.candidates := hsplit ▸ mem_append_left _ hmem
        obtain rfl := some.inj (htile.symm.trans (TileCache.mem_candidates.mp hk).1)
        have hmem' : (key', tile') ∈ keptTiles := by
          have hall := hcandidate key' tile' htile' hused'
          rw [hsplit] at hall
          exact (mem_append.mp hall).resolve_left
            (fun hm => hkept' (mem_map_of_mem hm))
        have hsorted := TileCache.candidates_pairwise cache
        rw [hsplit, pairwise_append] at hsorted
        exact hsorted.2.2 _ hmem _ hmem'
      · rw [hgone] at htile
        cases htile
  · obtain hfits | ⟨hpool, hkept⟩ := hend
    · exact .inl hfits
    refine .inr ⟨hpool, fun key tile htile => ?_⟩
    rw [hget] at htile
    split at htile
    · cases htile
    · next hnot =>
      by_contra hused
      have hmem := mem_map_of_mem (f := Prod.fst) (hcandidate key tile htile hused)
      rw [hkeys, hkept, append_nil] at hmem
      exact hnot hmem

end TileFrames

end GpuiFast
