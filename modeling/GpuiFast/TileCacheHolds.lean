import GpuiFast.TileCache

namespace GpuiFast

open List Function

variable {C B S : Type*}

/-- What `r` does not list as dirty was the same in `old`. -/
def LayerRecord.Carries (old r : LayerRecord C B S) : Prop :=
  ∀ coord ∉ r.dirtyTiles, ∀ hash, r.tileHashes.get? coord = some hash →
    old.tileHashes.get? coord = some hash ∧ old.background = r.background

def LayerRecord.Streamed (stream : C → TileCoord → S) (r : LayerRecord C B S) : Prop :=
  ∀ coord hash, r.tileHashes.get? coord = some hash → hash = stream r.content coord

/-- The generations `made` so far, of which the core holds the last of each layer and handed out
those in `handed`. -/
structure CoreHolds (stream : C → TileCoord → S) (made handed : List (CompositedLayer C B S))
    (core : LayerKey → Layer C B S) : Prop where
  le : ∀ f ∈ made, f.record.generation ≤ (core f.key).generation
  unique : ∀ f ∈ made, ∀ f' ∈ made, f.key = f'.key →
    f.record.generation = f'.record.generation → f = f'
  carries : ∀ f ∈ made, ∀ f' ∈ made, f.key = f'.key →
    f'.record.generation = f.record.generation + 1 → f.record.Carries f'.record
  current : ∀ key r, (core key).record = some r →
    ⟨key, r, TILE_SIZE⟩ ∈ made ∧ r.generation = (core key).generation
  currentStreamed : ∀ key r, (core key).list = false → (core key).record = some r →
    r.Streamed stream
  handed : ∀ f ∈ handed, f ∈ made ∧ f.record.Streamed stream

section Core

variable {stream : C → TileCoord → S} {made handed : List (CompositedLayer C B S)}
  {core : LayerKey → Layer C B S} {key : LayerKey} {layer : Layer C B S}

lemma coreHolds_new : CoreHolds stream [] [] (fun _ => (.new : Layer C B S)) where
  le := by simp
  unique := by simp
  carries := by simp
  current _ _ h := by cases h
  currentStreamed _ _ _ h := by cases h
  handed := by simp

variable {hashes : KeyMap TileCoord S} {coord : TileCoord} {old r : LayerRecord C B S}

lemma mem_allTiles : coord ∈ allTiles hashes ↔ ∃ hash, hashes.get? coord = some hash := by
  rw [allTiles, mem_insertionSort, KeyMap.mem_keys]

lemma carries_of_allTiles (h : r.dirtyTiles = allTiles r.tileHashes) : old.Carries r := by
  intro coord hc hash hh
  exact absurd (h ▸ mem_allTiles.mpr ⟨hash, hh⟩) hc

lemma CoreHolds.make (h : CoreHolds stream made handed core)
    (hgen : layer.generation = (core key).generation + 1) (hr : layer.record = some r)
    (hrgen : r.generation = layer.generation)
    (hsome : ∀ old, (core key).record = some old → old.Carries r)
    (hnone : (core key).record = none → r.dirtyTiles = allTiles r.tileHashes)
    (hstreamed : layer.list = false → r.Streamed stream) :
    CoreHolds stream (made ++ [⟨key, r, TILE_SIZE⟩]) handed (update core key layer) := by
  have hle : ∀ f ∈ made, f.key = key → f.record.generation < r.generation := by
    intro f hf hk
    have := h.le f hf
    rw [hk] at this
    omega
  refine ⟨?_, ?_, ?_, ?_, ?_, ?_⟩
  · intro f hf
    rcases mem_append.mp hf with hf | hf
    · by_cases hk : f.key = key
      · rw [hk, update_self]
        have := hle f hf hk
        omega
      · rw [update_of_ne hk]
        exact h.le f hf
    · obtain rfl := mem_singleton.mp hf
      simp [hrgen]
  · intro f hf f' hf' hk hg
    rcases mem_append.mp hf with hf | hf <;> rcases mem_append.mp hf' with hf' | hf'
    · exact h.unique f hf f' hf' hk hg
    · obtain rfl := mem_singleton.mp hf'
      have := hle f hf hk
      simp only at hg
      omega
    · obtain rfl := mem_singleton.mp hf
      have := hle f' hf' hk.symm
      simp only at hg
      omega
    · rw [mem_singleton.mp hf, mem_singleton.mp hf']
  · intro f hf f' hf' hk hg
    rcases mem_append.mp hf with hf | hf <;> rcases mem_append.mp hf' with hf' | hf'
    · exact h.carries f hf f' hf' hk hg
    · obtain rfl := mem_singleton.mp hf'
      -- the generation just before is the one the layer held, if it held any
      cases hold : (core key).record with
      | none => exact carries_of_allTiles (hnone hold)
      | some old =>
        obtain ⟨hmem, hog⟩ := h.current key old hold
        have heq := h.unique f hf _ hmem hk (by simp only at hg ⊢; omega)
        rw [heq]
        exact hsome old hold
    · obtain rfl := mem_singleton.mp hf
      have := hle f' hf' hk.symm
      simp only at hg
      omega
    · obtain rfl := mem_singleton.mp hf
      obtain rfl := mem_singleton.mp hf'
      omega
  · intro k r' hr'
    by_cases hk : k = key
    · subst hk
      rw [update_self] at hr' ⊢
      obtain rfl := Option.some.inj (hr.symm.trans hr')
      exact ⟨by simp, hrgen⟩
    · rw [update_of_ne hk] at hr' ⊢
      obtain ⟨hmem, hg⟩ := h.current k r' hr'
      exact ⟨mem_append_left _ hmem, hg⟩
  · intro k r' hl hr'
    by_cases hk : k = key
    · subst hk
      rw [update_self] at hl hr'
      obtain rfl := Option.some.inj (hr.symm.trans hr')
      exact hstreamed hl
    · rw [update_of_ne hk] at hl hr'
      exact h.currentStreamed k r' hl hr'
  · intro f hf
    obtain ⟨hmem, hs⟩ := h.handed f hf
    exact ⟨mem_append_left _ hmem, hs⟩

lemma CoreHolds.keep (h : CoreHolds stream made handed core)
    (hgen : layer.generation = (core key).generation)
    (hr : layer.record = none ∨ layer = core key) :
    CoreHolds stream made handed (update core key layer) := by
  refine ⟨fun f hf => ?_, h.unique, h.carries, fun k r hk => ?_, fun k r hl hk => ?_, h.handed⟩
  · by_cases hkey : f.key = key
    · rw [hkey, update_self, hgen, ← hkey]
      exact h.le f hf
    · rw [update_of_ne hkey]
      exact h.le f hf
  · by_cases hkey : k = key
    · subst hkey
      rw [update_self] at hk ⊢
      rcases hr with hr | rfl
      · rw [hr] at hk
        cases hk
      · exact h.current k r hk
    · rw [update_of_ne hkey] at hk ⊢
      exact h.current k r hk
  · by_cases hkey : k = key
    · subst hkey
      rw [update_self] at hl hk
      rcases hr with hr | rfl
      · rw [hr] at hk
        cases hk
      · exact h.currentStreamed k r hl hk
    · rw [update_of_ne hkey] at hl hk
      exact h.currentStreamed k r hl hk

lemma CoreHolds.hand (h : CoreHolds stream made handed core) (key : LayerKey)
    (viewportEmpty : Bool) :
    CoreHolds stream made (handed ++ ((core key).insertLayer key viewportEmpty).toList) core := by
  refine ⟨h.le, h.unique, h.carries, h.current, h.currentStreamed, fun f hf => ?_⟩
  rcases mem_append.mp hf with hf | hf
  · exact h.handed f hf
  · rw [Option.mem_toList, Layer.insertLayer] at hf
    cases hr : (core key).record with
    | none => simp [hr] at hf
    | some r =>
      simp only [hr, Option.ite_none_left_eq_some, Option.some.injEq] at hf
      obtain ⟨hcond, rfl⟩ := hf
      have hl : (core key).list = false := by
        simp only [Bool.or_eq_true, not_or, Bool.not_eq_true] at hcond
        exact hcond.1.1
      exact ⟨(h.current key r hr).1, h.currentStreamed key r hl hr⟩

variable [DecidableEq B] [DecidableEq S]

lemma mem_dirtyTiles {old new : KeyMap TileCoord S} :
    coord ∈ dirtyTiles old new ↔ ∃ hash, new.get? coord = some hash ∧ old.get? coord ≠ some hash := by
  rw [dirtyTiles, mem_insertionSort]
  simp only [mem_map, mem_filter, Prod.exists, exists_and_right, exists_eq_right,
    KeyMap.get?_eq_some, decide_eq_true_eq]

lemma carries_recordContent {content : C} {background : B} {hasPaths : Bool} {generation : ℤ} :
    old.Carries ⟨content, generation, hashes, dirtied (some old) background hashes, background,
      hasPaths⟩ := by
  by_cases hb : old.background = background
  · intro coord hc hash hh
    simp only [dirtied, if_pos hb, mem_dirtyTiles, not_exists, not_and, not_not] at hc
    exact ⟨hc hash hh, hb⟩
  · exact carries_of_allTiles (by simp [dirtied, hb])

lemma CoreHolds.recordContent (h : CoreHolds stream made handed core) (key : LayerKey)
    (content : C) (hashes : KeyMap TileCoord S) (background : B) (hasPaths list : Bool)
    (hstreamed : list = false → ∀ coord hash, hashes.get? coord = some hash →
      hash = stream content coord) :
    ∃ made', (∀ f ∈ made, f ∈ made') ∧ CoreHolds stream made' handed (update core key
      { (core key).recordContent content hashes background hasPaths with list := list }) := by
  refine ⟨_, fun f hf => mem_append_left _ hf, h.make rfl rfl rfl (fun old hold => ?_)
    (fun hnone => ?_) hstreamed⟩
  · rw [hold]
    exact carries_recordContent
  · rw [hnone]
    rfl

omit [DecidableEq S] in
lemma compositeAt_cases (layer : Layer C B S) (background : Option B) :
    layer.compositeAt background = layer ∨
      layer.compositeAt background = { layer with record := none } ∨
      ∃ record background', layer.list = false ∧ layer.record = some record ∧
        layer.compositeAt background = { layer.nextGeneration with
          record := some { record with
            background := background'
            generation := layer.generation + 1
            dirtyTiles := allTiles record.tileHashes } } := by
  cases hlist : layer.list with
  | true => exact .inl (by simp [Layer.compositeAt, hlist])
  | false =>
    cases hr : layer.record with
    | none => exact .inl (by simp [Layer.compositeAt, hr])
    | some record =>
      cases background with
      | none => exact .inr (.inl (by simp [Layer.compositeAt, hlist, hr]))
      | some background =>
        by_cases hb : background = record.background
        · exact .inl (by simp [Layer.compositeAt, hr, hb])
        · exact .inr (.inr ⟨record, background, rfl, rfl, by
            simp [Layer.compositeAt, hlist, hr, hb, Layer.nextGeneration]⟩)

omit [DecidableEq S] in
lemma CoreHolds.compositeAt (h : CoreHolds stream made handed core) (key : LayerKey)
    (background : Option B) :
    ∃ made', (∀ f ∈ made, f ∈ made') ∧ CoreHolds stream made' handed
      (update core key ((core key).compositeAt background)) := by
  rcases compositeAt_cases (core key) background with heq | heq | ⟨record, b, hlist, hr, heq⟩
  · rw [heq]
    exact ⟨made, fun f hf => hf, h.keep rfl (.inr rfl)⟩
  · rw [heq]
    exact ⟨made, fun f hf => hf, h.keep rfl (.inl rfl)⟩
  · rw [heq]
    refine ⟨_, fun f hf => mem_append_left _ hf, h.make rfl rfl rfl (fun old _ => ?_)
      (fun _ => rfl) (fun _ => ?_)⟩
    · exact carries_of_allTiles rfl
    · exact h.currentStreamed key record hlist hr

end Core

namespace TileCache

section Indices

variable {layers : List (CompositedLayer C B S)} {key : LayerKey} {i : ℕ}

lemma indices_concat (layer : CompositedLayer C B S) :
    indices (layers ++ [layer]) = (indices layers).insert layer.key layers.length := by
  rw [indices, zipIdx_append, foldl_append, ← indices]
  simp

lemma exists_of_indices (h : (indices layers).get? key = some i) :
    ∃ layer, layers[i]? = some layer ∧ layer.key = key := by
  induction layers using reverseRecOn with
  | nil => simp [indices] at h
  | append_singleton layers layer ih =>
    rw [indices_concat, KeyMap.get?_insert] at h
    split_ifs at h with hk
    · obtain rfl := Option.some.inj h
      exact ⟨layer, by simp, hk.symm⟩
    · obtain ⟨layer', hl, hkey⟩ := ih h
      exact ⟨layer', by rw [getElem?_append_left (List.getElem?_eq_some_iff.mp hl).1, hl], hkey⟩

lemma indices_get? : ((indices layers).get? key).bind (fun i => layers[i]?) =
    layers.reverse.find? (fun layer => layer.key = key) := by
  induction layers using reverseRecOn with
  | nil => rfl
  | append_singleton layers layer ih =>
    rw [indices_concat, KeyMap.get?_insert, reverse_append, reverse_singleton,
      singleton_append, find?_cons]
    by_cases hk : key = layer.key
    · simp [hk]
    · have hk' : decide (layer.key = key) = false := by simpa using Ne.symm hk
      rw [if_neg hk, hk', ← ih]
      cases hi : (indices layers).get? key with
      | none => rfl
      | some i =>
        obtain ⟨layer', hl, -⟩ := exists_of_indices hi
        exact getElem?_append_left (List.getElem?_eq_some_iff.mp hl).1

end Indices

end TileCache

end GpuiFast
