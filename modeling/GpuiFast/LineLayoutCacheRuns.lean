import GpuiFast.LineLayoutCache
import GpuiFast.NumberShapingRuns

namespace GpuiFast

open List Option

section Maps

variable {κ β : Type*} [DecidableEq κ]

variable {k : κ} {v : β}

lemma foldl_insert_get? {entries : List (κ × β)} {m : KeyMap κ β}
    (h : (entries.foldl (fun m e => m.insert e.1 e.2) m).get? k = some v) :
    m.get? k = some v ∨ (k, v) ∈ entries := by
  induction entries generalizing m with
  | nil => exact .inl h
  | cons e entries ih =>
    rcases ih h with h | h
    · rw [KeyMap.get?_insert] at h
      split at h
      · next hk =>
        rw [hk, ← some.inj h]
        exact .inr (mem_cons_self ..)
      · exact .inl h
    · exact .inr (mem_cons_of_mem _ h)

lemma carryOver_get? {previous current : KeyMap κ β} {held : κ → Bool}
    (h : (carryOver previous current held).get? k = some v) :
    previous.get? k = some v ∨ current.get? k = some v := by
  have hfilter : ∀ w, (previous.filter (fun k _ => held k)).get? k = some w →
      previous.get? k = some w := by
    intro w hw
    rw [KeyMap.get?_filter, filter_eq_some_iff] at hw
    exact hw.1
  rw [carryOver] at h
  dsimp only at h
  split at h
  · rcases foldl_insert_get? h with h | h
    · exact .inr h
    · exact .inl (hfilter v (KeyMap.get?_eq_some.mpr h))
  · rcases foldl_insert_get? h with h | h
    · exact .inl (hfilter v h)
    · exact .inr (KeyMap.get?_eq_some.mpr h)

lemma moveKeys_get? {keys : List κ} {maps : KeyMap κ β × KeyMap κ β}
    (h : (moveKeys keys maps).1.get? k = some v ∨ (moveKeys keys maps).2.get? k = some v) :
    maps.1.get? k = some v ∨ maps.2.get? k = some v := by
  induction keys generalizing maps with
  | nil => exact h
  | cons key keys ih =>
    have h := ih h
    cases hkey : maps.1.get? key with
    | none =>
      simp only [hkey] at h
      exact h
    | some value =>
      simp only [hkey] at h
      rcases h with h | h
      · rw [KeyMap.get?_filter, filter_eq_some_iff] at h
        exact .inl h.1
      · rw [KeyMap.get?_insert] at h
        split at h
        · next hk =>
          rw [hk, ← some.inj h]
          exact .inl hkey
        · exact .inr h

end Maps

variable {K : Type*}

namespace RecentShapes

def Mem (recent : RecentShapes K) (shape : RecentShape K) : Prop :=
  ∃ hash shapes, (recent.current.get? hash = some shapes ∨ recent.old.get? hash = some shapes) ∧
    shape ∈ shapes

end RecentShapes

variable {α : Type*} {x : α}

lemma exists_of_mem_getD {o : Option (List α)} (h : x ∈ o.getD []) : ∃ l, o = some l ∧ x ∈ l := by
  cases o with
  | none => cases h
  | some l => exact ⟨l, rfl, h⟩

lemma mem_of_mem_swapRemove {l : List α} {i : ℕ} (h : x ∈ swapRemove l i) : x ∈ l := by
  rw [swapRemove] at h
  split at h
  · next last hlast =>
    rcases mem_or_eq_of_mem_set (mem_of_mem_dropLast h) with h | rfl
    · exact h
    · exact mem_of_getLast? hlast
  · cases h

namespace RecentShapes

lemma mem_of_mem_push {recent : RecentShapes K} {hash : UInt64} {shape shape' : RecentShape K}
    (h : (recent.push hash shape).Mem shape') : recent.Mem shape' ∨ shape' = shape := by
  obtain ⟨hash', shapes, hget, hmem⟩ := h
  -- what is pushed to: the generation as it is, or a new one
  have hpush : ∀ (r : RecentShapes K), (∀ s, r.Mem s → recent.Mem s) →
      ((r.current.insert hash ((r.current.get? hash).getD [] ++ [shape])).get? hash' = some shapes ∨
        r.old.get? hash' = some shapes) → recent.Mem shape' ∨ shape' = shape := by
    intro r hr hget
    rcases hget with hget | hget
    · rw [KeyMap.get?_insert] at hget
      split at hget
      · obtain rfl := some.inj hget
        rcases mem_append.mp hmem with hmem | hmem
        · obtain ⟨l, hl, hmem⟩ := exists_of_mem_getD hmem
          exact .inl (hr _ ⟨hash, l, .inl hl, hmem⟩)
        · exact .inr (mem_singleton.mp hmem)
      · exact .inl (hr _ ⟨hash', shapes, .inl hget, hmem⟩)
    · exact .inl (hr _ ⟨hash', shapes, .inr hget, hmem⟩)
  rw [push] at hget
  dsimp only at hget
  split at hget
  · refine hpush { recent with old := recent.current, current := .empty, currentGlyphs := 0 } ?_ hget
    rintro s ⟨hash'', l, hl, hs⟩
    rcases hl with hl | hl
    · cases hl
    · exact ⟨hash'', l, .inl hl, hs⟩
  · exact hpush recent (fun _ hs => hs) hget

variable (recent : RecentShapes K)

lemma push_fontsGeneration (hash : UInt64) (shape : RecentShape K) :
    (recent.push hash shape).fontsGeneration = recent.fontsGeneration := by
  rw [push]
  dsimp only
  split <;> rfl

variable (fontsGeneration : ℕ)

lemma insert_spec (hash : UInt64) (shape : RecentShape K) :
    (recent.insert fontsGeneration hash shape).fontsGeneration = recent.fontsGeneration ∧
      ∀ shape', (recent.insert fontsGeneration hash shape).Mem shape' →
        recent.Mem shape' ∨ shape' = shape := by
  rw [insert]
  split
  · exact ⟨rfl, fun _ h => .inl h⟩
  · exact ⟨push_fontsGeneration .., fun _ h => mem_of_mem_push h⟩

lemma get_spec [LinearOrder K] (hash : UInt64) (text : Text) (fontSize : K) (runs : List FontRun) :
    (recent.get fontsGeneration hash text fontSize runs).1.fontsGeneration = fontsGeneration ∧
      (∀ shape, (recent.get fontsGeneration hash text fontSize runs).1.Mem shape →
        fontsGeneration = recent.fontsGeneration ∧ recent.Mem shape) ∧
      ∀ layout, (recent.get fontsGeneration hash text fontSize runs).2 = some layout →
        fontsGeneration = recent.fontsGeneration ∧ ∃ shape, recent.Mem shape ∧
          shape.isFor text fontSize runs = true ∧ shape.layout = layout := by
  rw [get]
  split
  · refine ⟨rfl, ?_, by simp⟩
    rintro shape ⟨hash', shapes, hget, -⟩
    rcases hget with hget | hget <;> cases hget
  next hgen =>
  have hgen := not_not.mp hgen
  split
  · next shape hfind =>
    refine ⟨hgen.symm, fun _ h => ⟨hgen, h⟩, fun layout hlayout => ⟨hgen, shape, ?_,
      find?_some (p := fun s => RecentShape.isFor s text fontSize runs) hfind,
      some.inj hlayout⟩⟩
    obtain ⟨l, hl, hmem⟩ := exists_of_mem_getD (mem_of_find?_eq_some hfind)
    exact ⟨hash, l, .inl hl, hmem⟩
  · dsimp only
    split
    · exact ⟨hgen.symm, fun _ h => ⟨hgen, h⟩, by simp⟩
    next i hidx =>
    split
    · exact ⟨hgen.symm, fun _ h => ⟨hgen, h⟩, by simp⟩
    next shape hshape =>
    obtain ⟨l, hl, hmem⟩ := exists_of_mem_getD (mem_of_getElem? hshape)
    have hrecent : recent.Mem shape := ⟨hash, l, .inr hl, hmem⟩
    refine ⟨(push_fontsGeneration ..).trans hgen.symm, fun shape' h => ⟨hgen, ?_⟩,
      fun layout hlayout => ⟨hgen, shape, hrecent, ?_, some.inj hlayout⟩⟩
    · rcases mem_of_mem_push h with ⟨hash', l', hl', hmem'⟩ | rfl
      · rcases hl' with hl' | hl'
        · exact ⟨hash', l', .inl hl', hmem'⟩
        · dsimp only at hl'
          split at hl'
          · rw [KeyMap.get?_filter, filter_eq_some_iff] at hl'
            exact ⟨hash', l', .inr hl'.1, hmem'⟩
          · rw [KeyMap.get?_insert] at hl'
            split at hl'
            · rw [← some.inj hl'] at hmem'
              obtain ⟨l'', hl'', hmem''⟩ := exists_of_mem_getD (mem_of_mem_swapRemove hmem')
              exact ⟨hash, l'', .inr hl'', hmem''⟩
            · exact ⟨hash', l', .inr hl', hmem'⟩
      · exact hrecent
    · obtain ⟨hi, hfor, -⟩ := findIdx?_eq_some_iff_getElem.mp hidx
      rw [getElem?_eq_getElem hi] at hshape
      rw [← some.inj hshape]
      exact hfor

end RecentShapes

namespace LineLayoutCache

structure SameSystem (c c' : LineLayoutCache K) : Prop where
  platform : c'.platform = c.platform
  hash : c'.hash = c.hash
  breakIndices : c'.breakIndices = c.breakIndices
  fontGeneration : c'.fontGeneration = c.fontGeneration
  fontsGeneration : c'.fontsGeneration = c.fontsGeneration

lemma SameSystem.refl (c : LineLayoutCache K) : SameSystem c c := ⟨rfl, rfl, rfl, rfl, rfl⟩

variable {c : LineLayoutCache K}

variable {c' : LineLayoutCache K}

lemma SameSystem.trans {c'' : LineLayoutCache K} (h : SameSystem c c') (h' : SameSystem c' c'') :
    SameSystem c c'' :=
  ⟨h'.platform.trans h.platform, h'.hash.trans h.hash, h'.breakIndices.trans h.breakIndices,
    h'.fontGeneration.trans h.fontGeneration, h'.fontsGeneration.trans h.fontsGeneration⟩

lemma clear_fields (c : LineLayoutCache K) :
    c.clearIfFontGenerationChanged.recent = c.recent ∧
      c.clearIfFontGenerationChanged.numbers = c.numbers := by
  rw [clearIfFontGenerationChanged]
  split <;> exact ⟨rfl, rfl⟩

lemma clear_clear (c : LineLayoutCache K) :
    c.clearIfFontGenerationChanged.clearIfFontGenerationChanged = c.clearIfFontGenerationChanged := by
  rw [clearIfFontGenerationChanged.eq_def c]
  split
  · next h => rw [clearIfFontGenerationChanged, if_pos h]
  · rw [clearIfFontGenerationChanged, if_pos rfl]

variable [Field K] [LinearOrder K]

def freshShape (platform : LayoutLine K) (text : Text) (fontSize : K) (runs : List FontRun) :
    LineLayout K :=
  (NumberShaping.new.shape 0 platform text fontSize runs).2.getD (platform text fontSize runs)

def freshLine (platform : LayoutLine K) (text : Text) (fontSize : K) (runs : List FontRun)
    (forceWidth : Option K) : LineLayout K :=
  forceLine (freshShape platform text fontSize runs) forceWidth

/-- The wrapped line of a key, laid out with a `max_lines`. -/
def freshWrapped (c : LineLayoutCache K) (key : CacheKey K) (maxLines : Option ℕ) :
    WrappedLineLayout K :=
  c.wrapLine (freshLine c.platform key.text key.fontSize key.runs none) key.text key.wrapWidth maxLines

lemma shape_new (fontsGeneration : ℕ) (platform : LayoutLine K) (text : Text) (fontSize : K)
    (runs : List FontRun) :
    (NumberShaping.new.shape fontsGeneration platform text fontSize runs).2 =
      (NumberShaping.new.shape 0 platform text fontSize runs).2 := by
  have hfonts : ∀ g : ℕ, (if g = (NumberShaping.new : NumberShaping K).fontsGeneration then
      (NumberShaping.new : NumberShaping K) else ⟨fun _ => .new, g⟩).fonts = fun _ => .new := by
    intro g
    split <;> rfl
  rw [NumberShaping.shape.eq_def, NumberShaping.shape.eq_def]
  split
  · split
    · simp only [hfonts]
    · rfl
  · rfl

/-- What the cache keeps is laid out as afresh, wrapped lines with the `max_lines` of the call that
laid them out. -/
structure Fresh (c : LineLayoutCache K) (laidOut : CacheKey K → Option ℕ) : Prop where
  cached_le : c.cachedFontGeneration ≤ c.fontGeneration
  recent_le : c.recent.fontsGeneration ≤ c.fontsGeneration
  recent : c.recent.fontsGeneration = c.fontsGeneration → ∀ shape, c.recent.Mem shape →
    shape.layout = freshShape c.platform shape.text shape.fontSize shape.runs
  lines : c.cachedFontGeneration = c.fontGeneration → ∀ key layout,
    c.previousFrame.lines.get? key = some layout ∨ c.currentFrame.lines.get? key = some layout →
      layout = freshLine c.platform key.text key.fontSize key.runs key.forceWidth
  wrapped : c.cachedFontGeneration = c.fontGeneration → ∀ key layout,
    c.previousFrame.wrappedLines.get? key = some layout ∨
      c.currentFrame.wrappedLines.get? key = some layout →
        layout = c.freshWrapped key (laidOut key)

lemma SameSystem.freshWrapped (h : SameSystem c c') : c'.freshWrapped = c.freshWrapped := by
  funext key maxLines
  simp only [LineLayoutCache.freshWrapped, wrapLine, h.platform, h.breakIndices]

variable {laidOut : CacheKey K → Option ℕ}

lemma clear_spec (h : c.Fresh laidOut) :
    c.clearIfFontGenerationChanged.Fresh laidOut ∧ SameSystem c c.clearIfFontGenerationChanged ∧
      c.clearIfFontGenerationChanged.cachedFontGeneration = c.fontGeneration := by
  rw [clearIfFontGenerationChanged]
  split
  · next heq => exact ⟨h, .refl c, heq⟩
  · refine ⟨⟨le_refl _, h.recent_le, h.recent, fun _ key layout hl => ?_,
      fun _ key layout hl => ?_⟩, ⟨rfl, rfl, rfl, rfl, rfl⟩, rfl⟩
    · rcases hl with hl | hl <;> cases hl
    · rcases hl with hl | hl <;> cases hl

def NumbersAlike (c : LineLayoutCache K) (text : Text) (fontSize : K) (runs : List FontRun) : Prop :=
  (c.numbers.shape c.fontsGeneration c.platform text fontSize runs).2 =
    (NumberShaping.new.shape c.fontsGeneration c.platform text fontSize runs).2

lemma shapeLine_spec (h : c.Fresh laidOut) (text : Text) (fontSize : K) (runs : List FontRun)
    (hnumbers : (c.recent.get c.fontsGeneration (c.hash text fontSize runs) text fontSize runs).2 =
      none → c.NumbersAlike text fontSize runs) :
    (c.shapeLine text fontSize runs).1.Fresh laidOut ∧ SameSystem c (c.shapeLine text fontSize runs).1 ∧
      (c.shapeLine text fontSize runs).1.cachedFontGeneration = c.cachedFontGeneration ∧
      (c.shapeLine text fontSize runs).2 = freshShape c.platform text fontSize runs := by
  obtain ⟨hgen, hmem, hfound⟩ :=
    c.recent.get_spec c.fontsGeneration (c.hash text fontSize runs) text fontSize runs
  have hrecent : ∀ shape,
      (c.recent.get c.fontsGeneration (c.hash text fontSize runs) text fontSize runs).1.Mem shape →
        shape.layout = freshShape c.platform shape.text shape.fontSize shape.runs :=
    fun shape hs => h.recent (hmem shape hs).1.symm shape (hmem shape hs).2
  rw [shapeLine]
  dsimp only
  split
  · next layout hl =>
    refine ⟨⟨h.cached_le, hgen.le, fun _ => hrecent, h.lines, h.wrapped⟩, ⟨rfl, rfl, rfl, rfl, rfl⟩,
      rfl, ?_⟩
    obtain ⟨hgen', shape, hs, hfor, rfl⟩ := hfound layout hl
    obtain ⟨rfl, rfl, rfl⟩ := of_decide_eq_true hfor
    exact h.recent hgen'.symm shape hs
  · next hnone =>
    have hshaped : (c.numbers.shape c.fontsGeneration c.platform text fontSize runs).2.getD
        (c.platform text fontSize runs) = freshShape c.platform text fontSize runs := by
      rw [freshShape, hnumbers hnone, shape_new]
    have hinsert := RecentShapes.insert_spec
      (c.recent.get c.fontsGeneration (c.hash text fontSize runs) text fontSize runs).1
      c.fontsGeneration (c.hash text fontSize runs) ⟨text, fontSize, runs,
        (c.numbers.shape c.fontsGeneration c.platform text fontSize runs).2.getD
          (c.platform text fontSize runs)⟩
    refine ⟨⟨h.cached_le, (hinsert.1.trans hgen).le, fun _ shape hs => ?_, h.lines, h.wrapped⟩,
      ⟨rfl, rfl, rfl, rfl, rfl⟩, rfl, hshaped⟩
    rcases hinsert.2 shape hs with hs | rfl
    · exact hrecent shape hs
    · exact hshaped

def ShapesAfresh (c : LineLayoutCache K) (text : Text) (fontSize : K) (runs : List FontRun)
    (forceWidth : Option K) : Prop :=
  c.clearIfFontGenerationChanged.currentFrame.lines.get? ⟨text, fontSize, runs, none, forceWidth⟩ =
      none ∧
    c.clearIfFontGenerationChanged.previousFrame.lines.get?
      ⟨text, fontSize, runs, none, forceWidth⟩ = none ∧
    (c.recent.get c.fontsGeneration (c.hash text fontSize runs) text fontSize runs).2 = none

lemma Fresh.insertLine (h : c.Fresh laidOut) {key : CacheKey K} {layout : LineLayout K}
    (hlayout : layout = freshLine c.platform key.text key.fontSize key.runs key.forceWidth)
    (lines : KeyMap (CacheKey K) (LineLayout K))
    (hlines : ∀ k v, lines.get? k = some v → c.previousFrame.lines.get? k = some v)
    (used : List (CacheKey K)) :
    ({ c with
      previousFrame := { c.previousFrame with lines := lines }
      currentFrame := { c.currentFrame with
        lines := c.currentFrame.lines.insert key layout
        usedLines := used } } : LineLayoutCache K).Fresh laidOut := by
  refine ⟨h.cached_le, h.recent_le, h.recent, fun hc k v hv => ?_, h.wrapped⟩
  rcases hv with hv | hv
  · exact h.lines hc k v (.inl (hlines k v hv))
  · dsimp only at hv
    rw [KeyMap.get?_insert] at hv
    split at hv
    · next hk =>
      rw [hk, ← some.inj hv]
      exact hlayout
    · exact h.lines hc k v (.inr hv)

lemma layoutLine_spec (h : c.Fresh laidOut) (text : Text) (fontSize : K) (runs : List FontRun)
    (forceWidth : Option K)
    (hnumbers : c.ShapesAfresh text fontSize runs forceWidth → c.NumbersAlike text fontSize runs) :
    (c.layoutLine text fontSize runs forceWidth).1.Fresh laidOut ∧
      SameSystem c (c.layoutLine text fontSize runs forceWidth).1 ∧
      (c.layoutLine text fontSize runs forceWidth).1.cachedFontGeneration = c.fontGeneration ∧
      (c.layoutLine text fontSize runs forceWidth).2 =
        freshLine c.platform text fontSize runs forceWidth := by
  obtain ⟨hfresh, hsame, hcached⟩ := clear_spec h
  obtain ⟨hrecent, hnums⟩ := c.clear_fields
  have hgen := hcached.trans hsame.fontGeneration.symm
  rw [layoutLine]
  dsimp only
  split
  · next layout hl =>
    exact ⟨hfresh, hsame, hcached, by
      rw [hfresh.lines hgen _ layout (.inr hl), hsame.platform]⟩
  next hcurrent =>
  split
  · next layout hl =>
    have hlayout := hfresh.lines hgen _ layout (.inl hl)
    refine ⟨hfresh.insertLine hlayout _ (fun k v hv => ?_) _, ⟨hsame.platform, hsame.hash,
      hsame.breakIndices, hsame.fontGeneration, hsame.fontsGeneration⟩, hcached,
      by rw [hlayout, hsame.platform]⟩
    rw [KeyMap.get?_filter, filter_eq_some_iff] at hv
    exact hv.1
  next hprevious =>
  obtain ⟨hshaped, hsame', hcached', hvalue⟩ :=
    shapeLine_spec hfresh text fontSize runs (fun hnone => by
      have hnone' := hnone
      rw [hrecent, hsame.fontsGeneration, hsame.hash] at hnone'
      rw [NumbersAlike, hnums, hsame.fontsGeneration, hsame.platform]
      exact hnumbers ⟨hcurrent, hprevious, hnone'⟩)
  have hlayout : forceLine (c.clearIfFontGenerationChanged.shapeLine text fontSize runs).2 forceWidth =
      freshLine c.platform text fontSize runs forceWidth := by
    rw [hvalue, hsame.platform, freshLine]
  refine ⟨?_, ⟨(hsame.trans hsame').platform, (hsame.trans hsame').hash,
    (hsame.trans hsame').breakIndices, (hsame.trans hsame').fontGeneration,
    (hsame.trans hsame').fontsGeneration⟩, hcached'.trans hcached, hlayout⟩
  refine hshaped.insertLine ?_ _ (fun k v hv => hv) _
  rw [(hsame.trans hsame').platform]
  exact hlayout

lemma shapeLine_frames (c : LineLayoutCache K) (text : Text) (fontSize : K) (runs : List FontRun) :
    (c.shapeLine text fontSize runs).1.previousFrame = c.previousFrame ∧
      (c.shapeLine text fontSize runs).1.currentFrame = c.currentFrame := by
  rw [shapeLine]
  dsimp only
  split <;> exact ⟨rfl, rfl⟩

lemma layoutLine_wrappedLines (c : LineLayoutCache K) (text : Text) (fontSize : K)
    (runs : List FontRun) (forceWidth : Option K) :
    (c.layoutLine text fontSize runs forceWidth).1.previousFrame.wrappedLines =
        c.clearIfFontGenerationChanged.previousFrame.wrappedLines ∧
      (c.layoutLine text fontSize runs forceWidth).1.currentFrame.wrappedLines =
        c.clearIfFontGenerationChanged.currentFrame.wrappedLines := by
  rw [layoutLine]
  dsimp only
  split
  · exact ⟨rfl, rfl⟩
  · split
    · exact ⟨rfl, rfl⟩
    · obtain ⟨hprevious, hcurrent⟩ :=
        c.clearIfFontGenerationChanged.shapeLine_frames text fontSize runs
      dsimp only
      rw [hprevious, hcurrent]
      exact ⟨rfl, rfl⟩

/-- Whether a wrapped line is kept for a key. -/
def keepsWrapped (c : LineLayoutCache K) (key : CacheKey K) : Bool :=
  (c.clearIfFontGenerationChanged.currentFrame.wrappedLines.get? key).isSome ||
    (c.clearIfFontGenerationChanged.previousFrame.wrappedLines.get? key).isSome

def laidOutAfter (c : LineLayoutCache K) (laidOut : CacheKey K → Option ℕ) (key : CacheKey K)
    (maxLines : Option ℕ) : CacheKey K → Option ℕ :=
  if c.keepsWrapped key then laidOut else Function.update laidOut key maxLines

lemma layoutWrappedLine_spec (h : c.Fresh laidOut) {text : Text} {fontSize : K}
    {runs : List FontRun} {wrapWidth : Option K} {maxLines : Option ℕ}
    (hkeeps : c.keepsWrapped ⟨text, fontSize, runs, wrapWidth, none⟩ = true →
      wrapWidth = none ∨ laidOut ⟨text, fontSize, runs, wrapWidth, none⟩ = maxLines)
    (hnumbers : c.keepsWrapped ⟨text, fontSize, runs, wrapWidth, none⟩ = false →
      c.ShapesAfresh text fontSize runs none → c.NumbersAlike text fontSize runs) :
    (c.layoutWrappedLine text fontSize runs wrapWidth maxLines).1.Fresh
        (c.laidOutAfter laidOut ⟨text, fontSize, runs, wrapWidth, none⟩ maxLines) ∧
      (c.layoutWrappedLine text fontSize runs wrapWidth maxLines).2 =
        c.freshWrapped ⟨text, fontSize, runs, wrapWidth, none⟩ maxLines := by
  obtain ⟨hfresh, hsame, hcached⟩ := clear_spec h
  obtain ⟨hrecent, hnums⟩ := c.clear_fields
  have hgen := hcached.trans hsame.fontGeneration.symm
  have hkept : ∀ layout, c.keepsWrapped ⟨text, fontSize, runs, wrapWidth, none⟩ = true →
      layout = c.freshWrapped ⟨text, fontSize, runs, wrapWidth, none⟩
        (laidOut ⟨text, fontSize, runs, wrapWidth, none⟩) →
      layout = c.freshWrapped ⟨text, fontSize, runs, wrapWidth, none⟩ maxLines := by
    rintro layout hk rfl
    rcases hkeeps hk with rfl | hlaid
    · rfl
    · rw [hlaid]
  rw [layoutWrappedLine, laidOutAfter]
  dsimp only
  split
  · next layout hl =>
    have hk : c.keepsWrapped ⟨text, fontSize, runs, wrapWidth, none⟩ = true := by
      simp [keepsWrapped, hl]
    rw [if_pos hk]
    refine ⟨hfresh, hkept layout hk ?_⟩
    rw [hfresh.wrapped hgen _ layout (.inr hl), hsame.freshWrapped]
  next hcurrent =>
  split
  · next layout hl =>
    have hk : c.keepsWrapped ⟨text, fontSize, runs, wrapWidth, none⟩ = true := by
      simp [keepsWrapped, hl]
    rw [if_pos hk]
    refine ⟨⟨hfresh.cached_le, hfresh.recent_le, hfresh.recent, hfresh.lines,
      fun hc k v hv => hfresh.wrapped hc k v ?_⟩, hkept layout hk ?_⟩
    · rcases hv with hv | hv
      · dsimp only at hv
        rw [KeyMap.get?_filter, filter_eq_some_iff] at hv
        exact .inl hv.1
      · dsimp only at hv
        rw [KeyMap.get?_insert] at hv
        split at hv
        · next hk =>
          rw [hk, ← some.inj hv]
          exact .inl hl
        · exact .inr hv
    · rw [hfresh.wrapped hgen _ layout (.inl hl), hsame.freshWrapped]
  next hprevious =>
  have hk : c.keepsWrapped ⟨text, fontSize, runs, wrapWidth, none⟩ = false := by
    simp [keepsWrapped, hcurrent, hprevious]
  rw [if_neg (by simp [hk])]
  obtain ⟨hfresh', hsame', hcached', hvalue⟩ :=
    layoutLine_spec hfresh text fontSize runs none (fun hafresh => by
      rw [ShapesAfresh, clear_clear, hrecent, hsame.fontsGeneration, hsame.hash] at hafresh
      rw [NumbersAlike, hnums, hsame.fontsGeneration, hsame.platform]
      exact hnumbers hk hafresh)
  obtain ⟨hwrapped, hwrapped'⟩ :=
    c.clearIfFontGenerationChanged.layoutLine_wrappedLines text fontSize runs none
  rw [clear_clear] at hwrapped hwrapped'
  have hsys := hsame.trans hsame'
  have hlayout : LineLayoutCache.wrapLine
      (c.clearIfFontGenerationChanged.layoutLine text fontSize runs none).1
      (c.clearIfFontGenerationChanged.layoutLine text fontSize runs none).2 text wrapWidth maxLines =
        c.freshWrapped ⟨text, fontSize, runs, wrapWidth, none⟩ maxLines := by
    simp only [hvalue, freshWrapped, wrapLine, hsame.platform, hsys.breakIndices]
  refine ⟨⟨hfresh'.cached_le, hfresh'.recent_le, hfresh'.recent, hfresh'.lines, fun hc k v hv => ?_⟩,
    hlayout⟩
  refine Eq.trans ?_ (congrFun (congrFun (SameSystem.freshWrapped (c := c) ⟨hsys.platform, hsys.hash,
    hsys.breakIndices, hsys.fontGeneration, hsys.fontsGeneration⟩).symm k) _)
  dsimp only at hv ⊢
  rw [hwrapped, hwrapped', KeyMap.get?_insert] at hv
  rw [Function.update_apply]
  split
  · next hkey =>
    -- nothing else was kept under the key
    subst hkey
    rw [if_pos rfl, hprevious] at hv
    rcases hv with hv | hv
    · cases hv
    · rw [← some.inj hv]
      exact hlayout
  · next hkey =>
    rw [if_neg hkey] at hv
    rw [hfresh.wrapped hgen k v hv, hsame.freshWrapped]

section Numbers

/-- The fonts and sizes a call wants numbers in. -/
def numbersIn (text : Text) (fontSize : K) : List FontRun → List (FontId × K)
  | [run] => if NumberShaping.isNumber text run then [(run.fontId, fontSize)] else []
  | _ => []

/-- What has been measured of numbers in the fonts at hand: nothing but of what was `asked`, and
what the platform makes them of where only neighbours affect the result. -/
structure NumbersKnown (c : LineLayoutCache K) (asked : List (FontId × K)) : Prop where
  le : c.numbers.fontsGeneration ≤ c.fontsGeneration
  measured : ∀ fontId fontSize metrics,
    NumberShaping.Additive c.platform fontId fontSize metrics →
      NumberShaping.Measured metrics
        ((c.numbers.current c.fontsGeneration).fonts (fontId, fontSize))
  unmeasured : ∀ font, font ∉ asked → (c.numbers.current c.fontsGeneration).fonts font = .new

variable {asked : List (FontId × K)}

omit [LinearOrder K] in
lemma NumbersKnown.congr (h : c.NumbersKnown asked) (hsame : SameSystem c c')
    (hnumbers : c'.numbers = c.numbers) : c'.NumbersKnown asked := by
  refine ⟨?_, ?_, ?_⟩ <;> rw [hnumbers, hsame.fontsGeneration]
  · exact h.le
  · rw [hsame.platform]
    exact h.measured
  · exact h.unmeasured

omit [LinearOrder K] in
lemma NumbersKnown.mono (h : c.NumbersKnown asked) (more : List (FontId × K)) :
    c.NumbersKnown (asked ++ more) :=
  ⟨h.le, h.measured, fun font hfont => h.unmeasured font (fun hin => hfont (mem_append_left _ hin))⟩

omit [LinearOrder K] in
lemma new_current_fonts (fontsGeneration : ℕ) (font : FontId × K) :
    ((NumberShaping.new : NumberShaping K).current fontsGeneration).fonts font = .new := by
  rw [NumberShaping.current]
  split <;> rfl

lemma NumbersKnown.shape [IsStrictOrderedRing K] (h : c.NumbersKnown asked)
    (hsame : SameSystem c c') {text : Text} {fontSize : K} {runs : List FontRun}
    (hnumbers : c'.numbers = (c.numbers.shape c.fontsGeneration c.platform text fontSize runs).1) :
    c'.NumbersKnown (asked ++ numbersIn text fontSize runs) := by
  rcases c.numbers.shape_cases c.fontsGeneration c.platform text fontSize runs with
    hnone | ⟨run, rfl, hnumber⟩
  · rw [hnone] at hnumbers
    exact (h.congr hsame hnumbers).mono _
  · rw [NumberShaping.shape_singleton _ _ _ _ hnumber] at hnumbers
    have hgeneration : c'.numbers.fontsGeneration = c.fontsGeneration := by
      rw [hnumbers]
      exact NumberCalls.current_fontsGeneration _ _
    have hcurrent : c'.numbers.current c'.fontsGeneration = c'.numbers := by
      rw [NumberShaping.current, if_pos (hsame.fontsGeneration.trans hgeneration.symm)]
    refine ⟨hgeneration.le.trans hsame.fontsGeneration.ge, fun fontId size metrics hplatform => ?_,
      fun font hfont => ?_⟩
    · rw [hsame.platform] at hplatform
      have hmeasured := h.measured fontId size metrics hplatform
      rw [hcurrent, hnumbers]
      dsimp only
      by_cases hkey : (fontId, size) = (run.fontId, fontSize)
      · obtain ⟨rfl, rfl⟩ := Prod.mk.inj hkey
        obtain ⟨font', heq, hfont'⟩ := NumberShaping.shapeIn_measured hplatform hmeasured hnumber
        rw [Function.update_self, heq]
        exact hfont'
      · rw [Function.update_of_ne hkey]
        exact hmeasured
    · rw [mem_append, numbersIn, if_pos hnumber, mem_singleton, not_or] at hfont
      rw [hcurrent, hnumbers]
      dsimp only
      rw [Function.update_of_ne hfont.2]
      exact h.unmeasured font hfont.1

/-- Whether what was measured of numbers cannot change how a line shaped afresh is put together: it
is no number, or nothing was measured in its font and size, or only neighbours affect the result. -/
def NumbersSafe (c : LineLayoutCache K) (asked : List (FontId × K)) (text : Text) (fontSize : K)
    (runs : List FontRun) : Prop :=
  ∀ font ∈ numbersIn text fontSize runs,
    font ∉ asked ∨ ∃ metrics, NumberShaping.Additive c.platform font.1 font.2 metrics

lemma NumbersSafe.alike [IsStrictOrderedRing K] {text : Text} {fontSize : K} {runs : List FontRun}
    (hsafe : c.NumbersSafe asked text fontSize runs) (h : c.NumbersKnown asked) :
    c.NumbersAlike text fontSize runs := by
  rw [NumbersAlike]
  by_cases hrun : ∃ run, runs = [run] ∧ NumberShaping.isNumber text run = true
  swap
  · rw [(c.numbers.shape_cases c.fontsGeneration c.platform text fontSize runs).resolve_right hrun,
      (NumberShaping.new.shape_cases c.fontsGeneration c.platform text fontSize runs).resolve_right
        hrun]
  · obtain ⟨run, rfl, hnumber⟩ := hrun
    rw [NumberShaping.shape_singleton _ _ _ _ hnumber, NumberShaping.shape_singleton _ _ _ _ hnumber]
    dsimp only
    rw [new_current_fonts]
    have hin : (run.fontId, fontSize) ∈ numbersIn text fontSize [run] := by
      rw [numbersIn, if_pos hnumber]
      exact mem_singleton_self _
    rcases hsafe _ hin with hfont | ⟨metrics, hplatform⟩
    · rw [h.unmeasured _ hfont]
    · obtain ⟨font, heq, -⟩ := NumberShaping.shapeIn_measured hplatform
        (h.measured _ _ metrics hplatform) hnumber
      obtain ⟨font', heq', -⟩ := NumberShaping.shapeIn_measured hplatform
        (NumberShaping.measured_new metrics) hnumber
      rw [heq, heq']

lemma shapeLine_numbers (c : LineLayoutCache K) (text : Text) (fontSize : K) (runs : List FontRun) :
    (c.shapeLine text fontSize runs).1.numbers = c.numbers ∨
      (c.shapeLine text fontSize runs).1.numbers =
        (c.numbers.shape c.fontsGeneration c.platform text fontSize runs).1 := by
  rw [shapeLine]
  dsimp only
  split
  · exact .inl rfl
  · exact .inr rfl

lemma layoutLine_numbers (c : LineLayoutCache K) (text : Text) (fontSize : K) (runs : List FontRun)
    (forceWidth : Option K) :
    SameSystem c (c.layoutLine text fontSize runs forceWidth).1 ∧
      ((c.layoutLine text fontSize runs forceWidth).1.numbers = c.numbers ∨
        (c.layoutLine text fontSize runs forceWidth).1.numbers =
          (c.numbers.shape c.fontsGeneration c.platform text fontSize runs).1) := by
  have hclear : SameSystem c c.clearIfFontGenerationChanged := by
    rw [clearIfFontGenerationChanged]
    split <;> exact ⟨rfl, rfl, rfl, rfl, rfl⟩
  have hshape := c.clearIfFontGenerationChanged.shapeLine_numbers text fontSize runs
  have hshape' : SameSystem c.clearIfFontGenerationChanged
      (c.clearIfFontGenerationChanged.shapeLine text fontSize runs).1 := by
    rw [shapeLine]
    dsimp only
    split <;> exact ⟨rfl, rfl, rfl, rfl, rfl⟩
  rw [(c.clear_fields).2, hclear.fontsGeneration, hclear.platform] at hshape
  have hsame := hclear.trans hshape'
  rw [layoutLine]
  dsimp only
  split
  · exact ⟨hclear, .inl (c.clear_fields).2⟩
  · split
    · exact ⟨⟨hclear.platform, hclear.hash, hclear.breakIndices, hclear.fontGeneration,
        hclear.fontsGeneration⟩, .inl (c.clear_fields).2⟩
    · exact ⟨⟨hsame.platform, hsame.hash, hsame.breakIndices, hsame.fontGeneration,
        hsame.fontsGeneration⟩, hshape⟩

lemma layoutWrappedLine_numbers (c : LineLayoutCache K) (text : Text) (fontSize : K)
    (runs : List FontRun) (wrapWidth : Option K) (maxLines : Option ℕ) :
    SameSystem c (c.layoutWrappedLine text fontSize runs wrapWidth maxLines).1 ∧
      ((c.layoutWrappedLine text fontSize runs wrapWidth maxLines).1.numbers = c.numbers ∨
        (c.layoutWrappedLine text fontSize runs wrapWidth maxLines).1.numbers =
          (c.numbers.shape c.fontsGeneration c.platform text fontSize runs).1) := by
  have hclear : SameSystem c c.clearIfFontGenerationChanged := by
    rw [clearIfFontGenerationChanged]
    split <;> exact ⟨rfl, rfl, rfl, rfl, rfl⟩
  obtain ⟨hline, hnumbers⟩ :=
    c.clearIfFontGenerationChanged.layoutLine_numbers text fontSize runs none
  rw [(c.clear_fields).2, hclear.fontsGeneration, hclear.platform] at hnumbers
  have hsame := hclear.trans hline
  rw [layoutWrappedLine]
  dsimp only
  split
  · exact ⟨hclear, .inl (c.clear_fields).2⟩
  · split
    · exact ⟨⟨hclear.platform, hclear.hash, hclear.breakIndices, hclear.fontGeneration,
        hclear.fontsGeneration⟩, .inl (c.clear_fields).2⟩
    · exact ⟨⟨hsame.platform, hsame.hash, hsame.breakIndices, hsame.fontGeneration,
        hsame.fontsGeneration⟩, hnumbers⟩

end Numbers

lemma fresh_new (platform : LayoutLine K) (hash : Text → K → List FontRun → UInt64)
    (breakIndices : Text → List ℕ) (fontGeneration fontsGeneration : ℕ) :
    (new platform hash breakIndices fontGeneration fontsGeneration).Fresh laidOut := by
  refine ⟨le_refl _, Nat.zero_le _, fun _ shape hs => ?_, fun _ key layout hl => ?_,
    fun _ key layout hl => ?_⟩
  · obtain ⟨h, l, hl, -⟩ := hs
    rcases hl with hl | hl <;> cases hl
  · rcases hl with hl | hl <;> cases hl
  · rcases hl with hl | hl <;> cases hl

def freshAnswer (c : LineLayoutCache K) : Call K → LineLayout K ⊕ WrappedLineLayout K
  | .layoutLine text fontSize runs forceWidth =>
    .inl (freshLine c.platform text fontSize runs forceWidth)
  | .layoutWrappedLine text fontSize runs wrapWidth maxLines =>
    .inr (c.freshWrapped ⟨text, fontSize, runs, wrapWidth, none⟩ maxLines)

/-- What the calls so far asked for: for each key the `max_lines` of the last that found no wrapped
line kept, and the fonts and sizes of numbers since fonts were last added. -/
structure Calls (K : Type*) where
  laidOut : CacheKey K → Option ℕ
  numbers : List (FontId × K)

namespace Calls

def none : Calls K := ⟨fun _ => Option.none, []⟩

def after (calls : Calls K) (c : LineLayoutCache K) : Event K → Calls K
  | .call (.layoutLine text fontSize runs _) =>
    { calls with numbers := calls.numbers ++ numbersIn text fontSize runs }
  | .call (.layoutWrappedLine text fontSize runs wrapWidth maxLines) =>
    { laidOut := c.laidOutAfter calls.laidOut ⟨text, fontSize, runs, wrapWidth, Option.none⟩ maxLines
      numbers := calls.numbers ++ numbersIn text fontSize runs }
  | .addFonts _ => { calls with numbers := [] }
  | .reuseLayouts _ _ | .truncateLayouts _ | .finishFrame _ _ => calls

end Calls

/-- Whether a call reaches neither of two defects. A wrapped line kept for it is not wrapped, or was
laid out for the same `max_lines`; and a line it has shaped afresh is no number, or the first in its
font and size, or in a font where only neighbours affect the result. -/
def CallSafe (c : LineLayoutCache K) (calls : Calls K) : Call K → Prop
  | .layoutLine text fontSize runs forceWidth =>
    c.ShapesAfresh text fontSize runs forceWidth → c.NumbersSafe calls.numbers text fontSize runs
  | .layoutWrappedLine text fontSize runs wrapWidth maxLines =>
    (c.keepsWrapped ⟨text, fontSize, runs, wrapWidth, none⟩ = true →
      wrapWidth = none ∨ calls.laidOut ⟨text, fontSize, runs, wrapWidth, none⟩ = maxLines) ∧
    (c.keepsWrapped ⟨text, fontSize, runs, wrapWidth, none⟩ = false →
      c.ShapesAfresh text fontSize runs none → c.NumbersSafe calls.numbers text fontSize runs)

lemma emptied_call (c : LineLayoutCache K) (call : Call K) :
    (c.emptied.call call).2 = c.freshAnswer call := by
  have hfresh : c.emptied.Fresh (fun _ => none) := fresh_new ..
  cases call with
  | layoutLine text fontSize runs forceWidth =>
    obtain ⟨-, -, -, hvalue⟩ := layoutLine_spec hfresh text fontSize runs forceWidth (fun _ => rfl)
    exact congrArg Sum.inl hvalue
  | layoutWrappedLine text fontSize runs wrapWidth maxLines =>
    have hkeeps : c.emptied.keepsWrapped ⟨text, fontSize, runs, wrapWidth, none⟩ = false := by
      have hclear : c.emptied.clearIfFontGenerationChanged = c.emptied := if_pos rfl
      rw [keepsWrapped, hclear]
      rfl
    exact congrArg Sum.inr (layoutWrappedLine_spec hfresh (fun hk => by simp [hkeeps] at hk)
      (fun _ _ => rfl)).2

section

variable [IsStrictOrderedRing K] {calls : Calls K}

lemma call_spec (h : c.Fresh calls.laidOut) (hknown : c.NumbersKnown calls.numbers) {call : Call K}
    (hsafe : c.CallSafe calls call) :
    (c.call call).1.Fresh (calls.after c (.call call)).laidOut ∧
      (c.call call).1.NumbersKnown (calls.after c (.call call)).numbers ∧
      (c.call call).2 = c.freshAnswer call := by
  cases call with
  | layoutLine text fontSize runs forceWidth =>
    obtain ⟨hfresh, -, -, hvalue⟩ := layoutLine_spec h text fontSize runs forceWidth
      (fun hafresh => (hsafe hafresh).alike hknown)
    refine ⟨hfresh, ?_, congrArg Sum.inl hvalue⟩
    obtain ⟨hsame, hnumbers | hnumbers⟩ := c.layoutLine_numbers text fontSize runs forceWidth
    · exact (hknown.congr hsame hnumbers).mono _
    · exact hknown.shape hsame hnumbers
  | layoutWrappedLine text fontSize runs wrapWidth maxLines =>
    obtain ⟨hfresh, hvalue⟩ := layoutWrappedLine_spec h hsafe.1
      (fun hk hafresh => (hsafe.2 hk hafresh).alike hknown)
    refine ⟨hfresh, ?_, congrArg Sum.inr hvalue⟩
    obtain ⟨hsame, hnumbers | hnumbers⟩ :=
      c.layoutWrappedLine_numbers text fontSize runs wrapWidth maxLines
    · exact (hknown.congr hsame hnumbers).mono _
    · exact hknown.shape hsame hnumbers

end

lemma Fresh.reuseLayouts (h : c.Fresh laidOut) (start stop : LineLayoutIndex) :
    (c.reuseLayouts start stop).Fresh laidOut := by
  obtain ⟨hfresh, -, -⟩ := clear_spec h
  rw [LineLayoutCache.reuseLayouts]
  dsimp only
  split
  · exact hfresh
  · exact ⟨hfresh.cached_le, hfresh.recent_le, hfresh.recent,
      fun hc key layout hl => hfresh.lines hc key layout (moveKeys_get? hl),
      fun hc key layout hl => hfresh.wrapped hc key layout (moveKeys_get? hl)⟩

lemma Fresh.truncateLayouts (h : c.Fresh laidOut) (index : LineLayoutIndex) :
    (c.truncateLayouts index).Fresh laidOut := by
  obtain ⟨hfresh, -, -⟩ := clear_spec h
  rw [LineLayoutCache.truncateLayouts]
  dsimp only
  split
  · exact hfresh
  · exact ⟨hfresh.cached_le, hfresh.recent_le, hfresh.recent, hfresh.lines, hfresh.wrapped⟩

lemma Fresh.finishFrame (h : c.Fresh laidOut) (heldLines heldWrappedLines : CacheKey K → Bool) :
    (c.finishFrame heldLines heldWrappedLines).Fresh laidOut := by
  obtain ⟨hfresh, -, -⟩ := clear_spec h
  refine ⟨hfresh.cached_le, hfresh.recent_le, hfresh.recent, fun hc key layout hl => ?_,
    fun hc key layout hl => ?_⟩
  · rcases hl with hl | hl
    · exact hfresh.lines hc key layout (carryOver_get? hl)
    · cases hl
  · rcases hl with hl | hl
    · exact hfresh.wrapped hc key layout (carryOver_get? hl)
    · cases hl

lemma Fresh.addFonts (h : c.Fresh laidOut) (added : Option (LayoutLine K)) :
    (c.addFonts added).Fresh laidOut := by
  have hrecent : c.recent.fontsGeneration < c.fontsGeneration + 1 := Nat.lt_succ_of_le h.recent_le
  cases added with
  | none =>
    exact ⟨h.cached_le, hrecent.le, fun heq => absurd heq (Nat.ne_of_lt hrecent), h.lines, h.wrapped⟩
  | some platform =>
    have hcached : c.cachedFontGeneration < c.fontGeneration + 1 := Nat.lt_succ_of_le h.cached_le
    exact ⟨hcached.le, hrecent.le, fun heq => absurd heq (Nat.ne_of_lt hrecent),
      fun heq => absurd heq (Nat.ne_of_lt hcached), fun heq => absurd heq (Nat.ne_of_lt hcached)⟩

omit [LinearOrder K] in
lemma NumbersKnown.addFonts (h : c.NumbersKnown asked) (added : Option (LayoutLine K)) :
    (c.addFonts added).NumbersKnown [] := by
  have hfields : (c.addFonts added).numbers = c.numbers ∧
      (c.addFonts added).fontsGeneration = c.fontsGeneration + 1 := by
    cases added <;> exact ⟨rfl, rfl⟩
  have hnew : ((c.addFonts added).numbers.current (c.addFonts added).fontsGeneration).fonts =
      fun _ => .new := by
    rw [hfields.1, hfields.2, NumberShaping.current,
      if_neg (Nat.ne_of_gt (Nat.lt_succ_of_le h.le))]
  refine ⟨?_, fun fontId fontSize metrics _ => ?_, fun font _ => by rw [hnew]⟩
  · rw [hfields.1, hfields.2]
    exact Nat.le_succ_of_le h.le
  · rw [hnew]
    exact NumberShaping.measured_new metrics

/-- Whether every call made from `c` on, after `calls`, is safe. -/
def Safe : LineLayoutCache K → Calls K → List (Event K) → Prop
  | _, _, [] => True
  | c, calls, event :: events =>
    (∀ call, event = .call call → c.CallSafe calls call) ∧
      Safe (c.step event) (calls.after c event) events

variable [IsStrictOrderedRing K] {calls : Calls K}

lemma step_spec (h : c.Fresh calls.laidOut) (hknown : c.NumbersKnown calls.numbers) {event : Event K}
    (hsafe : ∀ call, event = .call call → c.CallSafe calls call) :
    (c.step event).Fresh (calls.after c event).laidOut ∧
      (c.step event).NumbersKnown (calls.after c event).numbers := by
  have hsame : SameSystem c c.clearIfFontGenerationChanged := (clear_spec h).2.1
  have hnumbers := (c.clear_fields).2
  cases event with
  | call call =>
    obtain ⟨hfresh, hknown', -⟩ := call_spec h hknown (hsafe call rfl)
    exact ⟨hfresh, hknown'⟩
  | reuseLayouts start stop =>
    refine ⟨h.reuseLayouts start stop, ?_⟩
    have hclear : c.clearIfFontGenerationChanged.NumbersKnown calls.numbers :=
      hknown.congr hsame hnumbers
    rw [step, LineLayoutCache.reuseLayouts]
    dsimp only
    split
    · exact hclear
    · exact ⟨hclear.le, hclear.measured, hclear.unmeasured⟩
  | truncateLayouts index =>
    refine ⟨h.truncateLayouts index, ?_⟩
    have hclear : c.clearIfFontGenerationChanged.NumbersKnown calls.numbers :=
      hknown.congr hsame hnumbers
    rw [step, LineLayoutCache.truncateLayouts]
    dsimp only
    split
    · exact hclear
    · exact ⟨hclear.le, hclear.measured, hclear.unmeasured⟩
  | finishFrame heldLines heldWrappedLines =>
    refine ⟨h.finishFrame heldLines heldWrappedLines, hknown.congr ⟨hsame.platform, hsame.hash,
      hsame.breakIndices, hsame.fontGeneration, hsame.fontsGeneration⟩ hnumbers⟩
  | addFonts added => exact ⟨h.addFonts added, hknown.addFonts added⟩

lemma run_spec (h : c.Fresh calls.laidOut) (hknown : c.NumbersKnown calls.numbers)
    {events : List (Event K)} {call : Call K} (hsafe : Safe c calls (events ++ [.call call])) :
    ((events.foldl LineLayoutCache.step c).call call).2 =
      (events.foldl LineLayoutCache.step c).freshAnswer call := by
  induction events generalizing c calls with
  | nil => exact (call_spec h hknown (hsafe.1 call rfl)).2.2
  | cons event events ih =>
    obtain ⟨hfresh, hknown'⟩ := step_spec h hknown hsafe.1
    exact ih hfresh hknown' hsafe.2

/-- In a run of safe calls, every call returns what an empty cache lays out. -/
theorem run_call_eq_emptied (platform : LayoutLine K) (hash : Text → K → List FontRun → UInt64)
    (breakIndices : Text → List ℕ) (fontGeneration fontsGeneration : ℕ) (events : List (Event K))
    (call : Call K)
    (hsafe : Safe (new platform hash breakIndices fontGeneration fontsGeneration) .none
      (events ++ [.call call])) :
    ((events.foldl step (new platform hash breakIndices fontGeneration fontsGeneration)).call call).2 =
      ((events.foldl step
        (new platform hash breakIndices fontGeneration fontsGeneration)).emptied.call call).2 := by
  rw [emptied_call]
  refine run_spec (fresh_new ..) ⟨Nat.zero_le _, fun fontId fontSize metrics _ => ?_,
    fun font _ => ?_⟩ hsafe
  · show NumberShaping.Measured metrics
      ((NumberShaping.new.current fontsGeneration).fonts (fontId, fontSize))
    rw [new_current_fonts]
    exact NumberShaping.measured_new metrics
  · exact new_current_fonts fontsGeneration font

def oneWide : LayoutLine ℚ := fun text fontSize _ =>
  { fontSize := fontSize
    width := text.length
    ascent := 1
    descent := 0
    runs := [⟨0, text.zipIdx.map (fun b => ⟨b.1.toUInt32, ⟨b.2, 0⟩, b.2, false⟩)⟩]
    len := text.length }

/-- `"a b"` two wide, which wraps before its `b`. -/
def wrapTwoWide (maxLines : Option ℕ) : Call ℚ :=
  .layoutWrappedLine [97, 32, 98] 1 [⟨3, 0⟩] (some 2) maxLines

/-- Kept from the last frame, the line is asked for with the same `max_lines`. -/
theorem run_call_eq_emptied_sameMaxLines :
    (([.call (wrapTwoWide (some 1)), .finishFrame (fun _ => false) (fun _ => false)].foldl step
        (new oneWide (fun _ _ _ => 0) (fun _ => [2]) 0 0)).call (wrapTwoWide (some 1))).2 =
      (([.call (wrapTwoWide (some 1)), .finishFrame (fun _ => false) (fun _ => false)].foldl step
        (new oneWide (fun _ _ _ => 0) (fun _ => [2]) 0 0)).emptied.call (wrapTwoWide (some 1))).2 := by
  refine run_call_eq_emptied oneWide (fun _ _ _ => 0) (fun _ => [2]) 0 0 _ (wrapTwoWide (some 1)) ?_
  have hnumbers : ∀ (c : LineLayoutCache ℚ) asked, c.NumbersSafe asked [97, 32, 98] 1 [⟨3, 0⟩] :=
    fun c asked font hfont => by
      have hnone : numbersIn [97, 32, 98] (1 : ℚ) [⟨3, 0⟩] = [] := by decide
      rw [hnone] at hfont
      cases hfont
  refine ⟨?_, ?_, ?_, trivial⟩
  · rintro call ⟨rfl⟩
    exact ⟨fun hkept => absurd hkept (by decide), fun _ _ => hnumbers _ _⟩
  · rintro call ⟨⟩
  · rintro call ⟨rfl⟩
    exact ⟨fun _ => .inr (by decide), fun _ _ => hnumbers _ _⟩

/-- The line kept is wrapped, and one line is asked for. -/
theorem not_run_call_eq_emptied_otherMaxLines :
    ¬ ∀ (platform : LayoutLine ℚ) (hash : Text → ℚ → List FontRun → UInt64)
      (breakIndices : Text → List ℕ) (fontGeneration fontsGeneration : ℕ) (events : List (Event ℚ))
      (call : Call ℚ),
      ((events.foldl step
          (new platform hash breakIndices fontGeneration fontsGeneration)).call call).2 =
        ((events.foldl step
          (new platform hash breakIndices fontGeneration fontsGeneration)).emptied.call call).2 := by
  intro h
  have hcall := h oneWide (fun _ _ _ => 0) (fun _ => [2]) 0 0 [.call (wrapTwoWide none)]
    (wrapTwoWide (some 1))
  revert hcall
  with_unfolding_all decide

end LineLayoutCache

end GpuiFast
