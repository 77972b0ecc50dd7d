import GpuiFast.LineLayout

/-! A text is split at its newlines and each line is shaped with the fonts of the runs that cover it.
What the platform shapes a line into and where a text may break are given; a line is wrapped as it
is when it is not in the cache. -/

namespace GpuiFast

open List

variable {K φ δ : Type*}

/-- A stretch of text in a font, with what it is painted with: its color, background, underline and
strikethrough. -/
structure TextRun (φ δ : Type*) where
  len : ℕ
  font : φ
  decoration : δ
  deriving DecidableEq

inductive TruncateFrom where
  | start
  | finish
  | middle
  deriving DecidableEq

/-- The fonts of a line: how the platform shapes it, where it may break, and which font a run's is. -/
structure LineShaper (K φ : Type*) where
  layoutLine : Text → K → List FontRun → LineLayout K
  breakIndices : Text → List ℕ
  resolveFont : φ → FontId

section Runs

variable [DecidableEq δ]

structure LineRuns (δ : Type*) where
  fontRuns : List FontRun
  decoration : Option δ

def LineRuns.add (line : LineRuns δ) (len : ℕ) (fontId : FontId) (decoration : δ) : LineRuns δ :=
  match line.fontRuns.getLast? with
  | some last =>
    if fontId = last.fontId ∧ line.decoration = some decoration then
      ⟨line.fontRuns.dropLast ++ [⟨last.len + len, last.fontId⟩], some decoration⟩
    else ⟨line.fontRuns ++ [⟨len, fontId⟩], some decoration⟩
  | none => ⟨line.fontRuns ++ [⟨len, fontId⟩], some decoration⟩

/-- The font runs of a line of `len` bytes, and the runs left for the next line. -/
def takeRuns (resolveFont : φ → FontId) :
    ℕ → LineRuns δ → List (TextRun φ δ) → List FontRun × List (TextRun φ δ)
  | _, line, [] => (line.fontRuns, [])
  | len, line, run :: runs =>
    if len = 0 then (line.fontRuns, run :: runs)
    else
      let within := min len run.len
      let line := line.add within (resolveFont run.font) run.decoration
      if run.len - within = 0 then takeRuns resolveFont (len - within) line runs
      else (line.fontRuns, { run with len := run.len - within } :: runs)

def skipNewline : List (TextRun φ δ) → List (TextRun φ δ)
  | [] => []
  | run :: runs => if run.len - 1 = 0 then runs else { run with len := run.len - 1 } :: runs

end Runs

variable {glyphs : List (WrapGlyph K)}

lemma mem_of_mem_dedupByIndex {previous : Option ℕ} {g : WrapGlyph K}
    (h : g ∈ dedupByIndex previous glyphs) : g ∈ glyphs := by
  induction glyphs generalizing previous with
  | nil => exact h
  | cons glyph glyphs ih =>
    rw [dedupByIndex] at h
    split at h
    · exact mem_cons_of_mem _ (ih h)
    · rcases mem_cons.mp h with rfl | h
      · exact mem_cons_self ..
      · exact mem_cons_of_mem _ (ih h)

variable [Field K] [LinearOrder K]

namespace LineShaper

def layoutWrappedLine (shaper : LineShaper K φ) (text : Text) (fontSize : K) (runs : List FontRun)
    (wrapWidth : Option K) (maxLines : Option ℕ) : WrappedLineLayout K where
  unwrappedLayout := shaper.layoutLine text fontSize runs
  wrapBoundaries := match wrapWidth with
    | some wrapWidth => (shaper.layoutLine text fontSize runs).computeWrapBoundaries text
        (shaper.breakIndices text) wrapWidth maxLines
    | none => []
  wrapWidth := wrapWidth

variable [DecidableEq δ]

/-- Shapes lines, of which `wrappedLines` boundaries came before. -/
def shapeLines (shaper : LineShaper K φ) (fontSize : K) (wrapWidth : Option K)
    (lineClamp : Option ℕ) : List Text → List (TextRun φ δ) → ℕ → List (WrappedLineLayout K)
  | [], _, _ => []
  | text :: texts, runs, wrappedLines =>
    let r := takeRuns shaper.resolveFont text.length ⟨[], none⟩ runs
    let layout := shaper.layoutWrappedLine text fontSize r.1 wrapWidth
      (lineClamp.map (fun max => max - wrappedLines))
    layout :: shapeLines shaper fontSize wrapWidth lineClamp texts (skipNewline r.2)
      (wrappedLines + layout.wrapBoundaries.length)

def shapeText (shaper : LineShaper K φ) (text : Text) (fontSize : K) (runs : List (TextRun φ δ))
    (wrapWidth : Option K) (lineClamp : Option ℕ) : List (WrappedLineLayout K) :=
  shaper.shapeLines fontSize wrapWidth lineClamp (text.splitOn 10)
    (runs.filter (fun run => 0 < run.len)) 0

variable {shaper : LineShaper K φ} {fontSize : K} {lineClamp : Option ℕ} {texts : List Text}
  {runs : List (TextRun φ δ)} {n : ℕ}

lemma wrapWidth_of_mem_shapeLines {wrapWidth : Option K} {line : WrappedLineLayout K}
    (h : line ∈ shaper.shapeLines fontSize wrapWidth lineClamp texts runs n) :
    line.wrapWidth = wrapWidth := by
  induction texts generalizing runs n with
  | nil => cases h
  | cons text texts ih =>
    rw [shapeLines] at h
    rcases mem_cons.mp h with rfl | h
    · rfl
    · exact ih h

lemma shapeLines_eq_of_noWrap {wrapWidth : K}
    (h : ∀ line ∈ shaper.shapeLines fontSize (some wrapWidth) lineClamp texts runs n,
      line.wrapBoundaries = []) (m : ℕ) :
    shaper.shapeLines fontSize (some wrapWidth) lineClamp texts runs n =
      (shaper.shapeLines fontSize none lineClamp texts runs m).map
        (fun line => { line with wrapWidth := some wrapWidth }) := by
  induction texts generalizing runs n m with
  | nil => rfl
  | cons text texts ih =>
    rw [shapeLines, shapeLines, map_cons]
    rw [shapeLines] at h
    have hhead := h _ (mem_cons_self ..)
    congr 1
    · rw [layoutWrappedLine, layoutWrappedLine]
      exact congrArg (fun b => ({
        unwrappedLayout := shaper.layoutLine text fontSize _
        wrapBoundaries := b
        wrapWidth := some wrapWidth } : WrappedLineLayout K)) hhead
    · exact ih (fun line hline => h line (mem_cons_of_mem _ hline)) _

end LineShaper

variable {wrapWidth : K}

lemma WrapState.search_boundaries_of_le [IsStrictOrderedRing K] {text : Text}
    {breakIndices : List ℕ} {width : K} {maxLines : Option ℕ} (hwidth : width ≤ wrapWidth)
    (hglyphs : ∀ g ∈ glyphs, g.x ≤ width) {s : WrapState K} (hs : s.lastBoundaryX = 0) :
    (search text breakIndices width wrapWidth maxLines s glyphs).boundaries = s.boundaries := by
  induction glyphs generalizing s with
  | nil => rfl
  | cons glyph glyphs ih =>
    have hrest := fun g hg => hglyphs g (mem_cons_of_mem glyph hg)
    have henter : (s.enter text breakIndices glyph).lastBoundaryX = s.lastBoundaryX ∧
        (s.enter text breakIndices glyph).boundaries = s.boundaries := by
      rw [enter]
      dsimp only
      split
      · split <;> exact ⟨rfl, rfl⟩
      · exact ⟨rfl, rfl⟩
    have hnext : (glyphs.head?.map (·.x)).getD width ≤ width := by
      cases glyphs with
      | nil => exact le_refl _
      | cons g glyphs => exact hrest g (mem_cons_self ..)
    rw [search]
    split
    · exact ih hrest hs
    · dsimp only
      rw [if_neg (by
        rw [henter.1, hs, sub_zero]
        exact fun hlt => absurd hlt.1 (not_lt.mpr (hnext.trans hwidth)))]
      rw [ih hrest (henter.1.trans hs), henter.2]

def LineLayout.GlyphsWithin (layout : LineLayout K) : Prop :=
  ∀ run ∈ layout.runs, ∀ glyph ∈ run.glyphs, glyph.position.x ≤ layout.width

lemma LineLayout.computeWrapBoundaries_of_le [IsStrictOrderedRing K] {layout : LineLayout K}
    (h : layout.GlyphsWithin) (hwidth : layout.width ≤ wrapWidth) (text : Text) (breaks : List ℕ)
    (maxLines : Option ℕ) : layout.computeWrapBoundaries text breaks wrapWidth maxLines = [] := by
  refine WrapState.search_boundaries_of_le hwidth (fun g hg => ?_) rfl
  obtain ⟨run, hrun, hg⟩ := mem_flatMap.mp (mem_of_mem_dedupByIndex hg)
  obtain ⟨glyph, hglyph, rfl⟩ := List.mem_map.mp hg
  exact h run.1 (fst_mem_of_mem_zipIdx hrun) glyph.1 (fst_mem_of_mem_zipIdx hglyph)

lemma LineShaper.noWrap_of_le [IsStrictOrderedRing K] [DecidableEq δ] {shaper : LineShaper K φ}
    (h : ∀ text fontSize runs, (shaper.layoutLine text fontSize runs).GlyphsWithin) {fontSize : K}
    {lineClamp : Option ℕ} {texts : List Text} {runs : List (TextRun φ δ)} {m : ℕ}
    (hwidth : ∀ line ∈ shaper.shapeLines fontSize none lineClamp texts runs m,
      line.unwrappedLayout.width ≤ wrapWidth) (n : ℕ) :
    ∀ line ∈ shaper.shapeLines fontSize (some wrapWidth) lineClamp texts runs n,
      line.wrapBoundaries = [] := by
  induction texts generalizing runs n m with
  | nil => exact fun line hline => absurd hline not_mem_nil
  | cons text texts ih =>
    rw [shapeLines] at hwidth ⊢
    intro line hline
    rcases mem_cons.mp hline with rfl | hline
    · exact LineLayout.computeWrapBoundaries_of_le (h _ _ _) (hwidth _ (mem_cons_self ..)) ..
    · exact ih (fun line hline => hwidth line (mem_cons_of_mem _ hline)) _ line hline

end GpuiFast
