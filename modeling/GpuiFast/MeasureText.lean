import GpuiFast.ShapeText

/-! Text is measured under the constraints the layout engine offers, and its last measurement is kept.
A measurement taken at a wrap width at which nothing wrapped answers for no wrap width, but its
lines are only as wide as that wrap width: it answers right if and only if they were no wider. -/

namespace GpuiFast

open List

variable {K φ δ : Type*}

inductive WhiteSpace where
  | normal
  | nowrap
  deriving DecidableEq

inductive TextOverflow where
  | truncate (affix : Text)
  | truncateStart (affix : Text)
  | truncateMiddle (affix : Text)

inductive AvailableSpace (K : Type*) where
  | definite (x : K)
  | minContent
  | maxContent

structure TextStyle (φ δ : Type*) where
  font : φ
  decoration : δ
  whiteSpace : WhiteSpace
  textOverflow : Option TextOverflow
  lineClamp : Option ℕ

structure TextMeasureInputs (K φ δ : Type*) where
  text : Text
  runs : List (TextRun φ δ)
  textStyle : TextStyle φ δ
  fontSize : K
  lineHeight : K

structure Constraints (K : Type*) where
  knownDimensions : Size (Option K)
  availableSpace : Size (AvailableSpace K)

structure TextSystem (K φ δ : Type*) extends LineShaper K φ where
  truncateLine : φ → K → Text → K → Text → List (TextRun φ δ) → TruncateFrom →
    Text × List (TextRun φ δ)
  truncateWrappedLine : φ → K → Text → K → ℕ → Text → List (TextRun φ δ) → TruncateFrom →
    Text × List (TextRun φ δ)

structure TextLayoutInner (K : Type*) where
  lines : List (WrappedLineLayout K)
  len : ℕ
  lineHeight : K
  wrapWidth : Option K
  truncateWidth : Option K
  size : Size K

namespace TextMeasureInputs

def shapedRuns (inputs : TextMeasureInputs K φ δ) : List (TextRun φ δ) :=
  if inputs.runs.isEmpty then
    [⟨inputs.text.length, inputs.textStyle.font, inputs.textStyle.decoration⟩]
  else inputs.runs

end TextMeasureInputs

def Constraints.width (c : Constraints K) : Option K :=
  c.knownDimensions.width.or (match c.availableSpace.width with
    | .definite x => some x
    | _ => none)

def TextMeasureInputs.wrapWidth (inputs : TextMeasureInputs K φ δ) (c : Constraints K) : Option K :=
  if inputs.textStyle.whiteSpace = .normal then c.width else none

section Answers

variable [LinearOrder K]

def TextLayoutInner.answers (kept : TextLayoutInner K) (wrapWidth truncateWidth : Option K) : Bool :=
  (decide (wrapWidth = kept.wrapWidth) ||
    (wrapWidth.isNone && kept.lines.all (·.wrapBoundaries.isEmpty)) ||
    (kept.wrapWidth.isNone && wrapWidth.any (fun wrapWidth => kept.size.width ≤ wrapWidth))) &&
  truncateWidth.isNone && kept.truncateWidth.isNone

lemma TextLayoutInner.answers_iff {layout : TextLayoutInner K} {wrapWidth truncateWidth : Option K} :
    layout.answers wrapWidth truncateWidth = true ↔
      (wrapWidth = layout.wrapWidth ∨
        (wrapWidth = none ∧ ∀ line ∈ layout.lines, line.wrapBoundaries = []) ∨
        (layout.wrapWidth = none ∧ ∃ width, wrapWidth = some width ∧ layout.size.width ≤ width)) ∧
      truncateWidth = none ∧ layout.truncateWidth = none := by
  simp only [TextLayoutInner.answers, Bool.and_eq_true, Bool.or_eq_true, decide_eq_true_eq,
    Option.isNone_iff_eq_none, List.all_eq_true, List.isEmpty_iff, Option.any_eq_true, or_assoc,
    and_assoc]

end Answers

variable [Field K]

def TextMeasureInputs.truncateWidth (inputs : TextMeasureInputs K φ δ) (c : Constraints K) : Option K :=
  inputs.textStyle.textOverflow.bind (fun _ =>
    c.knownDimensions.width.or (match c.availableSpace.width with
      | .definite x => match inputs.textStyle.lineClamp with
        | some maxLines => some (x * maxLines)
        | none => some x
      | _ => none))

variable [LinearOrder K]

section Text

variable [DecidableEq δ]

def TextMeasureInputs.truncatedText (inputs : TextMeasureInputs K φ δ) (system : TextSystem K φ δ)
    (wrapWidth truncateWidth : Option K) : Text × List (TextRun φ δ) :=
  let runs := inputs.shapedRuns
  match truncateWidth with
  | none => (inputs.text, runs)
  | some truncateWidth =>
    let (affix, truncateFrom) := match inputs.textStyle.textOverflow with
      | some (.truncate affix) => (affix, TruncateFrom.finish)
      | some (.truncateStart affix) => (affix, .start)
      | some (.truncateMiddle affix) => (affix, .middle)
      | none => ([], .finish)
    match inputs.textStyle.lineClamp, wrapWidth with
    | some maxLines, some wrapWidth =>
      system.truncateWrappedLine inputs.textStyle.font inputs.fontSize inputs.text wrapWidth maxLines
        affix runs truncateFrom
    | _, _ =>
      -- text that fits once shaped is not truncated
      if (system.shapeText inputs.text inputs.fontSize runs none none).all
          (fun line => (line.size inputs.lineHeight).width ≤ truncateWidth) then (inputs.text, runs)
      else
        system.truncateLine inputs.textStyle.font inputs.fontSize inputs.text truncateWidth affix runs
          truncateFrom

end Text

variable [FloorRing K]

def linesSize (lineHeight : K) (lines : List (WrappedLineLayout K)) : Size K :=
  lines.foldl (fun size line =>
    let lineSize := line.size lineHeight
    ⟨(⌈max size.width lineSize.width⌉ : ℤ), size.height + lineSize.height⟩) ⟨0, 0⟩

def TextMeasureInputs.measureAfresh [DecidableEq δ] (inputs : TextMeasureInputs K φ δ)
    (system : TextSystem K φ δ) (wrapWidth truncateWidth : Option K) : TextLayoutInner K :=
  let shaped := inputs.truncatedText system wrapWidth truncateWidth
  let lines := system.shapeText shaped.1 inputs.fontSize shaped.2 wrapWidth
    inputs.textStyle.lineClamp
  { lines := lines
    len := shaped.1.length
    lineHeight := inputs.lineHeight
    wrapWidth := wrapWidth
    truncateWidth := truncateWidth
    size := linesSize inputs.lineHeight lines }

namespace TextMeasureInputs

variable [DecidableEq δ]

def measureText (inputs : TextMeasureInputs K φ δ) (system : TextSystem K φ δ)
    (kept : Option (TextLayoutInner K)) (c : Constraints K) : Option (TextLayoutInner K) × Size K :=
  let fresh := inputs.measureAfresh system (inputs.wrapWidth c) (inputs.truncateWidth c)
  match kept with
  | some layout =>
    if layout.answers (inputs.wrapWidth c) (inputs.truncateWidth c) then (kept, layout.size)
    else (some fresh, fresh.size)
  | none => (some fresh, fresh.size)

def measureAll (inputs : TextMeasureInputs K φ δ) (system : TextSystem K φ δ)
    (cs : List (Constraints K)) : Option (TextLayoutInner K) :=
  cs.foldl (fun kept c => (inputs.measureText system kept c).1) none

end TextMeasureInputs

section Ceil

variable [IsStrictOrderedRing K]

lemma foldl_max_le_iff {z b : ℤ} {l : List ℤ} : l.foldl max z ≤ b ↔ z ≤ b ∧ ∀ x ∈ l, x ≤ b := by
  induction l generalizing z with
  | nil => simp
  | cons x l ih =>
    rw [foldl_cons, ih, max_le_iff, forall_mem_cons, and_assoc]

variable (lineHeight : K) (lines : List (WrappedLineLayout K))

lemma linesSize_foldl (z : ℤ) (h : K) :
    lines.foldl (fun size line =>
      let lineSize := line.size lineHeight
      (⟨(⌈max size.width lineSize.width⌉ : ℤ), size.height + lineSize.height⟩ : Size K)) ⟨(z : K), h⟩ =
    ⟨((lines.map (fun line => ⌈line.width⌉)).foldl max z : ℤ),
      h + (lines.map (fun line => lineHeight * (line.wrapBoundaries.length + 1 : ℕ))).sum⟩ := by
  induction lines generalizing z h with
  | nil => simp
  | cons line lines ih =>
    have hceil : ⌈max (z : K) line.width⌉ = max z ⌈line.width⌉ := by
      rw [Int.ceil_mono.map_max, Int.ceil_intCast]
    rw [foldl_cons, map_cons, map_cons, foldl_cons, sum_cons, ← add_assoc, ← hceil, ← ih]
    rfl

lemma linesSize_eq :
    linesSize lineHeight lines = ⟨((lines.map (fun line => ⌈line.width⌉)).foldl max 0 : ℤ),
      (lines.map (fun line => lineHeight * (line.wrapBoundaries.length + 1 : ℕ))).sum⟩ := by
  have h := linesSize_foldl lineHeight lines 0 0
  rw [zero_add, Int.cast_zero] at h
  exact h

lemma linesSize_clipped_iff {lineHeight wrapWidth : K} {lines : List (WrappedLineLayout K)}
    (hlines : ∀ line ∈ lines, line.wrapWidth = none) :
    linesSize lineHeight (lines.map (fun line => { line with wrapWidth := some wrapWidth })) =
        linesSize lineHeight lines ↔
      ∀ line ∈ lines, line.unwrappedLayout.width ≤ (max 0 ⌈wrapWidth⌉ : ℤ) := by
  have hwidth : ∀ line ∈ lines, ⌈line.width⌉ = ⌈line.unwrappedLayout.width⌉ := by
    intro line hline
    rw [WrappedLineLayout.width, hlines line hline]
  have hclipped : ∀ line : WrappedLineLayout K,
      ⌈WrappedLineLayout.width { line with wrapWidth := some wrapWidth }⌉ =
        min ⌈wrapWidth⌉ ⌈line.unwrappedLayout.width⌉ := by
    intro line
    rw [WrappedLineLayout.width]
    exact Int.ceil_mono.map_min
  rw [linesSize_eq, linesSize_eq, map_map, map_map]
  have hsame : ∀ a b : ℤ, ∀ h : K, ((⟨(a : K), h⟩ : Size K) = ⟨(b : K), h⟩ ↔ a = b) := by
    intro a b h
    simp
  refine (hsame _ _ _).trans ?_
  have hbound : ∀ line : WrappedLineLayout K, (line.unwrappedLayout.width ≤ (max 0 ⌈wrapWidth⌉ : ℤ) ↔
      ⌈line.unwrappedLayout.width⌉ ≤ max 0 ⌈wrapWidth⌉) :=
    fun line => Int.ceil_le.symm
  constructor
  · intro heq line hline
    rw [hbound]
    have hle := foldl_max_le_iff.mp (le_of_eq heq.symm)
    refine (hwidth line hline ▸ hle.2 _ (mem_map_of_mem hline)).trans ?_
    refine foldl_max_le_iff.mpr ⟨le_max_left .., fun x hx => ?_⟩
    obtain ⟨line', -, rfl⟩ := List.mem_map.mp hx
    exact (le_of_eq (hclipped line')).trans ((min_le_left ..).trans (le_max_right ..))
  · intro h
    refine le_antisymm (foldl_max_le_iff.mpr ⟨(foldl_max_le_iff.mp le_rfl).1, fun x hx => ?_⟩)
      (foldl_max_le_iff.mpr ⟨(foldl_max_le_iff.mp le_rfl).1, fun x hx => ?_⟩)
    · obtain ⟨line, hline, rfl⟩ := List.mem_map.mp hx
      refine ((le_of_eq (hclipped line)).trans (min_le_right ..)).trans ?_
      rw [← hwidth line hline]
      exact (foldl_max_le_iff.mp le_rfl).2 _ (mem_map_of_mem hline)
    · obtain ⟨line, hline, rfl⟩ := List.mem_map.mp hx
      rw [hwidth line hline]
      rcases le_max_iff.mp ((hbound line).mp (h line hline)) with hle | hle
      · exact hle.trans (foldl_max_le_iff.mp le_rfl).1
      · rw [← min_eq_right hle, ← hclipped line]
        exact (foldl_max_le_iff.mp le_rfl).2 _ (mem_map_of_mem hline)

end Ceil

namespace TextMeasureInputs

variable [DecidableEq δ]

def Taken (inputs : TextMeasureInputs K φ δ) (system : TextSystem K φ δ) (layout : TextLayoutInner K) :
    Prop :=
  layout = inputs.measureAfresh system layout.wrapWidth layout.truncateWidth

variable {inputs : TextMeasureInputs K φ δ} {system : TextSystem K φ δ} {width : K}

variable {kept : Option (TextLayoutInner K)}

lemma taken_measureText (h : ∀ layout, kept = some layout → inputs.Taken system layout)
    (c : Constraints K) (layout : TextLayoutInner K)
    (hlayout : (inputs.measureText system kept c).1 = some layout) :
    inputs.Taken system layout := by
  rw [measureText.eq_def] at hlayout
  dsimp only at hlayout
  split at hlayout
  · split at hlayout
    · exact h layout hlayout
    · rw [← Option.some.inj hlayout]
      rfl
  · rw [← Option.some.inj hlayout]
    rfl

lemma taken_measureAll (inputs : TextMeasureInputs K φ δ) (system : TextSystem K φ δ)
    (cs : List (Constraints K)) (layout : TextLayoutInner K)
    (hlayout : inputs.measureAll system cs = some layout) : inputs.Taken system layout := by
  -- from the end: the last constraint is measured over what the others left
  induction cs using reverseRecOn generalizing layout with
  | nil => cases hlayout
  | append_singleton cs c ih =>
    rw [measureAll, foldl_append] at hlayout
    exact taken_measureText ih c layout hlayout

def unwrappedLines (inputs : TextMeasureInputs K φ δ) (system : TextSystem K φ δ) :
    List (WrappedLineLayout K) :=
  system.shapeText inputs.text inputs.fontSize inputs.shapedRuns none inputs.textStyle.lineClamp

/-- Whether, where a probe without a wrap width finds a measurement that wrapped nowhere at one, no
line of the text is wider than that wrap width rounded up. -/
def ProbeFits (inputs : TextMeasureInputs K φ δ) (system : TextSystem K φ δ)
    (kept : Option (TextLayoutInner K)) (c : Constraints K) : Prop :=
  ∀ layout width, kept = some layout → layout.wrapWidth = some width → inputs.wrapWidth c = none →
    inputs.truncateWidth c = none → layout.truncateWidth = none →
    (∀ line ∈ layout.lines, line.wrapBoundaries = []) →
    ∀ line ∈ inputs.unwrappedLines system, line.unwrappedLayout.width ≤ (max 0 ⌈width⌉ : ℤ)

lemma measureAfresh_lines_of_noWrap
    (h : ∀ line ∈ (inputs.measureAfresh system (some width) none).lines, line.wrapBoundaries = []) :
    (inputs.measureAfresh system (some width) none).lines =
      (inputs.unwrappedLines system).map (fun line => { line with wrapWidth := some width }) :=
  LineShaper.shapeLines_eq_of_noWrap h 0

variable [IsStrictOrderedRing K]

lemma measureAfresh_size_eq_iff
    (h : ∀ line ∈ (inputs.measureAfresh system (some width) none).lines, line.wrapBoundaries = []) :
    (inputs.measureAfresh system (some width) none).size =
        (inputs.measureAfresh system none none).size ↔
      ∀ line ∈ inputs.unwrappedLines system, line.unwrappedLayout.width ≤ (max 0 ⌈width⌉ : ℤ) := by
  have hsize : (inputs.measureAfresh system (some width) none).size = linesSize inputs.lineHeight
      ((inputs.unwrappedLines system).map (fun line => { line with wrapWidth := some width })) := by
    rw [← measureAfresh_lines_of_noWrap h]
    rfl
  rw [hsize]
  exact linesSize_clipped_iff (fun line hline => LineShaper.wrapWidth_of_mem_shapeLines hline)

lemma measureAfresh_size_of_fits
    (hwithin : ∀ text fontSize runs, (system.layoutLine text fontSize runs).GlyphsWithin)
    (h : (inputs.measureAfresh system none none).size.width ≤ width) :
    (inputs.measureAfresh system (some width) none).size =
      (inputs.measureAfresh system none none).size := by
  have hle : ∀ line ∈ inputs.unwrappedLines system,
      line.unwrappedLayout.width ≤ (inputs.measureAfresh system none none).size.width := by
    intro line hline
    have hwidth : line.width = line.unwrappedLayout.width := by
      rw [WrappedLineLayout.width, LineShaper.wrapWidth_of_mem_shapeLines hline]
    change _ ≤ (linesSize inputs.lineHeight (inputs.unwrappedLines system)).width
    rw [linesSize_eq, ← hwidth, ← Int.ceil_le]
    exact (foldl_max_le_iff.mp le_rfl).2 _ (mem_map_of_mem hline)
  have hnoWrap : ∀ line ∈ (inputs.measureAfresh system (some width) none).lines,
      line.wrapBoundaries = [] :=
    LineShaper.noWrap_of_le hwithin (fun line hline => (hle line hline).trans h) 0
  refine (measureAfresh_size_eq_iff hnoWrap).mpr (fun line hline => ?_)
  exact ((hle line hline).trans h).trans ((Int.le_ceil width).trans (Int.cast_le.mpr (le_max_right ..)))

lemma measureText_eq_iff
    (hwithin : ∀ text fontSize runs, (system.layoutLine text fontSize runs).GlyphsWithin)
    (h : ∀ layout, kept = some layout → inputs.Taken system layout) (c : Constraints K) :
    (inputs.measureText system kept c).2 = (inputs.measureText system none c).2 ↔
      inputs.ProbeFits system kept c := by
  cases hkept : kept with
  | none => exact iff_of_true rfl (fun layout width hnone => nomatch hnone)
  | some layout =>
    have htaken := h layout hkept
    rw [measureText]
    split
    · next hanswers =>
      obtain ⟨hcases, htruncate, htruncate'⟩ := TextLayoutInner.answers_iff.mp hanswers
      have hfresh : (inputs.measureText system none c).2 =
          (inputs.measureAfresh system (inputs.wrapWidth c) none).size := by
        rw [← htruncate]
        rfl
      rw [Taken, htruncate'] at htaken
      cases hwrap : layout.wrapWidth with
      | none =>
        -- kept unwrapped: at no wrap width again, or at one the text fits in
        rw [hwrap] at hcases htaken
        refine iff_of_true ?_ (fun layout' width heq hwidth => ?_)
        · rw [hfresh]
          dsimp only
          rw [htaken]
          rcases hcases with hsame | ⟨hnone, -⟩ | ⟨-, width, hwidth, hle⟩
          · rw [hsame]
          · rw [hnone]
          · rw [hwidth, measureAfresh_size_of_fits hwithin (htaken ▸ hle)]
        · rw [← Option.some.inj heq, hwrap] at hwidth
          cases hwidth
      | some width =>
        rw [hwrap] at hcases htaken
        rcases hcases with hsame | ⟨hnone, hlines⟩ | ⟨hnone, -⟩
        · refine iff_of_true ?_ (fun layout' width' heq hwidth hnone => ?_)
          · rw [hfresh, hsame]
            dsimp only
            rw [htaken]
          · rw [hsame] at hnone
            cases hnone
        · have hiff := measureAfresh_size_eq_iff (htaken ▸ hlines)
          rw [hfresh, hnone]
          dsimp only
          rw [htaken, hiff]
          constructor
          · intro hfits layout' width' heq hwidth _ _ _ _
            rw [← Option.some.inj heq] at hwidth
            obtain rfl : width' = width := Option.some.inj hwidth.symm
            exact hfits
          · intro hfits
            exact hfits _ width rfl rfl hnone htruncate rfl (htaken ▸ hlines)
        · cases hnone
    · next hanswers =>
      refine iff_of_true rfl (fun layout' width heq hwidth hnone htruncate htruncate' hlines => ?_)
      obtain rfl := Option.some.inj heq
      exact absurd (TextLayoutInner.answers_iff.mpr ⟨.inr (.inl ⟨hnone, hlines⟩), htruncate, htruncate'⟩) hanswers

/-- After any sequence of constraints, text is measured as with nothing kept if and only if no probe
without a wrap width finds it clipped. -/
theorem measureAll_measureText_eq_iff (inputs : TextMeasureInputs K φ δ) (system : TextSystem K φ δ)
    (hwithin : ∀ text fontSize runs, (system.layoutLine text fontSize runs).GlyphsWithin)
    (cs : List (Constraints K)) (c : Constraints K) :
    (inputs.measureText system (inputs.measureAll system cs) c).2 =
        (inputs.measureText system none c).2 ↔
      inputs.ProbeFits system (inputs.measureAll system cs) c :=
  measureText_eq_iff hwithin (inputs.taken_measureAll system cs) c

def twoWide : TextSystem ℚ Unit Unit where
  layoutLine := fun text fontSize _ =>
    { fontSize := fontSize
      width := 2 * text.length
      ascent := 1
      descent := 0
      runs := [⟨0, text.zipIdx.map (fun b => ⟨b.1.toUInt32, ⟨2 * b.2, 0⟩, b.2, false⟩)⟩]
      len := text.length }
  breakIndices := fun _ => []
  resolveFont := fun _ => 0
  truncateLine := fun _ _ text _ _ runs _ => (text, runs)
  truncateWrappedLine := fun _ _ text _ _ _ runs _ => (text, runs)

lemma twoWide_glyphsWithin (text : Text) (fontSize : ℚ) (runs : List FontRun) :
    (twoWide.layoutLine text fontSize runs).GlyphsWithin := by
  intro run hrun glyph hglyph
  obtain rfl := mem_singleton.mp hrun
  obtain ⟨b, hb, rfl⟩ := List.mem_map.mp hglyph
  obtain ⟨hlt, -⟩ := List.getElem?_eq_some_iff.mp (mem_zipIdx_iff_getElem?.mp hb)
  have hle : (b.2 : ℚ) ≤ text.length := Nat.cast_le.mpr hlt.le
  change 2 * (b.2 : ℚ) ≤ 2 * text.length
  linarith

def oneGlyph : TextMeasureInputs ℚ Unit Unit := ⟨[97], [], ⟨(), (), .normal, none, none⟩, 1, 1⟩

def offer (width : AvailableSpace ℚ) : Constraints ℚ := ⟨⟨none, none⟩, ⟨width, .maxContent⟩⟩

/-- The glyph fits: kept at a width, it is asked for without one. -/
theorem measureAll_measureText_eq_fits :
    (oneGlyph.measureText twoWide (oneGlyph.measureAll twoWide [offer (.definite 5)])
      (offer .maxContent)).2 = (oneGlyph.measureText twoWide none (offer .maxContent)).2 := by
  refine (measureAll_measureText_eq_iff oneGlyph twoWide twoWide_glyphsWithin _ _).mpr ?_
  intro layout width hkept hwidth _ _ _ _ line hline
  have hlayout : layout = oneGlyph.measureAfresh twoWide (some 5) none := Option.some.inj hkept.symm
  obtain rfl : (5 : ℚ) = width := by
    rw [hlayout] at hwidth
    exact Option.some.inj hwidth
  revert line
  with_unfolding_all decide

/-- The glyph is wider than the width it was measured at, and asked for without one. -/
theorem not_measureAll_measureText_eq_wider :
    ¬ ∀ (inputs : TextMeasureInputs ℚ Unit Unit) (system : TextSystem ℚ Unit Unit),
      (∀ text fontSize runs, (system.layoutLine text fontSize runs).GlyphsWithin) →
      ∀ (cs : List (Constraints ℚ)) (c : Constraints ℚ),
        (inputs.measureText system (inputs.measureAll system cs) c).2 =
          (inputs.measureText system none c).2 := by
  intro h
  have hsize := h oneGlyph twoWide twoWide_glyphsWithin [offer (.definite 1)] (offer .maxContent)
  revert hsize
  with_unfolding_all decide

end TextMeasureInputs

end GpuiFast
