import GpuiFast.PaintLineHolds

namespace GpuiFast

open List Option LinePaint

variable {K C δ σ : Type} [Field K] [LinearOrder K] [DecidableEq C]

def LinePaint.asUnderline : LinePaint K C → Option (PaintedStroke K (UnderlineStyle K C × ℕ × ℕ))
  | underline stroke => some stroke
  | _ => none

def LinePaint.asStrikethrough : LinePaint K C → Option (PaintedStroke K (StrikethroughStyle K C))
  | strikethrough stroke => some stroke
  | _ => none

namespace PaintLineState

def underlineState (s : PaintLineState K C) :
    StrokeState K (Decoration K C) (UnderlineStyle K C × ℕ × ℕ) :=
  ⟨s.pen, s.currentUnderline, s.painted.filterMap asUnderline⟩

def strikethroughState (s : PaintLineState K C) :
    StrokeState K (Decoration K C) (StrikethroughStyle K C) :=
  ⟨s.pen, s.currentStrikethrough, s.painted.filterMap asStrikethrough⟩

end PaintLineState

section Projections

variable (frame : LineFrame K) (layout : LineLayout K) (boundingBox : FontId → Bounds K)
  (mayReach : Bounds K → K → Bool)

section Kinds

omit [Field K] [LinearOrder K] [DecidableEq C]

variable (paints : List (LinePaint K C))
  (underlines : List (PaintedStroke K (UnderlineStyle K C × ℕ × ℕ)))
  (strikethroughs : List (PaintedStroke K (StrikethroughStyle K C)))

lemma asUnderline_append :
    (paints ++ underlines.map LinePaint.underline ++
      strikethroughs.map LinePaint.strikethrough).filterMap
      asUnderline = paints.filterMap asUnderline ++ underlines := by
  have hunderlines : (underlines.map LinePaint.underline).filterMap
      (asUnderline : LinePaint K C → _) = underlines := by
    rw [filterMap_map]
    exact filterMap_some
  have hstrikethroughs : (strikethroughs.map LinePaint.strikethrough).filterMap
      (asUnderline : LinePaint K C → _) = [] :=
    filterMap_eq_nil_iff.mpr (forall_mem_map.mpr (fun _ _ => rfl))
  rw [filterMap_append, filterMap_append, hunderlines, hstrikethroughs, append_nil]

lemma asStrikethrough_append :
    (paints ++ underlines.map LinePaint.underline ++
      strikethroughs.map LinePaint.strikethrough).filterMap
      asStrikethrough = paints.filterMap asStrikethrough ++ strikethroughs := by
  have hunderlines : (underlines.map LinePaint.underline).filterMap
      (asStrikethrough : LinePaint K C → _) = [] :=
    filterMap_eq_nil_iff.mpr (forall_mem_map.mpr (fun _ _ => rfl))
  have hstrikethroughs : (strikethroughs.map LinePaint.strikethrough).filterMap
      (asStrikethrough : LinePaint K C → _) = strikethroughs := by
    rw [filterMap_map]
    exact filterMap_some
  rw [filterMap_append, filterMap_append, hunderlines, hstrikethroughs, append_nil]

end Kinds

omit [LinearOrder K] [DecidableEq C] in
lemma paintGlyphAt_strokes (pen : Pen K (Decoration K C)) (color : C) (fontId : FontId)
    (glyph : ShapedGlyph K) :
    (paintGlyphAt frame layout mayReach pen color fontId glyph).filterMap asUnderline = [] ∧
      (paintGlyphAt frame layout mayReach pen color fontId glyph).filterMap
        asStrikethrough = [] := by
  rw [paintGlyphAt]
  split_ifs <;> exact ⟨rfl, rfl⟩

variable (s : PaintLineState K C) {s' : PaintLineState K C}

variable (place : WrapBoundary) (glyph : ShapedGlyph K)

omit [DecidableEq C] in
lemma wrap_strokes :
    (s.wrap frame layout place glyph).map PaintLineState.underlineState =
        s.underlineState.wrap frame layout place glyph ∧
      (s.wrap frame layout place glyph).map PaintLineState.strikethroughState =
        s.strikethroughState.wrap frame layout place glyph := by
  rw [PaintLineState.wrap, StrokeState.wrap, StrokeState.wrap]
  by_cases hwraps : s.pen.wraps.head? = some place
  · rw [if_pos hwraps]
    cases hnew : s.pen.newRow frame layout glyph with
    | none =>
      simp [PaintLineState.underlineState, PaintLineState.strikethroughState, hwraps, hnew]
    | some pen =>
      simp only [PaintLineState.underlineState, PaintLineState.strikethroughState, hwraps, if_true,
        hnew, bind_eq_bind, bind_some, Option.pure_def, map_some,
        asUnderline_append, asStrikethrough_append, and_self]
  · simp [PaintLineState.underlineState, PaintLineState.strikethroughState, hwraps]

lemma enterRun_strokes :
    (s.enterRun frame layout glyph).underlineState =
        s.underlineState.enterRun layout (underlinePainter frame layout) glyph ∧
      (s.enterRun frame layout glyph).strikethroughState =
        s.strikethroughState.enterRun layout (strikethroughPainter frame layout) glyph := by
  rw [PaintLineState.enterRun, StrokeState.enterRun, StrokeState.enterRun]
  by_cases hle : s.pen.runEnd ≤ glyph.index
  · simp only [PaintLineState.underlineState, PaintLineState.strikethroughState, hle, if_true,
      asUnderline_append, asStrikethrough_append, and_self]
  · simp only [PaintLineState.underlineState, PaintLineState.strikethroughState, hle, if_false,
      and_self]

lemma paintLineGlyph_strokes (fontId : FontId) (glyph : ShapedGlyph K) :
    (paintLineGlyph frame layout mayReach place fontId glyph s).map PaintLineState.underlineState =
      strokeGlyph frame layout (underlinePainter frame layout) place glyph s.underlineState ∧
    (paintLineGlyph frame layout mayReach place fontId glyph s).map
        PaintLineState.strikethroughState =
      strokeGlyph frame layout (strikethroughPainter frame layout) place glyph
        s.strikethroughState := by
  obtain ⟨hu, hs⟩ := wrap_strokes frame layout { s with
    pen := s.pen.advance glyph
    firstGlyphX := if place = ⟨0, 0⟩ then (s.pen.advance glyph).glyphOrigin.x else s.firstGlyphX }
    place glyph
  rw [paintLineGlyph, strokeGlyph, strokeGlyph]
  have hu' : StrokeState.wrap frame layout { s.underlineState with
      pen := s.underlineState.pen.advance glyph } place glyph = _ := hu.symm
  have hs' : StrokeState.wrap frame layout { s.strikethroughState with
      pen := s.strikethroughState.pen.advance glyph } place glyph = _ := hs.symm
  rw [hu', hs']
  cases PaintLineState.wrap frame layout { s with
    pen := s.pen.advance glyph
    firstGlyphX := if place = ⟨0, 0⟩ then (s.pen.advance glyph).glyphOrigin.x
      else s.firstGlyphX } place glyph with
  | none => exact ⟨rfl, rfl⟩
  | some s' =>
    obtain ⟨henterU, henterS⟩ := enterRun_strokes frame layout s' glyph
    have hglyph := paintGlyphAt_strokes frame layout mayReach
      (s'.enterRun frame layout glyph).pen (s'.enterRun frame layout glyph).color fontId glyph
    constructor
    · rw [map_some]
      simp only [bind_eq_bind, bind_some, ← henterU]
      simp [PaintLineState.underlineState, filterMap_append, hglyph.1]
    · rw [map_some]
      simp only [bind_eq_bind, bind_some, ← henterS]
      simp [PaintLineState.strikethroughState, filterMap_append, hglyph.2]

lemma paintLineRuns_strokes :
    (paintLineRuns frame layout boundingBox mayReach s).map PaintLineState.underlineState =
        strokeRuns frame layout boundingBox (underlinePainter frame layout) s.underlineState ∧
      (paintLineRuns frame layout boundingBox mayReach s).map PaintLineState.strikethroughState =
        strokeRuns frame layout boundingBox (strikethroughPainter frame layout)
          s.strikethroughState := by
  constructor
  · refine foldlM_map (fun s run => ?_) _ _
    exact foldlM_map (fun s glyph =>
      (paintLineGlyph_strokes frame layout mayReach s ⟨run.2, glyph.2⟩ run.1.fontId glyph.1).1) _ _
  · refine foldlM_map (fun s run => ?_) _ _
    exact foldlM_map (fun s glyph =>
      (paintLineGlyph_strokes frame layout mayReach s ⟨run.2, glyph.2⟩ run.1.fontId glyph.1).2) _ _

def firstGlyphX (boundaries : List WrapBoundary) : K :=
  (layout.glyphBefore ⟨0, 0⟩).elim frame.origin.x (fun glyph =>
    rowLeft frame layout boundaries 0 layout.paintedGlyphs + glyph.position.x)

omit [DecidableEq C] in
lemma wrap_firstGlyphX {s : PaintLineState K C} {place : WrapBoundary} {glyph : ShapedGlyph K}
    (h : s.wrap frame layout place glyph = some s') : s'.firstGlyphX = s.firstGlyphX := by
  rw [PaintLineState.wrap] at h
  split_ifs at h
  · cases hnew : s.pen.newRow frame layout glyph with
    | none =>
      rw [hnew] at h
      cases h
    | some pen =>
      rw [hnew] at h
      exact some.inj h ▸ rfl
  · exact some.inj h ▸ rfl

lemma enterRun_firstGlyphX : (s.enterRun frame layout glyph).firstGlyphX = s.firstGlyphX := by
  rw [PaintLineState.enterRun]
  by_cases hle : s.pen.runEnd ≤ glyph.index
  · simp only [hle, if_true]
  · simp only [hle, if_false]

lemma paintLineGlyph_firstGlyphX {place : WrapBoundary} {fontId : FontId} {glyph : ShapedGlyph K}
    {s : PaintLineState K C}
    (h : paintLineGlyph frame layout mayReach place fontId glyph s = some s') :
    s'.firstGlyphX =
      if place = ⟨0, 0⟩ then (s.pen.advance glyph).glyphOrigin.x else s.firstGlyphX := by
  rw [paintLineGlyph] at h
  obtain ⟨wrapped, hwrap, h⟩ := bind_eq_some_iff.mp h
  obtain rfl := some.inj h
  exact (enterRun_firstGlyphX frame layout wrapped glyph).trans
    (wrap_firstGlyphX frame layout hwrap)

lemma paintRun_firstGlyphX {glyphs : List (ShapedGlyph K × ℕ)} {runIx : ℕ} {fontId : FontId}
    (hne : ∀ glyph ∈ glyphs, (⟨runIx, glyph.2⟩ : WrapBoundary) ≠ ⟨0, 0⟩) {s : PaintLineState K C}
    (h : glyphs.foldlM (fun s glyph =>
      paintLineGlyph frame layout mayReach ⟨runIx, glyph.2⟩ fontId glyph.1 s) s = some s') :
    s'.firstGlyphX = s.firstGlyphX := by
  refine foldlM_invariant (P := fun s' => s'.firstGlyphX = s.firstGlyphX) ?_ rfl h
  intro glyph hglyph s₁ s₂ hs₁ hstep
  rw [paintLineGlyph_firstGlyphX frame layout mayReach hstep, if_neg (hne glyph hglyph), hs₁]

lemma paintLineRuns_firstGlyphX {boundaries : List WrapBoundary} {s : PaintLineState K C}
    (hfirst : s.firstGlyphX = frame.origin.x)
    (hx : s.pen.glyphOrigin.x = rowLeft frame layout boundaries 0 layout.paintedGlyphs)
    (hprev : s.pen.prevGlyphPosition.x = 0)
    (h : paintLineRuns frame layout boundingBox mayReach s = some s') :
    s'.firstGlyphX = firstGlyphX frame layout boundaries := by
  rw [paintLineRuns] at h
  rw [firstGlyphX, LineLayout.glyphBefore]
  cases hruns : layout.runs with
  | nil =>
    rw [hruns] at h
    rw [← some.inj h, hfirst]
    rfl
  | cons run runs =>
    rw [hruns, zipIdx_cons, foldlM_cons] at h
    obtain ⟨s₁, hrun, h⟩ := bind_eq_some_iff.mp h
    have hrest : s'.firstGlyphX = s₁.firstGlyphX := by
      refine foldlM_invariant (P := fun s' => s'.firstGlyphX = s₁.firstGlyphX) ?_ rfl h
      intro later hlater s₂ s₃ hs₂ hstep
      have hix : later.2 ≠ 0 := by
        have := (mk_mem_zipIdx_iff_le_and_getElem?_sub.mp hlater).1
        omega
      exact (paintRun_firstGlyphX frame layout mayReach
        (fun _ _ heq => hix (WrapBoundary.mk.inj heq).1) hstep).trans hs₂
    rw [hrest]
    rw [paintRun] at hrun
    cases hglyphs : run.glyphs with
    | nil =>
      rw [hglyphs] at hrun
      rw [← some.inj hrun]
      simpa [hglyphs] using hfirst
    | cons glyph glyphs =>
      rw [hglyphs, zipIdx_cons, foldlM_cons] at hrun
      obtain ⟨s₂, hglyph, hrun⟩ := bind_eq_some_iff.mp hrun
      have hlater : s₁.firstGlyphX = s₂.firstGlyphX := by
        refine paintRun_firstGlyphX frame layout mayReach (fun later hlater heq => ?_) hrun
        have := (mk_mem_zipIdx_iff_le_and_getElem?_sub.mp hlater).1
        have := (WrapBoundary.mk.inj heq).2
        omega
      rw [hlater, paintLineGlyph_firstGlyphX frame layout mayReach hglyph, if_pos rfl]
      simp only [Pen.advance, hx, hprev, sub_zero, getElem?_cons_zero, bind_some,
        hglyphs, elim_some]

end Projections

section LastRow

variable {frame : LineFrame K} {layout : LineLayout K} {boundingBox : FontId → Bounds K}
  {decorationRuns : List (DecorationRun δ)} {boundaries : List WrapBoundary}

variable (row : ℕ × K)

omit [Field K] [LinearOrder K] in
lemma foldl_rowOf (glyphs : List (PlacedGlyph K)) :
    (glyphs.foldl (rowOf boundaries) row).2 =
      (glyphs.filter (fun g => g.place ∈ boundaries)).getLast?.elim row.2
        (fun g => g.glyph.position.x) := by
  induction glyphs generalizing row with
  | nil => rfl
  | cons g glyphs ih =>
    rw [foldl_cons, ih, rowOf]
    by_cases hg : g.place ∈ boundaries
    · rw [if_pos hg, filter_cons_of_pos (by simpa using hg), getLast?_cons]
      cases (glyphs.filter (fun g => decide (g.place ∈ boundaries))).getLast? <;> rfl
    · rw [if_neg hg, filter_cons_of_neg (by simpa using hg)]

omit [LinearOrder K] in
lemma foldl_rowOf_eq (hwraps : boundaries.Sublist (layout.paintedGlyphs.map (·.place))) :
    (layout.paintedGlyphs.foldl (rowOf boundaries) (0, 0)).2 = lastRowX layout boundaries := by
  have hfilter := filter_mem_of_sublist hwraps places_nodup
  rw [List.filter_map] at hfilter
  have hlast : boundaries.getLast? = (layout.paintedGlyphs.filter
      (fun g => decide (g.place ∈ boundaries))).getLast?.map (·.place) := by
    rw [← getLast?_map]
    exact congrArg getLast? hfilter.symm
  rw [foldl_rowOf, lastRowX, hlast]
  cases hg : (layout.paintedGlyphs.filter (fun g => decide (g.place ∈ boundaries))).getLast? with
  | none => rfl
  | some g =>
    have hmem := mem_of_mem_filter (mem_of_getLast? hg)
    rw [map_some, bind_some, glyphBefore_place g hmem]
    rfl

omit [LinearOrder K] in
lemma endX_of_getLast? {glyphs : List (PlacedGlyph K)} {lg : LineGlyph K δ}
    (h : (glyphsFrom frame layout boundingBox decorationRuns boundaries row glyphs).getLast? =
      some lg) :
    lg.endX = rowLeft frame layout boundaries (glyphs.foldl (rowOf boundaries) row).2 [] +
      (layout.width - (glyphs.foldl (rowOf boundaries) row).2) := by
  induction glyphs generalizing row with
  | nil => cases h
  | cons g glyphs ih =>
    rw [glyphsFrom] at h
    cases glyphs with
    | nil =>
      obtain rfl := some.inj h
      rfl
    | cons g' glyphs =>
      rw [foldl_cons]
      rw [getLast?_cons] at h
      refine ih (rowOf boundaries row g) ?_
      cases hlast : (glyphsFrom frame layout boundingBox decorationRuns boundaries
          (rowOf boundaries row g) (g' :: glyphs)).getLast? with
      | none => cases getLast?_eq_none_iff.mp hlast
      | some last =>
        rw [hlast] at h
        exact h

end LastRow

/-- Whether a stroke is painted on the row of its piece, and unless the piece has no width, from
where its first glyph is painted to where its last one ends. -/
structure LiesUnder (frame : LineFrame K) (yOffset : K) (stroke : PaintedStroke K σ)
    (piece : EndedPiece K δ σ) : Prop where
  y : stroke.origin.y = frame.origin.y + piece.first.row * frame.lineHeight + yOffset
  style : stroke.style = piece.style
  span : piece.startX ≠ piece.endX →
    stroke.origin.x = piece.startX ∧ stroke.origin.x + stroke.width = piece.endX

/-- Whether a piece is started where its row is, and ends with its row: if it goes on from the row
above, its row has to start at the origin, and if it ends with the line, the last row has to start
at `startX`. A piece that starts half a glyph before the origin and ends there is started there too,
by chance. -/
def StartsWithRow (frame : LineFrame K) (layout : LineLayout K) (boundaries : List WrapBoundary)
    (widened : Bool) (startX : K) (piece : EndedPiece K δ σ) : Prop :=
  piece.startX ≠ piece.endX →
    (piece.ending = .line →
      startX = rowLeft frame layout boundaries (lastRowX layout boundaries) []) ∧
    (piece.continued = true → piece.startX = frame.origin.x ∨
      (piece.ending = .run → widened = true) ∧ piece.endX = frame.origin.x ∧
        piece.startX = frame.origin.x - piece.halfGlyph)

lemma paint_spans (stroke : Stroke K σ) (endX halfGlyph : K) (widened : Bool) {a b : K}
    (hne : a ≠ b) :
    ((stroke.paint endX halfGlyph widened).origin.x = a ∧
        (stroke.paint endX halfGlyph widened).origin.x +
          (stroke.paint endX halfGlyph widened).width = b) ↔
      endX = b ∧ (stroke.origin.x = a ∨
        widened = true ∧ b = stroke.origin.x ∧ a = stroke.origin.x - halfGlyph) := by
  rw [Stroke.paint]
  by_cases hx : stroke.origin.x = endX
  · cases widened with
    | true =>
      simp only [hx, if_true, add_sub_cancel, true_and]
      constructor
      · rintro ⟨rfl, rfl⟩
        exact ⟨rfl, .inr ⟨rfl, rfl⟩⟩
      · rintro ⟨rfl, rfl | ⟨-, rfl⟩⟩
        · exact absurd rfl hne
        · exact ⟨rfl, rfl⟩
    | false =>
      simp only [hx, if_true, Bool.false_eq_true, if_false, sub_self, add_zero, false_and, or_false]
      constructor
      · rintro ⟨rfl, rfl⟩
        exact absurd rfl hne
      · rintro ⟨rfl, rfl⟩
        exact absurd rfl hne
  · have hwidth : stroke.origin.x + (endX - stroke.origin.x) = endX := add_sub_cancel _ _
    simp only [hx, if_false, ite_self, hwidth]
    constructor
    · rintro ⟨rfl, rfl⟩
      exact ⟨rfl, .inl rfl⟩
    · rintro ⟨rfl, hstart | ⟨-, hend, -⟩⟩
      · exact ⟨hstart, rfl⟩
      · exact absurd hend.symm hx

section Lines

variable {frame : LineFrame K} {layout : LineLayout K} {boundingBox : FontId → Bounds K}
  {decorationRuns : List (DecorationRun δ)} {boundaries : List WrapBoundary}

variable (painter : StrokePainter K δ σ) (startX : K) {row : ℕ × K} {glyphs : List (PlacedGlyph K)}

lemma drawn_liesUnder_iff {piece : EndedPiece K δ σ} (hline : piece.ending = .line → piece.endX =
      rowLeft frame layout boundaries (lastRowX layout boundaries) [] +
        (layout.width - lastRowX layout boundaries)) :
    LiesUnder frame painter.yOffset (piece.drawn frame painter
        (startX + layout.width - lastRowX layout boundaries)) piece ↔
      StartsWithRow frame layout boundaries painter.widened startX piece := by
  have hspan : piece.startX ≠ piece.endX →
      (((piece.drawn frame painter
            (startX + layout.width - lastRowX layout boundaries)).origin.x = piece.startX ∧
          (piece.drawn frame painter
            (startX + layout.width - lastRowX layout boundaries)).origin.x +
            (piece.drawn frame painter
              (startX + layout.width - lastRowX layout boundaries)).width = piece.endX) ↔
        (piece.ending = .line →
          startX = rowLeft frame layout boundaries (lastRowX layout boundaries) []) ∧
        (piece.continued = true → piece.startX = frame.origin.x ∨
          (piece.ending = .run → painter.widened = true) ∧ piece.endX = frame.origin.x ∧
            piece.startX = frame.origin.x - piece.halfGlyph)) := by
    intro hne
    rw [EndedPiece.drawn, paint_spans _ _ _ _ hne]
    refine and_congr ?_ ?_
    · by_cases hending : piece.ending = .line
      · rw [if_pos hending, hline hending, add_sub_assoc, add_left_inj]
        exact ⟨fun h _ => h, fun h => h hending⟩
      · rw [if_neg hending]
        exact ⟨fun _ h => absurd h hending, fun _ => rfl⟩
    · rw [Piece.stroke]
      by_cases hcontinued : piece.continued = true
      · rw [if_pos hcontinued]
        have hwidened : (if piece.ending = .run then painter.widened else true) = true ↔
            (piece.ending = .run → painter.widened = true) := by
          split_ifs with hrun
          · exact ⟨fun h _ => h, fun h => h hrun⟩
          · exact ⟨fun _ h => absurd h hrun, fun _ => rfl⟩
        rw [hwidened]
        exact ⟨fun h _ => h.imp Eq.symm id, fun h => (h hcontinued).imp Eq.symm id⟩
      · rw [if_neg hcontinued]
        exact ⟨fun _ h => absurd h hcontinued, fun _ => .inl rfl⟩
  constructor
  · intro h hne
    exact (hspan hne).mp (h.span hne)
  · intro h
    exact ⟨rfl, rfl, fun hne => (hspan hne).mpr (h hne)⟩

def linePieces (kind : StrokeKind δ σ) (frame : LineFrame K) (layout : LineLayout K)
    (boundingBox : FontId → Bounds K) (decorationRuns : List (DecorationRun δ))
    (boundaries : List WrapBoundary) : List (EndedPiece K δ σ) :=
  pieces kind (lastHalf layout boundingBox) none
    (lineGlyphs frame layout boundingBox decorationRuns boundaries)

lemma drawn_liesUnder_pieces (hwraps : boundaries.Sublist (layout.paintedGlyphs.map (·.place))) :
    Forall₂ (LiesUnder frame painter.yOffset)
        ((linePieces painter.kind frame layout boundingBox decorationRuns boundaries).map
          (EndedPiece.drawn frame painter (startX + layout.width - lastRowX layout boundaries)))
        (linePieces painter.kind frame layout boundingBox decorationRuns boundaries) ↔
      ∀ piece ∈ linePieces painter.kind frame layout boundingBox decorationRuns boundaries,
        StartsWithRow frame layout boundaries painter.widened startX piece := by
  rw [forall₂_map_left_iff, forall₂_same]
  refine forall₂_congr (fun piece hpiece => drawn_liesUnder_iff painter startX ?_)
  intro hline
  rcases pieces_line (lastHalf layout boundingBox) piece hpiece hline with hlast | ⟨-, hcurrent⟩
  · rw [Piece.endX, endX_of_getLast? (0, 0) hlast, foldl_rowOf_eq hwraps]
  · cases hcurrent

omit [LinearOrder K] in
lemma mem_glyphsFrom {lg : LineGlyph K δ}
    (h : lg ∈ glyphsFrom frame layout boundingBox decorationRuns boundaries row glyphs) :
    ∃ g ∈ glyphs, lg.index = g.glyph.index ∧
      lg.run = styleRunAt g.glyph.index 0 decorationRuns := by
  induction glyphs generalizing row with
  | nil => cases h
  | cons g glyphs ih =>
    rcases mem_cons.mp h with rfl | h
    · exact ⟨g, mem_cons_self, rfl, rfl⟩
    · obtain ⟨g', hg', hlg⟩ := ih h
      exact ⟨g', mem_cons_of_mem g hg', hlg⟩

omit [LinearOrder K] in
lemma inRuns_glyphsFrom (hordered : glyphs.Pairwise (fun g g' => g.glyph.index ≤ g'.glyph.index)) :
    InRuns (glyphsFrom frame layout boundingBox decorationRuns boundaries row glyphs) := by
  induction glyphs generalizing row with
  | nil => exact Pairwise.nil
  | cons g glyphs ih =>
    obtain ⟨hfirst, hordered⟩ := pairwise_cons.mp hordered
    refine pairwise_cons.mpr ⟨fun lg hlg hlt => ?_, ih hordered⟩
    obtain ⟨g', hg', hindex, hrun⟩ := mem_glyphsFrom hlg
    rw [hrun]
    rw [hindex] at hlt
    have hle := hfirst g' hg'
    rw [LineGlyph.runEnd] at hlt
    show styleRunAt g'.glyph.index 0 decorationRuns = styleRunAt g.glyph.index 0 decorationRuns
    cases hat : styleRunAt g.glyph.index 0 decorationRuns with
    | none =>
      have hlt' : g'.glyph.index < (styleRunAt g.glyph.index 0 decorationRuns).elim 0
        (fun run => run.1 + run.2.len.toNat) := hlt
      rw [hat] at hlt'
      exact absurd hlt' (Nat.not_lt_zero _)
    | some run =>
      have hlt' : g'.glyph.index < (styleRunAt g.glyph.index 0 decorationRuns).elim 0
        (fun run => run.1 + run.2.len.toNat) := hlt
      rw [hat] at hlt'
      obtain ⟨-, -, -, hstart, -, hwithin, -⟩ :=
        nextStyleRun_of_styleRunAt (Nat.zero_le _) hat
      exact hwithin g'.glyph.index (hstart.trans hle) hlt'

end Lines

section Painted

variable (frame : LineFrame K) (layout : LineLayout K) (boundingBox : FontId → Bounds K)
  (mayReach : Bounds K → K → Bool) (black : C)
  {decorationRuns : List (DecorationRun (Decoration K C))} {boundaries : List WrapBoundary}

lemma paintLine_eq (hlaid : Laid layout decorationRuns layout.paintedGlyphs)
    (hwraps : boundaries.Sublist (layout.paintedGlyphs.map (·.place))) :
    ∃ paints, paintLine frame layout boundingBox mayReach black decorationRuns boundaries =
        some paints ∧
      paints.2.filterMap asUnderline =
        (linePieces underlineKind frame layout boundingBox decorationRuns boundaries).map
          (EndedPiece.drawn frame (underlinePainter frame layout)
            (firstGlyphX frame layout boundaries + layout.width - lastRowX layout boundaries)) ∧
      paints.2.filterMap asStrikethrough =
        (linePieces strikethroughKind frame layout boundingBox decorationRuns boundaries).map
          (EndedPiece.drawn frame (strikethroughPainter frame layout)
            (firstGlyphX frame layout boundaries + layout.width - lastRowX layout boundaries)) := by
  obtain ⟨pen, su, hpen, hx, hprev, hsu, hunderlines⟩ := @strokes_spec K _ _ _ _ frame layout
    boundingBox decorationRuns boundaries (underlinePainter frame layout) underlineKind_lawful hlaid
    hwraps (firstGlyphX frame layout boundaries + layout.width - lastRowX layout boundaries)
  obtain ⟨pen', ss, hpen', -, -, hss, hstrikethroughs⟩ := @strokes_spec K _ _ _ _ frame layout
    boundingBox decorationRuns boundaries (strikethroughPainter frame layout)
    strikethroughKind_lawful hlaid hwraps
    (firstGlyphX frame layout boundaries + layout.width - lastRowX layout boundaries)
  obtain rfl := some.inj (hpen.symm.trans hpen')
  obtain ⟨bounds, hbounds⟩ : ∃ bounds, linePaintBounds frame layout boundaries = some bounds :=
    linePaintBounds_isSome hwraps
  obtain ⟨hrunsU, hrunsS⟩ := paintLineRuns_strokes frame layout boundingBox mayReach
    (⟨pen, black, none, none, frame.origin.x, []⟩ : PaintLineState K C)
  have hrunsU' : (paintLineRuns frame layout boundingBox mayReach
      ⟨pen, black, none, none, frame.origin.x, []⟩).map PaintLineState.underlineState = some su :=
    hrunsU.trans hsu
  have hrunsS' : (paintLineRuns frame layout boundingBox mayReach
      ⟨pen, black, none, none, frame.origin.x, []⟩).map PaintLineState.strikethroughState =
        some ss := hrunsS.trans hss
  obtain ⟨s, hs, rfl⟩ := map_eq_some_iff.mp hrunsU'
  rw [hs, map_some] at hrunsS'
  obtain rfl := some.inj hrunsS'
  have hfirst : s.firstGlyphX = firstGlyphX frame layout boundaries :=
    paintLineRuns_firstGlyphX frame layout boundingBox mayReach rfl hx hprev hs
  have hend : lastLineEndX layout boundaries s.firstGlyphX = some (firstGlyphX frame layout
      boundaries + layout.width - lastRowX layout boundaries) := by
    rw [hfirst, lastLineEndX_eq hwraps]
  have hpainted : paintLine frame layout boundingBox mayReach black decorationRuns boundaries =
      some (bounds, s.painted ++ (endStroke s.pen (firstGlyphX frame layout boundaries +
        layout.width - lastRowX layout boundaries) s.currentUnderline).map .underline ++
        (endStroke s.pen (firstGlyphX frame layout boundaries + layout.width -
          lastRowX layout boundaries) s.currentStrikethrough).map .strikethrough) := by
    simp only [paintLine, hbounds, hpen, hs, hend, bind_eq_bind, bind_some]
    rfl
  exact ⟨_, hpainted, (asUnderline_append _ _ _).trans hunderlines,
    (asStrikethrough_append _ _ _).trans hstrikethroughs⟩

omit [Field K] [LinearOrder K] in
lemma pieces_hasNoBackground {glyphs : List (LineGlyph K (Decoration K C))} (lastHalf : K)
    (h : ∀ g ∈ glyphs, g.asks (backgroundKind : StrokeKind (Decoration K C) C) = none) :
    pieces (backgroundKind : StrokeKind (Decoration K C) C) lastHalf none glyphs = [] := by
  induction glyphs with
  | nil => rfl
  | cons g glyphs ih =>
    have hstep : Piece.step (backgroundKind : StrokeKind (Decoration K C) C) g none =
        (none, []) := by
      rw [Piece.step, Piece.start, h g mem_cons_self]
      rfl
    rw [pieces, hstep, ih (fun g hg => h g (mem_cons_of_mem _ hg))]
    rfl

lemma styleRunAt_mem {index runStart : ℕ} {runs : List (DecorationRun δ)}
    {run : ℕ × DecorationRun δ} (h : styleRunAt index runStart runs = some run) : run.2 ∈ runs := by
  induction runs generalizing runStart with
  | nil => cases h
  | cons first runs ih =>
    rw [styleRunAt] at h
    split_ifs at h with hlt
    · obtain rfl := some.inj h
      exact mem_cons_self
    · exact mem_cons_of_mem _ (ih h)

omit [LinearOrder K] in
lemma linePieces_hasNoBackground (h : hasNoBackground decorationRuns = true) :
    linePieces (backgroundKind : StrokeKind (Decoration K C) C) frame layout boundingBox
      decorationRuns boundaries = [] := by
  refine pieces_hasNoBackground _ (fun lg hlg => ?_)
  obtain ⟨g, -, -, hrun⟩ := mem_glyphsFrom hlg
  rw [LineGlyph.asks, hrun]
  cases hat : styleRunAt g.glyph.index 0 decorationRuns with
  | none => rfl
  | some run =>
    exact isNone_iff_eq_none.mp (all_eq_true.mp h run.2 (styleRunAt_mem hat))

lemma paintLineBackground_eq (hlaid : Laid layout decorationRuns layout.paintedGlyphs)
    (hwraps : boundaries.Sublist (layout.paintedGlyphs.map (·.place))) :
    ∃ layers, paintLineBackground frame layout boundingBox decorationRuns boundaries = some layers ∧
      layers.flatMap (·.2) =
        (linePieces backgroundKind frame layout boundingBox decorationRuns boundaries).map
          (EndedPiece.drawn frame backgroundPainter
            (frame.origin.x + layout.width - lastRowX layout boundaries)) := by
  rw [paintLineBackground]
  by_cases hnone : hasNoBackground decorationRuns = true
  · rw [if_pos hnone, linePieces_hasNoBackground frame layout boundingBox hnone]
    exact ⟨[], rfl, rfl⟩
  · obtain ⟨pen, s, hpen, -, -, hs, hbackgrounds⟩ := @strokes_spec K _ _ _ _ frame layout
      boundingBox decorationRuns boundaries backgroundPainter backgroundKind_lawful hlaid hwraps
      (frame.origin.x + layout.width - lastRowX layout boundaries)
    obtain ⟨bounds, hbounds⟩ : ∃ bounds, linePaintBounds frame layout boundaries = some bounds :=
      linePaintBounds_isSome hwraps
    rw [if_neg hnone]
    simp only [hbounds, hpen, hs, lastLineEndX_eq hwraps, bind_eq_bind, bind_some]
    refine ⟨_, rfl, ?_⟩
    rw [flatMap_singleton]
    exact hbackgrounds

def KindLiesUnder (painter : StrokePainter K (Decoration K C) σ)
    (decorationRuns : List (DecorationRun (Decoration K C))) (boundaries : List WrapBoundary)
    (strokes : List (PaintedStroke K σ)) : Prop :=
  CutInto painter.kind (lineGlyphs frame layout boundingBox decorationRuns boundaries)
      (linePieces painter.kind frame layout boundingBox decorationRuns boundaries) ∧
    Forall₂ (LiesUnder frame painter.yOffset) strokes
      (linePieces painter.kind frame layout boundingBox decorationRuns boundaries)

def DecorationsLieUnder (decorationRuns : List (DecorationRun (Decoration K C)))
    (boundaries : List WrapBoundary) : Prop :=
  ∃ paints layers,
    paintLine frame layout boundingBox mayReach black decorationRuns boundaries = some paints ∧
    paintLineBackground frame layout boundingBox decorationRuns boundaries = some layers ∧
    KindLiesUnder frame layout boundingBox (underlinePainter frame layout) decorationRuns boundaries
      (paints.2.filterMap asUnderline) ∧
    KindLiesUnder frame layout boundingBox (strikethroughPainter frame layout) decorationRuns
      boundaries (paints.2.filterMap asStrikethrough) ∧
    KindLiesUnder frame layout boundingBox backgroundPainter decorationRuns boundaries
      (layers.flatMap (·.2))

def KindStartsWithRow (painter : StrokePainter K (Decoration K C) σ)
    (decorationRuns : List (DecorationRun (Decoration K C))) (boundaries : List WrapBoundary)
    (startX : K) : Prop :=
  ∀ piece ∈ linePieces painter.kind frame layout boundingBox decorationRuns boundaries,
    StartsWithRow frame layout boundaries painter.widened startX piece

omit [DecidableEq C] in
lemma kindLiesUnder_iff (decorationRuns : List (DecorationRun (Decoration K C)))
    (painter : StrokePainter K (Decoration K C) σ)
    (hkind : painter.kind.Lawful) (hordered : layout.ByteOrdered)
    (hwraps : boundaries.Sublist (layout.paintedGlyphs.map (·.place))) (startX : K) :
    KindLiesUnder frame layout boundingBox painter decorationRuns boundaries
        ((linePieces painter.kind frame layout boundingBox decorationRuns boundaries).map
          (EndedPiece.drawn frame painter (startX + layout.width - lastRowX layout boundaries))) ↔
      KindStartsWithRow frame layout boundingBox painter decorationRuns boundaries startX := by
  have hcut : CutInto painter.kind (lineGlyphs frame layout boundingBox decorationRuns boundaries)
      (linePieces painter.kind frame layout boundingBox decorationRuns boundaries) := by
    refine pieces_cutInto _ hkind (inRuns_glyphsFrom ?_)
    refine pairwise_map.mp ?_
    rw [glyphIndices_eq]
    exact hordered
  exact (and_iff_right hcut).trans (drawn_liesUnder_pieces painter startX hwraps)

/-- The decorations of a line lie under its text if what goes on from the row above goes on where
its row starts, which is taken to be the origin, and the last row starts where it is taken to: where
the first glyph is painted, and for backgrounds at the origin. -/
theorem decorationsLieUnder_iff (hordered : layout.ByteOrdered)
    (hcovered : ∀ index ∈ layout.glyphIndices,
      index < (decorationRuns.map (fun run => run.len.toNat)).sum)
    (hwraps : boundaries.Sublist (layout.paintedGlyphs.map (·.place))) :
    DecorationsLieUnder frame layout boundingBox mayReach black decorationRuns boundaries ↔
      KindStartsWithRow frame layout boundingBox (underlinePainter frame layout) decorationRuns
          boundaries (firstGlyphX frame layout boundaries) ∧
        KindStartsWithRow frame layout boundingBox (strikethroughPainter frame layout)
          decorationRuns boundaries (firstGlyphX frame layout boundaries) ∧
        KindStartsWithRow frame layout boundingBox backgroundPainter decorationRuns boundaries
          frame.origin.x := by
  have hlaid := laid_paintedGlyphs hordered hcovered
  obtain ⟨paints, hpaints, hunderlines, hstrikethroughs⟩ :=
    paintLine_eq frame layout boundingBox mayReach black hlaid hwraps
  obtain ⟨layers, hlayers, hbackgrounds⟩ :=
    paintLineBackground_eq frame layout boundingBox hlaid hwraps
  have hunderline := kindLiesUnder_iff frame layout boundingBox decorationRuns
    (underlinePainter frame layout) underlineKind_lawful hordered hwraps
    (firstGlyphX frame layout boundaries)
  have hstrikethrough := kindLiesUnder_iff frame layout boundingBox decorationRuns
    (strikethroughPainter frame layout) strikethroughKind_lawful hordered hwraps
    (firstGlyphX frame layout boundaries)
  have hbackground := kindLiesUnder_iff frame layout boundingBox decorationRuns backgroundPainter
    backgroundKind_lawful hordered hwraps frame.origin.x
  rw [← hunderline, ← hstrikethrough, ← hbackground]
  constructor
  · rintro ⟨paints', layers', hpaints', hlayers', hu, hs, hb⟩
    obtain rfl := some.inj (hpaints.symm.trans hpaints')
    obtain rfl := some.inj (hlayers.symm.trans hlayers')
    exact ⟨hunderlines ▸ hu, hstrikethroughs ▸ hs, hbackgrounds ▸ hb⟩
  · rintro ⟨hu, hs, hb⟩
    exact ⟨paints, layers, hpaints, hlayers, hunderlines ▸ hu, hstrikethroughs ▸ hs,
      hbackgrounds ▸ hb⟩

end Painted

section TwoRows

def twoRows : LineLayout ℚ :=
  ⟨10, 15, 8, 2, [⟨0, [⟨0, ⟨0, 0⟩, 0, false⟩, ⟨1, ⟨10, 0⟩, 1, false⟩]⟩], 2⟩

def underlinedRuns : List (DecorationRun (Decoration ℚ ℕ)) :=
  [⟨2, ⟨0, none, some ⟨1, some 0, false⟩, none⟩⟩]

def twoRowsFrame (align : TextAlign) : LineFrame ℚ := ⟨⟨0, 0⟩, 20, align, some 20⟩

lemma decorationsLieUnder_left :
    DecorationsLieUnder (twoRowsFrame .left) twoRows (fun _ => ⟨⟨0, 0⟩, ⟨8, 10⟩⟩) (fun _ _ => true)
      0 underlinedRuns [⟨0, 1⟩] := by
  refine (decorationsLieUnder_iff (twoRowsFrame .left) twoRows _ _ 0 (by decide) (by decide)
    (by decide)).mpr ⟨?_, ?_, ?_⟩
  all_goals
    unfold KindStartsWithRow
    unfold StartsWithRow
    with_unfolding_all decide

lemma not_decorationsLieUnder_right :
    ¬DecorationsLieUnder (twoRowsFrame .right) twoRows (fun _ => ⟨⟨0, 0⟩, ⟨8, 10⟩⟩)
      (fun _ _ => true) 0 underlinedRuns [⟨0, 1⟩] := by
  rintro ⟨paints, layers, hpaints, -, ⟨-, hunder⟩, -, -⟩
  have hstrokes : (paintLine (twoRowsFrame .right) twoRows (fun _ => ⟨⟨0, 0⟩, ⟨8, 10⟩⟩)
      (fun _ _ => true) 0 underlinedRuns [⟨0, 1⟩]).map (fun paints =>
        (paints.2.filterMap asUnderline).map (fun stroke => stroke.origin.x)) =
      some [10, 0] := by
    with_unfolding_all decide
  have hpieces : (linePieces (underlinePainter (twoRowsFrame .right) twoRows).kind
      (twoRowsFrame .right) twoRows (fun _ => ⟨⟨0, 0⟩, ⟨8, 10⟩⟩) underlinedRuns [⟨0, 1⟩]).map
        (fun piece => (piece.startX, piece.endX)) = [(10, 20), (15, 20)] := by
    with_unfolding_all decide
  rw [hpaints, map_some] at hstrokes
  have hspans : Forall₂ (fun (x : ℚ) (span : ℚ × ℚ) => span.1 ≠ span.2 → x = span.1)
      [10, 0] [(10, 20), (15, 20)] := by
    rw [← some.inj hstrokes, ← hpieces, forall₂_map_left_iff, forall₂_map_right_iff]
    exact hunder.imp (fun stroke piece h hne => (h.span hne).1)
  rw [forall₂_cons, forall₂_cons] at hspans
  exact absurd (hspans.2.1 (by decide)) (by decide)

end TwoRows

end GpuiFast
