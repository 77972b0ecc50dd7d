import GpuiFast.LinePieces
import GpuiFast.OptionMaps
import GpuiFast.ShapedLine

namespace GpuiFast

open List Option

variable {K δ σ : Type} [Field K]

lemma nextStyleRun_of_styleRunAt {runs : List (DecorationRun δ)} {index runStart start : ℕ}
    {run : DecorationRun δ} (hle : runStart ≤ index)
    (h : styleRunAt index runStart runs = some (start, run)) :
    ∃ rest, nextStyleRun index runStart runs = (start, some run, rest) ∧ runStart ≤ start ∧
      start ≤ index ∧ index < start + run.len.toNat ∧
      (∀ other, start ≤ other → other < start + run.len.toNat →
        styleRunAt other runStart runs = some (start, run)) ∧
      ∀ other, start + run.len.toNat ≤ other → styleRunAt other runStart runs =
        styleRunAt other (start + run.len.toNat) rest := by
  induction runs generalizing runStart with
  | nil => cases h
  | cons first runs ih =>
    rw [styleRunAt] at h
    rw [nextStyleRun]
    by_cases hlt : index < runStart + first.len.toNat
    · rw [if_pos hlt] at h ⊢
      obtain ⟨rfl, rfl⟩ := Prod.mk.inj (some.inj h)
      refine ⟨runs, rfl, le_rfl, hle, hlt, fun other _ hother => ?_, fun other hother => ?_⟩
      · rw [styleRunAt, if_pos hother]
      · rw [styleRunAt, if_neg (not_lt.mpr hother)]
    · rw [if_neg hlt] at h ⊢
      obtain ⟨rest, hnext, hstart, hindex, hend, hwithin, hahead⟩ := ih (not_lt.mp hlt) h
      refine ⟨rest, hnext, by omega, hindex, hend, fun other hother hlt' => ?_,
        fun other hother => ?_⟩
      · rw [styleRunAt, if_neg (by omega)]
        exact hwithin other hother hlt'
      · rw [styleRunAt, if_neg (by omega)]
        exact hahead other hother

section Pen

variable (frame : LineFrame K) (layout : LineLayout K) (decorationRuns : List (DecorationRun δ))
  (boundaries : List WrapBoundary)

structure OnRow (pen : Pen K δ) (row : ℕ × K) (x : K) (glyphs : List (PlacedGlyph K)) : Prop where
  wraps : pen.wraps = (glyphs.map (·.place)).filter (· ∈ boundaries)
  x : pen.glyphOrigin.x = rowLeft frame layout boundaries row.2 glyphs + (x - row.2)
  y : pen.glyphOrigin.y = frame.origin.y + row.1 * frame.lineHeight

structure InRun (pen : Pen K δ) (run : Option (ℕ × DecorationRun δ))
    (glyphs : List (PlacedGlyph K)) : Prop where
  runEnd : pen.runEnd = run.elim 0 (fun run => run.1 + run.2.len.toNat)
  within : ∀ g ∈ glyphs, g.glyph.index < pen.runEnd →
    styleRunAt g.glyph.index 0 decorationRuns = run
  ahead : ∀ index, pen.runEnd ≤ index → styleRunAt index 0 decorationRuns =
    styleRunAt index pen.runEnd pen.decorationRuns

/-- Whether glyphs are those of a line in the order of their bytes, decorated by the runs. -/
structure Laid (glyphs : List (PlacedGlyph K)) : Prop where
  at_place : ∀ g ∈ glyphs, layout.glyphBefore g.place = some g.glyph
  ordered : glyphs.Pairwise (fun g g' => g.glyph.index ≤ g'.glyph.index)
  covered : ∀ g ∈ glyphs, (styleRunAt g.glyph.index 0 decorationRuns).isSome

variable {frame layout decorationRuns boundaries}

omit [Field K] in
lemma Laid.tail {g : PlacedGlyph K} {glyphs : List (PlacedGlyph K)}
    (h : Laid layout decorationRuns (g :: glyphs)) : Laid layout decorationRuns glyphs where
  at_place := fun g' hg' => h.at_place g' (mem_cons_of_mem g hg')
  ordered := (pairwise_cons.mp h.ordered).2
  covered := fun g' hg' => h.covered g' (mem_cons_of_mem g hg')

lemma alignedOriginX_eq {glyphs : List (PlacedGlyph K)}
    (h : ∀ g ∈ glyphs, layout.glyphBefore g.place = some g.glyph) (rowX : K) :
    alignedOriginX frame layout rowX ((glyphs.map (·.place)).filter (· ∈ boundaries)).head? =
      some (rowLeft frame layout boundaries rowX glyphs) := by
  unfold alignedOriginX rowLeft
  rw [head?_filter, find?_map]
  cases hfind : glyphs.find? ((fun place => decide (place ∈ boundaries)) ∘ (·.place)) with
  | none =>
    have hfind' : glyphs.find? (fun g => decide (g.place ∈ boundaries)) = none := hfind
    rw [hfind']
    rfl
  | some g =>
    have hfind' : glyphs.find? (fun g => decide (g.place ∈ boundaries)) = some g := hfind
    simp only [map_some, h g (mem_of_find?_eq_some hfind), hfind', elim_some]
    rfl

variable {pen : Pen K δ} {row : ℕ × K} {run : Option (ℕ × DecorationRun δ)} {g : PlacedGlyph K}
  {glyphs : List (PlacedGlyph K)}

lemma OnRow.advance {x : K} (h : OnRow frame layout boundaries pen row x glyphs)
    (hx : pen.prevGlyphPosition.x = x) :
    OnRow frame layout boundaries (pen.advance g.glyph) row g.glyph.position.x glyphs where
  wraps := h.wraps
  x := by
    rw [Pen.advance, h.x, hx]
    ring
  y := h.y

lemma rowLeft_cons_of_not_mem (hg : g.place ∉ boundaries) (rowX : K) :
    rowLeft frame layout boundaries rowX (g :: glyphs) =
      rowLeft frame layout boundaries rowX glyphs := by
  rw [rowLeft, find?_cons_of_neg (by simpa using hg), rowLeft]

section

variable (h : OnRow frame layout boundaries pen row g.glyph.position.x (g :: glyphs))
include h

lemma OnRow.stay (hg : g.place ∉ boundaries) :
    OnRow frame layout boundaries pen (rowOf boundaries row g) g.glyph.position.x glyphs where
  wraps := by
    rw [h.wraps, map_cons, filter_cons_of_neg (by simpa using hg)]
  x := by
    rw [h.x, rowOf, if_neg hg, rowLeft_cons_of_not_mem hg]
  y := by
    rw [h.y, rowOf, if_neg hg]

lemma OnRow.newRow (hlaid : Laid layout decorationRuns (g :: glyphs)) (hg : g.place ∈ boundaries) :
    ∃ pen', pen.newRow frame layout g.glyph = some pen' ∧
      OnRow frame layout boundaries pen' (rowOf boundaries row g) g.glyph.position.x glyphs ∧
      pen'.decorationRuns = pen.decorationRuns ∧ pen'.runEnd = pen.runEnd ∧
      pen'.maxGlyphSize = pen.maxGlyphSize := by
  have htail : pen.wraps.tail = (glyphs.map (·.place)).filter (· ∈ boundaries) := by
    rw [h.wraps, map_cons, filter_cons_of_pos (by simpa using hg), tail_cons]
  have haligned : alignedOriginX frame layout g.glyph.position.x
      ((glyphs.map (·.place)).filter (· ∈ boundaries)).head? =
        some (rowLeft frame layout boundaries g.glyph.position.x glyphs) :=
    alignedOriginX_eq hlaid.tail.at_place g.glyph.position.x
  rw [Pen.newRow]
  simp only [htail, haligned, bind_eq_bind, bind_some]
  refine ⟨_, rfl, ⟨rfl, ?_, ?_⟩, rfl, rfl, rfl⟩
  · rw [rowOf, if_pos hg, sub_self, add_zero]
  · rw [rowOf, if_pos hg]
    show pen.glyphOrigin.y + frame.lineHeight = _
    rw [h.y]
    push_cast
    ring

lemma OnRow.head_iff : pen.wraps.head? = some g.place ↔ g.place ∈ boundaries := by
  rw [h.wraps, map_cons]
  constructor
  · intro hhead
    exact of_decide_eq_true (mem_filter.mp (mem_of_head? hhead)).2
  · intro hg
    rw [filter_cons_of_pos (by simpa using hg), head?_cons]

end

omit [Field K] in
lemma InRun.nextRun (h : InRun decorationRuns pen run (g :: glyphs))
    (hlaid : Laid layout decorationRuns (g :: glyphs)) (hle : pen.runEnd ≤ g.glyph.index) :
    ∃ runStart styleRun runs, styleRunAt g.glyph.index 0 decorationRuns =
        some (runStart, styleRun) ∧
      pen.nextRun layout g.glyph.index = ({ pen with
        decorationRuns := runs, runEnd := runStart + styleRun.len.toNat },
          some (runStart, styleRun)) ∧
      InRun decorationRuns ({ pen with
        decorationRuns := runs, runEnd := runStart + styleRun.len.toNat })
        (some (runStart, styleRun)) glyphs := by
  obtain ⟨⟨runStart, styleRun⟩, hat⟩ :=
    isSome_iff_exists.mp (hlaid.covered g mem_cons_self)
  have hat' := hat
  rw [h.ahead _ hle] at hat'
  obtain ⟨runs, hnext, hstart, hindex, hend, hwithin, hahead⟩ :=
    nextStyleRun_of_styleRunAt hle hat'
  refine ⟨runStart, styleRun, runs, hat, ?_, rfl, ?_, ?_⟩
  · rw [Pen.nextRun, hnext]
  · intro g' hg' hlt
    have hge := (pairwise_cons.mp hlaid.ordered).1 g' hg'
    rw [h.ahead _ (hle.trans hge)]
    exact hwithin _ (hindex.trans hge) hlt
  · intro index hindex'
    have hle' : pen.runEnd ≤ index :=
      (hstart.trans (Nat.le_add_right runStart styleRun.len.toNat)).trans hindex'
    rw [h.ahead _ hle']
    exact hahead index hindex'

end Pen

variable [LinearOrder K]

def Piece.stroke (frame : LineFrame K) (painter : StrokePainter K δ σ) (piece : Piece K δ σ) :
    Stroke K σ :=
  ⟨⟨if piece.continued then frame.origin.x else piece.startX,
    frame.origin.y + piece.first.row * frame.lineHeight + painter.yOffset⟩, piece.style⟩

/-- What the source paints for a piece, with the last row ending at `lastX`. -/
def EndedPiece.drawn (frame : LineFrame K) (painter : StrokePainter K δ σ) (lastX : K)
    (piece : EndedPiece K δ σ) : PaintedStroke K σ :=
  (piece.stroke frame painter).paint (if piece.ending = .line then lastX else piece.endX)
    piece.halfGlyph (if piece.ending = .run then painter.widened else true)

section Steps

variable (frame : LineFrame K) (layout : LineLayout K) (boundingBox : FontId → Bounds K)
  (decorationRuns : List (DecorationRun δ)) (boundaries : List WrapBoundary)
  (painter : StrokePainter K δ σ)

/-- The step of the source over a glyph, its run being at hand. -/
def strokePlaced (s : StrokeState K δ σ) (g : PlacedGlyph K) : Option (StrokeState K δ σ) :=
  strokeGlyph frame layout painter g.place g.glyph
    { s with pen := { s.pen with maxGlyphSize := (boundingBox g.fontId).size } }

structure Carries (current : Option (Stroke K σ)) (row : ℕ × K)
    (run : Option (ℕ × DecorationRun δ)) (glyphs : List (PlacedGlyph K))
    (piece : Option (Piece K δ σ)) : Prop where
  stroke : current = piece.map (Piece.stroke frame painter)
  asks : piece.isSome = (run.bind (fun run =>
    painter.kind.start run.2.decoration run.1 (run.1 + run.2.len.toNat))).isSome
  inRun : ∀ p ∈ piece, p.last.run = run
  oneRow : ∀ p ∈ piece, p.OneRow
  onRow : ∀ p ∈ piece, p.last.row = row.1
  endX : ∀ p ∈ piece, p.endX = rowLeft frame layout boundaries row.2 glyphs +
    (glyphs.head?.elim layout.width (fun g => g.glyph.position.x) - row.2)

variable {frame layout boundingBox decorationRuns boundaries painter}

variable {s : StrokeState K δ σ} {row : ℕ × K} {run : Option (ℕ × DecorationRun δ)}
  {g : PlacedGlyph K} {glyphs : List (PlacedGlyph K)} {piece : Option (Piece K δ σ)}

variable {pen : Pen K δ} {lg : LineGlyph K δ}

omit [LinearOrder K] in
lemma Carries.carried (lg : LineGlyph K δ)
    (h : Carries frame layout boundaries painter s.current row run (g :: glyphs) piece)
    (hrun : InRun decorationRuns pen run (g :: glyphs)) (hindex : lg.index = g.glyph.index)
    (hlg : lg.run = styleRunAt g.glyph.index 0 decorationRuns) :
    Piece.Carried painter.kind piece [lg] := by
  intro p hp
  have hpRun := h.inRun p hp
  refine ⟨?_, fun g' hg' hlt => ?_⟩
  · rw [LineGlyph.asks, hpRun, ← h.asks, hp]
    rfl
  · rw [mem_singleton.mp hg'] at hlt ⊢
    rw [hlg, hpRun]
    refine hrun.within g mem_cons_self ?_
    rwa [hrun.runEnd, ← hpRun, ← hindex]

variable {runStart : ℕ} {styleRun : DecorationRun δ}

lemma enterRun_none (hrun : lg.run = some (runStart, styleRun)) (hx : pen.glyphOrigin.x = lg.startX)
    (hy : pen.glyphOrigin.y = frame.origin.y + lg.row * frame.lineHeight) :
    painter.enterRun pen (some (runStart, styleRun)) none =
      ((Piece.start painter.kind lg).map (Piece.stroke frame painter), []) := by
  have hasks : lg.asks painter.kind = painter.kind.start styleRun.decoration runStart
      (runStart + styleRun.len.toNat) := by
    rw [LineGlyph.asks, hrun]
    rfl
  rw [Piece.start, hasks]
  simp only [StrokePainter.enterRun, changeStroke, hx, hy]
  cases painter.kind.start styleRun.decoration runStart (runStart + styleRun.len.toNat) <;> rfl

lemma enterRun_some (hkind : painter.kind.Lawful) (hrun : lg.run = some (runStart, styleRun))
    (hx : pen.glyphOrigin.x = lg.startX)
    (hy : pen.glyphOrigin.y = frame.origin.y + lg.row * frame.lineHeight) {p : Piece K δ σ}
    (hle : p.last.runEnd ≤ lg.index) :
    painter.enterRun pen (some (runStart, styleRun)) (some (p.stroke frame painter)) =
      if lg.goesOn painter.kind p.style then
        (some ((p.add painter.kind lg).stroke frame painter), [])
      else ((Piece.start painter.kind lg).map (Piece.stroke frame painter),
        [(p.stroke frame painter).paint pen.glyphOrigin.x (pen.maxGlyphSize.width / 2)
          painter.widened]) := by
  have hgoesOn : lg.goesOn painter.kind p.style =
      painter.kind.goesOn styleRun.decoration p.style := by
    rw [LineGlyph.goesOn, hrun]
    rfl
  have hend : lg.runEnd = runStart + styleRun.len.toNat := by
    rw [LineGlyph.runEnd, hrun]
    rfl
  have hstyle : (p.stroke frame painter).style = p.style := rfl
  have hadd : (p.add painter.kind lg).stroke frame painter = { p.stroke frame painter with
      style := painter.kind.extend p.style (runStart + styleRun.len.toNat) } := by
    rw [Piece.add, if_neg (not_lt.mpr hle), hend]
    rfl
  rw [hgoesOn, hadd]
  by_cases h : painter.kind.goesOn styleRun.decoration p.style = true
  · obtain ⟨style, hasks⟩ := isSome_iff_exists.mp
      (hkind _ _ runStart (runStart + styleRun.len.toNat) h)
    simp only [StrokePainter.enterRun, changeStroke, hstyle, h, if_true, hasks]
    rfl
  · have hnone : (painter.enterRun pen (some (runStart, styleRun)) none).1 =
        (Piece.start painter.kind lg).map (Piece.stroke frame painter) := by
      rw [enterRun_none hrun hx hy]
    rw [if_neg h, ← hnone]
    simp only [StrokePainter.enterRun, changeStroke, hstyle, if_neg h]
    cases painter.kind.start styleRun.decoration runStart (runStart + styleRun.len.toNat) <;> rfl

/-- The glyph at `index` is in the run that `s` is in, or the first of a run that `s` enters. -/
def Entered (decorationRuns : List (DecorationRun δ)) (painter : StrokePainter K δ σ) (index : ℕ)
    (s s' : StrokeState K δ σ) : Prop :=
  (index < s.pen.runEnd ∧ s'.current = s.current ∧ s'.painted = s.painted) ∨
    s.pen.runEnd ≤ index ∧ ∃ runStart styleRun pen',
      styleRunAt index 0 decorationRuns = some (runStart, styleRun) ∧
      pen'.glyphOrigin = s.pen.glyphOrigin ∧ pen'.maxGlyphSize = s.pen.maxGlyphSize ∧
      s'.current = (painter.enterRun pen' (some (runStart, styleRun)) s.current).1 ∧
      s'.painted = s.painted ++ (painter.enterRun pen' (some (runStart, styleRun)) s.current).2

lemma enterRun_spec (hlaid : Laid layout decorationRuns (g :: glyphs))
    (hrow : OnRow frame layout boundaries s.pen row g.glyph.position.x glyphs)
    (hrun : InRun decorationRuns s.pen run (g :: glyphs)) :
    ∃ s', s.enterRun layout painter g.glyph = s' ∧ s'.pen.maxGlyphSize = s.pen.maxGlyphSize ∧
      OnRow frame layout boundaries s'.pen row s'.pen.prevGlyphPosition.x glyphs ∧
      InRun decorationRuns s'.pen (styleRunAt g.glyph.index 0 decorationRuns) glyphs ∧
      Entered decorationRuns painter g.glyph.index s s' := by
  have hrun' : InRun decorationRuns { s.pen with prevGlyphPosition := g.glyph.position } run
      (g :: glyphs) := ⟨hrun.runEnd, hrun.within, hrun.ahead⟩
  refine ⟨_, rfl, ?_⟩
  by_cases hlt : g.glyph.index < s.pen.runEnd
  · have henter : s.enterRun layout painter g.glyph =
        ⟨{ s.pen with prevGlyphPosition := g.glyph.position }, s.current, s.painted⟩ := by
      rw [StrokeState.enterRun]
      simp only [if_neg (not_le.mpr hlt)]
    rw [henter, hrun.within g mem_cons_self hlt]
    exact ⟨rfl, ⟨hrow.wraps, hrow.x, hrow.y⟩,
      ⟨hrun.runEnd, fun g' hg' => hrun.within g' (mem_cons_of_mem g hg'), hrun.ahead⟩,
      .inl ⟨hlt, rfl, rfl⟩⟩
  · obtain ⟨runStart, styleRun, runs, hat, hnext, hin⟩ := hrun'.nextRun hlaid (not_lt.mp hlt)
    have henter : s.enterRun layout painter g.glyph =
        ⟨{ s.pen with
            prevGlyphPosition := g.glyph.position
            decorationRuns := runs
            runEnd := runStart + styleRun.len.toNat },
          (painter.enterRun { s.pen with
            prevGlyphPosition := g.glyph.position
            decorationRuns := runs
            runEnd := runStart + styleRun.len.toNat } (some (runStart, styleRun)) s.current).1,
          s.painted ++ (painter.enterRun { s.pen with
            prevGlyphPosition := g.glyph.position
            decorationRuns := runs
            runEnd := runStart + styleRun.len.toNat }
              (some (runStart, styleRun)) s.current).2⟩ := by
      rw [StrokeState.enterRun]
      simp only [if_pos (not_lt.mp hlt), hnext]
    rw [henter, hat]
    exact ⟨rfl, ⟨hrow.wraps, hrow.x, hrow.y⟩, hin,
      .inr ⟨not_lt.mp hlt, runStart, styleRun, _, hat, rfl, rfl, rfl, rfl⟩⟩

lemma wrap_spec (hlaid : Laid layout decorationRuns (g :: glyphs))
    (hrow : OnRow frame layout boundaries s.pen row g.glyph.position.x (g :: glyphs)) :
    ∃ s', s.wrap frame layout g.place g.glyph = some s' ∧
      OnRow frame layout boundaries s'.pen (rowOf boundaries row g) g.glyph.position.x glyphs ∧
      s'.pen.decorationRuns = s.pen.decorationRuns ∧ s'.pen.runEnd = s.pen.runEnd ∧
      s'.pen.maxGlyphSize = s.pen.maxGlyphSize ∧
      ((g.place ∈ boundaries ∧ s'.current = (wrapStroke frame s.pen g.glyph.index s.current).1 ∧
          s'.painted = s.painted ++ (wrapStroke frame s.pen g.glyph.index s.current).2) ∨
        g.place ∉ boundaries ∧ s'.current = s.current ∧ s'.painted = s.painted) := by
  rw [StrokeState.wrap]
  by_cases hg : g.place ∈ boundaries
  · obtain ⟨pen, hnew, hrow', hruns, hend, hmax⟩ := hrow.newRow hlaid hg
    rw [if_pos (hrow.head_iff.mpr hg)]
    simp only [hnew, bind_eq_bind, bind_some]
    exact ⟨_, rfl, hrow', hruns, hend, hmax, .inl ⟨hg, rfl, rfl⟩⟩
  · rw [if_neg (hrow.head_iff.not.mpr hg)]
    exact ⟨s, rfl, hrow.stay hg, rfl, rfl, rfl, .inr ⟨hg, rfl, rfl⟩⟩

/-- The pen stands where `lg` begins. -/
structure AtGlyph (frame : LineFrame K) (decorationRuns : List (DecorationRun δ))
    (lg : LineGlyph K δ) (pen : Pen K δ) : Prop where
  run : lg.run = styleRunAt lg.index 0 decorationRuns
  x : pen.glyphOrigin.x = lg.startX
  y : pen.glyphOrigin.y = frame.origin.y + lg.row * frame.lineHeight
  half : pen.maxGlyphSize.width / 2 = lg.halfGlyph

section Entered

variable {s₁ s₂ : StrokeState K δ σ} {p : Piece K δ σ}

lemma Entered.fresh (hentered : Entered decorationRuns painter lg.index s₁ s₂)
    (hat : AtGlyph frame decorationRuns lg s₁.pen) (hcurrent₁ : s₁.current = none)
    (hstart : lg.index < s₁.pen.runEnd → Piece.start painter.kind lg = none) :
    s₂.current = (Piece.start painter.kind lg).map (Piece.stroke frame painter) ∧
      s₂.painted = s₁.painted := by
  rcases hentered with ⟨hlt, hcurrent, hpainted⟩ |
    ⟨-, runStart, styleRun, pen', hrun, horigin, -, hcurrent, hpainted⟩
  · rw [hcurrent, hcurrent₁, hstart hlt]
    exact ⟨rfl, hpainted⟩
  · rw [hcurrent₁, enterRun_none (hat.run.trans hrun) (horigin ▸ hat.x) (horigin ▸ hat.y)]
      at hcurrent hpainted
    exact ⟨hcurrent, hpainted.trans (append_nil _)⟩

lemma Entered.wrapped (hentered : Entered decorationRuns painter lg.index s₁ s₂)
    (hat : AtGlyph frame decorationRuns lg s₁.pen) (hend : p.last.runEnd = s₁.pen.runEnd)
    (hrow : lg.row = p.first.row + 1)
    (hcurrent₁ : s₁.current = (p.stroke frame painter).wrap frame lg.index s₁.pen.runEnd) :
    s₂.current = (p.wrap painter.kind lg).map (Piece.stroke frame painter) ∧
      s₂.painted = s₁.painted := by
  rw [Piece.wrap, hend]
  by_cases hlt : lg.index < s₁.pen.runEnd
  · have hstroke : (p.stroke frame painter).wrap frame lg.index s₁.pen.runEnd =
        some (Piece.stroke frame painter ⟨p.style, true, lg, []⟩) := by
      rw [Stroke.wrap, if_pos hlt, Piece.stroke, Piece.stroke, hrow]
      simp only [if_true]
      congr 3
      push_cast
      ring
    rcases hentered with ⟨-, hcurrent, hpainted⟩ | ⟨hle, -⟩
    · rw [if_pos hlt, hcurrent, hcurrent₁, hstroke]
      exact ⟨rfl, hpainted⟩
    · exact absurd hle (not_le.mpr hlt)
  · rw [if_neg hlt]
    refine hentered.fresh hat ?_ (fun h => absurd h hlt)
    rw [hcurrent₁, Stroke.wrap, if_neg hlt]

lemma Entered.stayed (hentered : Entered decorationRuns painter lg.index s₁ s₂)
    (hkind : painter.kind.Lawful) (hat : AtGlyph frame decorationRuns lg s₁.pen) (lastX : K)
    (hend : p.last.runEnd = s₁.pen.runEnd) (hrow : lg.row = p.last.row)
    (hx : s₁.pen.glyphOrigin.x = p.endX)
    (hcurrent₁ : s₁.current = some (p.stroke frame painter)) :
    s₂.current = (Piece.step painter.kind lg (some p)).1.map (Piece.stroke frame painter) ∧
      s₂.painted = s₁.painted ++
        (Piece.step painter.kind lg (some p)).2.map (EndedPiece.drawn frame painter lastX) := by
  rw [Piece.step, if_neg (not_not.mpr hrow), hend]
  rcases hentered with ⟨hlt, hcurrent, hpainted⟩ |
    ⟨hle, runStart, styleRun, pen', hrun, horigin, hmax, hcurrent, hpainted⟩
  · have hadd : (p.add painter.kind lg).stroke frame painter = p.stroke frame painter := by
      rw [Piece.add, hend, if_pos hlt]
      rfl
    rw [if_pos (.inl hlt), hcurrent, hcurrent₁, hpainted]
    exact ⟨congrArg some hadd.symm, (append_nil _).symm⟩
  · rw [hcurrent₁, enterRun_some hkind (hat.run.trans hrun) (horigin ▸ hat.x) (horigin ▸ hat.y)
      (hend.trans_le hle), horigin, hx, hmax, hat.half] at hcurrent hpainted
    by_cases hgoesOn : lg.goesOn painter.kind p.style = true
    · rw [if_pos hgoesOn] at hcurrent hpainted
      rw [if_pos (.inr hgoesOn), hcurrent, hpainted]
      exact ⟨rfl, rfl⟩
    · rw [if_neg hgoesOn] at hcurrent hpainted
      rw [if_neg (not_or.mpr ⟨not_lt.mpr hle, hgoesOn⟩), hcurrent, hpainted]
      exact ⟨rfl, rfl⟩

end Entered

lemma strokePlaced_step (hkind : painter.kind.Lawful) (lastX : K)
    (hlaid : Laid layout decorationRuns (g :: glyphs))
    (hrow : OnRow frame layout boundaries s.pen row s.pen.prevGlyphPosition.x (g :: glyphs))
    (hrun : InRun decorationRuns s.pen run (g :: glyphs))
    (hcarries : Carries frame layout boundaries painter s.current row run (g :: glyphs) piece)
    (hlg : lineGlyph frame layout boundingBox decorationRuns boundaries
      (rowOf boundaries row g) g glyphs = lg) :
    ∃ s', strokePlaced frame layout boundingBox painter s g = some s' ∧
      s'.pen.maxGlyphSize = (boundingBox g.fontId).size ∧
      OnRow frame layout boundaries s'.pen (rowOf boundaries row g) s'.pen.prevGlyphPosition.x
        glyphs ∧ InRun decorationRuns s'.pen lg.run glyphs ∧
      s'.current = (Piece.step painter.kind lg piece).1.map (Piece.stroke frame painter) ∧
      s'.painted = s.painted ++
        (Piece.step painter.kind lg piece).2.map (EndedPiece.drawn frame painter lastX) := by
  obtain ⟨pen, hpen⟩ : ∃ pen, ({ s.pen with maxGlyphSize := (boundingBox g.fontId).size } :
    Pen K δ).advance g.glyph = pen := ⟨_, rfl⟩
  have hadvance : OnRow frame layout boundaries pen row g.glyph.position.x (g :: glyphs) :=
    hpen ▸ OnRow.advance ⟨hrow.wraps, hrow.x, hrow.y⟩ rfl
  have hpenRun : InRun decorationRuns pen run (g :: glyphs) :=
    hpen ▸ ⟨hrun.runEnd, hrun.within, hrun.ahead⟩
  have hpenMax : pen.maxGlyphSize = (boundingBox g.fontId).size := by
    rw [← hpen]
    rfl
  have hpenHalf : pen.maxGlyphSize.width / 2 = lg.halfGlyph := by
    rw [hpenMax, ← hlg]
    rfl
  have hplaced : strokePlaced frame layout boundingBox painter s g =
      (StrokeState.wrap frame layout ⟨pen, s.current, s.painted⟩ g.place g.glyph).bind
        (fun s => some (s.enterRun layout painter g.glyph)) := by
    rw [← hpen]
    rfl
  obtain ⟨s₁, hwrap, hrow₁, hruns₁, hend₁, hmax₁, hwrapped⟩ := @wrap_spec K δ σ _ _ frame layout
    decorationRuns boundaries ⟨pen, s.current, s.painted⟩ row g glyphs hlaid hadvance
  have hrun₁ : InRun decorationRuns s₁.pen run (g :: glyphs) := by
    refine ⟨hend₁.trans hpenRun.runEnd, ?_, ?_⟩
    · rw [hend₁]
      exact hpenRun.within
    · rw [hend₁, hruns₁]
      exact hpenRun.ahead
  obtain ⟨s₂, henter, hmax₂, hrow₂, hrun₂, hentered⟩ := @enterRun_spec K δ σ _ _ frame layout
    decorationRuns boundaries painter s₁ _ run g glyphs hlaid hrow₁ hrun₁
  have hindex : lg.index = g.glyph.index := by rw [← hlg]; rfl
  have hlgRun : lg.run = styleRunAt g.glyph.index 0 decorationRuns := by rw [← hlg]; rfl
  have hlgRow : lg.row = (rowOf boundaries row g).1 := by rw [← hlg]; rfl
  have hx : s₁.pen.glyphOrigin.x = lg.startX := by rw [hrow₁.x, ← hlg]; rfl
  have hat : AtGlyph frame decorationRuns lg s₁.pen :=
    ⟨hindex ▸ hlgRun, hx, by rw [hrow₁.y, hlgRow], by rw [hmax₁, hpenHalf]⟩
  refine ⟨s₂, ?_, (hmax₂.trans hmax₁).trans hpenMax, hrow₂, hlgRun ▸ hrun₂, ?_⟩
  · rw [hplaced, hwrap, bind_some, henter]
  rw [← hindex] at hentered hwrapped
  have hstroke := hcarries.stroke
  cases piece with
  | none =>
    -- no stroke is carried over a row, and a run may start one
    have hcurrent₁ : s₁.current = none ∧ s₁.painted = s.painted := by
      rcases hwrapped with ⟨-, hcurrent, hpainted⟩ | ⟨-, hcurrent, hpainted⟩
      · rw [hstroke] at hcurrent hpainted
        exact ⟨hcurrent, hpainted.trans (append_nil _)⟩
      · exact ⟨hcurrent.trans hstroke, hpainted⟩
    obtain ⟨hcurrent, hpainted⟩ := hentered.fresh hat hcurrent₁.1 (fun hlt => by
      have hasks := hcarries.asks
      rw [← hpenRun.within g mem_cons_self (by rwa [hend₁, hindex] at hlt), ← hlgRun] at hasks
      exact map_eq_none_iff.mpr (not_isSome_iff_eq_none.mp (hasks ▸ Bool.noConfusion)))
    rw [Piece.step]
    exact ⟨hcurrent, (hpainted.trans hcurrent₁.2).trans (append_nil _).symm⟩
  | some p =>
    have hlastRun : p.last.runEnd = pen.runEnd := by
      rw [LineGlyph.runEnd, hcarries.inRun p rfl, hpenRun.runEnd]
    have hlastX : p.endX = pen.glyphOrigin.x := by
      rw [hcarries.endX p rfl, hadvance.x]
      rfl
    have hlastRow : p.last.row = row.1 := hcarries.onRow p rfl
    have hfirstRow : p.first.row = row.1 := by
      rw [← hlastRow]
      exact (hcarries.oneRow p rfl p.last Piece.last_mem).symm
    rw [map_some] at hstroke
    rcases hwrapped with ⟨hg, hcurrent₁, hpainted₁⟩ | ⟨hg, hcurrent₁, hpainted₁⟩
    · -- the piece ends with its row
      have hlgRow' : lg.row = row.1 + 1 := by rw [hlgRow, rowOf, if_pos hg]
      have hdrawn : (wrapStroke frame pen lg.index s.current).2 =
          [EndedPiece.drawn frame painter lastX ⟨p, .row, lg.halfGlyph⟩] := by
        rw [hstroke, wrapStroke, hpenHalf, ← hlastX]
        rfl
      obtain ⟨hcurrent, hpainted⟩ := hentered.wrapped hat (hlastRun.trans hend₁.symm)
        (hlgRow'.trans (congrArg (· + 1) hfirstRow).symm) (by rw [hcurrent₁, hstroke, hend₁]; rfl)
      rw [Piece.step, if_pos (show lg.row ≠ p.last.row by omega)]
      exact ⟨hcurrent, by rw [hpainted, hpainted₁, hdrawn]; rfl⟩
    · have hlgRow' : lg.row = row.1 := by rw [hlgRow, rowOf, if_neg hg]
      have hstays : s₁.pen.glyphOrigin.x = p.endX := by
        rw [hx, hlastX, hadvance.x, ← hlg]
        show rowLeft frame layout boundaries (rowOf boundaries row g).2 glyphs +
          (g.glyph.position.x - (rowOf boundaries row g).2) = _
        rw [rowOf, if_neg hg, rowLeft_cons_of_not_mem hg]
      rw [show s.painted = s₁.painted from hpainted₁.symm]
      exact hentered.stayed hkind hat lastX (hlastRun.trans hend₁.symm)
        (hlgRow'.trans hlastRow.symm) hstays (hcurrent₁.trans hstroke)

variable (frame layout boundingBox decorationRuns boundaries painter)

def Tracks (lastHalf lastX : K) (s : StrokeState K δ σ) (glyphs : List (PlacedGlyph K))
    (painted : List (PaintedStroke K σ)) : Prop :=
  ∃ row run piece, OnRow frame layout boundaries s.pen row s.pen.prevGlyphPosition.x glyphs ∧
    InRun decorationRuns s.pen run glyphs ∧
    Carries frame layout boundaries painter s.current row run glyphs piece ∧
    s.painted ++ (pieces painter.kind lastHalf piece
      (glyphsFrom frame layout boundingBox decorationRuns boundaries row glyphs)).map
        (EndedPiece.drawn frame painter lastX) = painted

variable {frame layout boundingBox decorationRuns boundaries painter} {lastHalf lastX : K}
  {painted : List (PaintedStroke K σ)}

lemma Tracks.step (hkind : painter.kind.Lawful) (hlaid : Laid layout decorationRuns (g :: glyphs))
    (hmax : s.pen.maxGlyphSize = (boundingBox g.fontId).size)
    (h : Tracks frame layout boundingBox decorationRuns boundaries painter lastHalf lastX s
      (g :: glyphs) painted) :
    ∃ s', strokeGlyph frame layout painter g.place g.glyph s = some s' ∧
      s'.pen.maxGlyphSize = (boundingBox g.fontId).size ∧
      Tracks frame layout boundingBox decorationRuns boundaries painter lastHalf lastX s' glyphs
        painted := by
  obtain ⟨row, run, piece, hrow, hrun, hcarries, rfl⟩ := h
  obtain ⟨lg, hlg⟩ : ∃ lg, lineGlyph frame layout boundingBox decorationRuns boundaries
    (rowOf boundaries row g) g glyphs = lg := ⟨_, rfl⟩
  obtain ⟨s', hstep, hmax', hrow', hrun', hcurrent, hpainted⟩ :=
    strokePlaced_step hkind lastX hlaid hrow hrun hcarries hlg
  have hcarried := hcarries.carried lg hrun (by rw [← hlg]; rfl) (by rw [← hlg]; rfl)
  have hlast := (Piece.step_covers hkind hcarried).2
  have hplaced : strokePlaced frame layout boundingBox painter s g =
      strokeGlyph frame layout painter g.place g.glyph s := by
    rw [strokePlaced, ← hmax]
  refine ⟨s', hplaced ▸ hstep, hmax', _, _, _, hrow', hrun', ⟨hcurrent, ?_, ?_, ?_, ?_, ?_⟩, ?_⟩
  · exact Piece.step_isSome hkind hcarried
  · intro p hp
    rw [(hlast p hp).1]
  · exact (Piece.step_oneRow hcarries.oneRow).1
  · intro p hp
    rw [(hlast p hp).1, ← hlg]
    rfl
  · intro p hp
    rw [Piece.endX, (hlast p hp).1, ← hlg]
    rfl
  · rw [hpainted, glyphsFrom, pieces, hlg, map_append, append_assoc]

def ShapedRun.placed (run : ShapedRun K) (runIx : ℕ) : List (PlacedGlyph K) :=
  run.glyphs.zipIdx.map (fun glyph => ⟨⟨runIx, glyph.2⟩, run.fontId, glyph.1⟩)

omit [Field K] [LinearOrder K] in
lemma Laid.of_append {before after : List (PlacedGlyph K)}
    (h : Laid layout decorationRuns (before ++ after)) : Laid layout decorationRuns after where
  at_place := fun g hg => h.at_place g (mem_append_right before hg)
  ordered := (pairwise_append.mp h.ordered).2.1
  covered := fun g hg => h.covered g (mem_append_right before hg)

lemma Tracks.overRun (hkind : painter.kind.Lawful) {shapedRun : ShapedRun K} {runIx : ℕ}
    (hlaid : Laid layout decorationRuns (shapedRun.placed runIx ++ glyphs))
    (hmax : s.pen.maxGlyphSize = (boundingBox shapedRun.fontId).size)
    (h : Tracks frame layout boundingBox decorationRuns boundaries painter lastHalf lastX s
      (shapedRun.placed runIx ++ glyphs) painted) :
    ∃ s', paintRun (fun place _ glyph => strokeGlyph frame layout painter place glyph) shapedRun
        runIx s = some s' ∧ s'.pen.maxGlyphSize = (boundingBox shapedRun.fontId).size ∧
      Tracks frame layout boundingBox decorationRuns boundaries painter lastHalf lastX s' glyphs
        painted := by
  rw [paintRun]
  rw [ShapedRun.placed] at hlaid h
  generalize shapedRun.glyphs.zipIdx = shaped at hlaid h
  induction shaped generalizing s with
  | nil => exact ⟨s, rfl, hmax, h⟩
  | cons glyph shaped ih =>
    rw [map_cons, cons_append] at hlaid h
    obtain ⟨s', hstep, hmax', h'⟩ := h.step hkind hlaid hmax
    obtain ⟨s'', hrun, hmax'', h''⟩ := ih hmax' hlaid.tail h'
    refine ⟨s'', ?_, hmax'', h''⟩
    rw [foldlM_cons, hstep]
    exact hrun

lemma Tracks.overRuns (hkind : painter.kind.Lawful) {runs : List (ShapedRun K × ℕ)}
    (hlaid : Laid layout decorationRuns (runs.flatMap (fun run => run.1.placed run.2)))
    (h : Tracks frame layout boundingBox decorationRuns boundaries painter lastHalf lastX s
      (runs.flatMap (fun run => run.1.placed run.2)) painted) :
    ∃ s', runs.foldlM (fun s run =>
        paintRun (fun place _ glyph => strokeGlyph frame layout painter place glyph) run.1 run.2
          { s with pen := { s.pen with maxGlyphSize := (boundingBox run.1.fontId).size } }) s =
        some s' ∧
      s'.pen.maxGlyphSize = runs.getLast?.elim s.pen.maxGlyphSize
        (fun run => (boundingBox run.1.fontId).size) ∧
      Tracks frame layout boundingBox decorationRuns boundaries painter lastHalf lastX s' []
        painted := by
  induction runs generalizing s with
  | nil => exact ⟨s, rfl, rfl, h⟩
  | cons run runs ih =>
    rw [flatMap_cons] at hlaid h
    obtain ⟨row, runAt, piece, hrow, hrun, hcarries, hpainted⟩ := h
    have h' : Tracks frame layout boundingBox decorationRuns boundaries painter lastHalf lastX
        { s with pen := { s.pen with maxGlyphSize := (boundingBox run.1.fontId).size } }
        (run.1.placed run.2 ++ runs.flatMap (fun run => run.1.placed run.2)) painted :=
      ⟨row, runAt, piece, ⟨hrow.wraps, hrow.x, hrow.y⟩, ⟨hrun.runEnd, hrun.within, hrun.ahead⟩,
        hcarries, hpainted⟩
    obtain ⟨s', hstep, hmax, hrest⟩ := h'.overRun hkind hlaid rfl
    obtain ⟨s'', hruns, hmax', hend⟩ := ih hlaid.of_append hrest
    refine ⟨s'', ?_, ?_, hend⟩
    · rw [foldlM_cons, hstep]
      exact hruns
    · rw [hmax', hmax, getLast?_cons]
      cases runs.getLast? <;> rfl

end Steps

section Layout

omit [LinearOrder K]

variable {layout : LineLayout K}

omit [Field K] in
lemma paintedGlyphs_eq (layout : LineLayout K) :
    layout.paintedGlyphs = layout.runs.zipIdx.flatMap (fun run => run.1.placed run.2) := rfl

omit [Field K] in
lemma glyphBefore_place :
    ∀ g ∈ layout.paintedGlyphs, layout.glyphBefore g.place = some g.glyph := by
  intro g hg
  obtain ⟨run, hrun, hg⟩ := mem_flatMap.mp hg
  obtain ⟨glyph, hglyph, rfl⟩ := mem_map.mp hg
  have hrunAt : layout.runs[run.2]? = some run.1 := mk_mem_zipIdx_iff_getElem?.mp hrun
  have hglyphAt : run.1.glyphs[glyph.2]? = some glyph.1 := mk_mem_zipIdx_iff_getElem?.mp hglyph
  rw [LineLayout.glyphBefore, hrunAt, bind_some, hglyphAt]

omit [Field K] in
lemma places_nodup : (layout.paintedGlyphs.map (·.place)).Nodup := by
  have hinner : ∀ (run : ShapedRun K) (runIx : ℕ), (run.placed runIx).map (·.place) =
      (List.range run.glyphs.length).map (WrapBoundary.mk runIx) := by
    intro run runIx
    rw [ShapedRun.placed, List.map_map, range_eq_range', ← zipIdx_map_snd 0 run.glyphs,
      List.map_map]
    rfl
  rw [paintedGlyphs_eq, map_flatMap, nodup_flatMap]
  refine ⟨fun run _ => ?_, ?_⟩
  · rw [hinner]
    exact nodup_range.map (fun a b h => (WrapBoundary.mk.inj h).2)
  · have hix : layout.runs.zipIdx.Pairwise (fun a b => a.2 ≠ b.2) := by
      rw [← pairwise_map (f := Prod.snd) (R := (· ≠ ·)), zipIdx_map_snd]
      exact nodup_range'
    refine hix.imp (fun {a b} hne => ?_)
    show List.Disjoint ((a.1.placed a.2).map (·.place)) ((b.1.placed b.2).map (·.place))
    rw [hinner, hinner]
    intro place ha hb
    obtain ⟨i, -, rfl⟩ := mem_map.mp ha
    obtain ⟨j, -, h⟩ := mem_map.mp hb
    exact hne (WrapBoundary.mk.inj h).1.symm

omit [Field K] in
lemma glyphIndices_eq : layout.paintedGlyphs.map (·.glyph.index) = layout.glyphIndices := by
  rw [LineLayout.glyphIndices, LineLayout.paintedGlyphs, map_flatMap]
  conv_rhs => rw [← zipIdx_map_fst 0 layout.runs, flatMap_map]
  refine flatMap_congr (fun run _ => ?_)
  conv_rhs => rw [← zipIdx_map_fst 0 run.1.glyphs]
  rw [List.map_map, List.map_map]
  rfl

lemma filter_mem_of_sublist {α : Type} [DecidableEq α] {l l' : List α} (h : l'.Sublist l)
    (hl : l.Nodup) : l.filter (· ∈ l') = l' := by
  induction h with
  | slnil => rfl
  | @cons l' l a hsub ih =>
    obtain ⟨ha, hl⟩ := nodup_cons.mp hl
    rw [filter_cons_of_neg (by simpa using fun hmem => ha (hsub.subset hmem)), ih hl]
  | @cons_cons l' l a hsub ih =>
    obtain ⟨ha, hl⟩ := nodup_cons.mp hl
    rw [filter_cons_of_pos (by simp)]
    congr 1
    rw [← ih hl]
    refine filter_congr (fun b hb => ?_)
    have hne : b ≠ a := fun h => ha (h ▸ hb)
    rw [ih hl]
    simp [hne]

lemma styleRunAt_isSome {index runStart : ℕ} {runs : List (DecorationRun δ)}
    (hle : runStart ≤ index) (h : index < runStart + (runs.map (fun run => run.len.toNat)).sum) :
    (styleRunAt index runStart runs).isSome := by
  induction runs generalizing runStart with
  | nil => exact absurd h (not_lt.mpr hle)
  | cons run runs ih =>
    rw [styleRunAt]
    split_ifs with hlt
    · rfl
    · rw [map_cons, sum_cons, ← Nat.add_assoc] at h
      exact ih (not_lt.mp hlt) h

omit [Field K] in
lemma laid_paintedGlyphs {decorationRuns : List (DecorationRun δ)} (hordered : layout.ByteOrdered)
    (hcovered : ∀ index ∈ layout.glyphIndices,
      index < (decorationRuns.map (fun run => run.len.toNat)).sum) :
    Laid layout decorationRuns layout.paintedGlyphs where
  at_place := glyphBefore_place
  ordered := pairwise_map.mp (by rw [glyphIndices_eq]; exact hordered)
  covered := by
    intro g hg
    refine styleRunAt_isSome (Nat.zero_le _) ?_
    rw [Nat.zero_add]
    refine hcovered _ ?_
    rw [← glyphIndices_eq]
    exact mem_map_of_mem hg

end Layout

def lastHalf (layout : LineLayout K) (boundingBox : FontId → Bounds K) : K :=
  layout.runs.getLast?.elim 0 (fun run => (boundingBox run.fontId).size.width) / 2

def lastRowX (layout : LineLayout K) (boundaries : List WrapBoundary) : K :=
  (boundaries.getLast?.bind layout.glyphBefore).elim 0 (fun g => g.position.x)

section Strokes

variable {frame : LineFrame K} {layout : LineLayout K} {boundingBox : FontId → Bounds K}
  {decorationRuns : List (DecorationRun δ)} {boundaries : List WrapBoundary}
  {painter : StrokePainter K δ σ}

lemma strokes_spec (hkind : painter.kind.Lawful)
    (hlaid : Laid layout decorationRuns layout.paintedGlyphs)
    (hwraps : boundaries.Sublist (layout.paintedGlyphs.map (·.place))) (lastX : K) :
    ∃ pen s, Pen.start frame layout decorationRuns boundaries = some pen ∧
      pen.glyphOrigin.x = rowLeft frame layout boundaries 0 layout.paintedGlyphs ∧
      pen.prevGlyphPosition.x = 0 ∧
      strokeRuns frame layout boundingBox painter ⟨pen, none, []⟩ = some s ∧
      s.painted ++ endStroke s.pen lastX s.current =
        (pieces painter.kind (lastHalf layout boundingBox) none
          (lineGlyphs frame layout boundingBox decorationRuns boundaries)).map
            (EndedPiece.drawn frame painter lastX) := by
  have hfilter := filter_mem_of_sublist hwraps places_nodup
  have hstart : Pen.start frame layout decorationRuns boundaries = some ⟨decorationRuns, boundaries,
      0, ⟨rowLeft frame layout boundaries 0 layout.paintedGlyphs, frame.origin.y⟩, ⟨0, 0⟩,
        ⟨0, 0⟩⟩ := by
    have haligned : alignedOriginX frame layout 0 boundaries.head? =
        some (rowLeft frame layout boundaries 0 layout.paintedGlyphs) := by
      rw [← alignedOriginX_eq hlaid.at_place 0, hfilter]
    rw [Pen.start, haligned]
    rfl
  have htracks : Tracks frame layout boundingBox decorationRuns boundaries painter
      (lastHalf layout boundingBox) lastX ⟨⟨decorationRuns, boundaries,
        0, ⟨rowLeft frame layout boundaries 0 layout.paintedGlyphs, frame.origin.y⟩, ⟨0, 0⟩,
          ⟨0, 0⟩⟩, none, []⟩ layout.paintedGlyphs
      ((pieces painter.kind (lastHalf layout boundingBox) none
        (lineGlyphs frame layout boundingBox decorationRuns boundaries)).map
          (EndedPiece.drawn frame painter lastX)) := by
    refine ⟨(0, 0), none, none, ⟨hfilter.symm, ?_, ?_⟩, ⟨rfl, ?_, fun index _ => rfl⟩,
      ⟨rfl, rfl, ?_, ?_, ?_, ?_⟩, rfl⟩
    · rw [sub_self, add_zero]
    · rw [Nat.cast_zero, zero_mul, add_zero]
    · exact fun g _ hlt => absurd hlt (Nat.not_lt_zero _)
    all_goals exact fun p hp => (by cases hp)
  obtain ⟨s, hruns, hmax, row, run, piece, -, -, hcarries, hpainted⟩ :=
    htracks.overRuns hkind hlaid
  refine ⟨_, s, hstart, rfl, rfl, hruns, ?_⟩
  have hhalf : s.pen.maxGlyphSize.width / 2 = lastHalf layout boundingBox := by
    have hlast : layout.runs.getLast? = layout.runs.zipIdx.getLast?.map Prod.fst := by
      rw [← getLast?_map, zipIdx_map_fst]
    rw [hmax, lastHalf, hlast]
    cases layout.runs.zipIdx.getLast? <;> rfl
  rw [← hpainted, hcarries.stroke, endStroke, hhalf]
  cases piece <;> rfl

omit [LinearOrder K] in
lemma lastLineEndX_eq (hwraps : boundaries.Sublist (layout.paintedGlyphs.map (·.place)))
    (startX : K) :
    lastLineEndX layout boundaries startX =
      some (startX + layout.width - lastRowX layout boundaries) := by
  rw [lastLineEndX, lastRowX]
  cases hlast : boundaries.getLast? with
  | none => simp
  | some boundary =>
    obtain ⟨g, hg, rfl⟩ := mem_map.mp (hwraps.subset (mem_of_getLast? hlast))
    simp [glyphBefore_place g hg]

lemma linePaintBounds_isSome (hwraps : boundaries.Sublist (layout.paintedGlyphs.map (·.place))) :
    ∃ bounds, linePaintBounds frame layout boundaries = some bounds := by
  have hrowEnds : ∃ rowEnds, boundaries.mapM (fun boundary =>
      (layout.glyphBefore boundary).map (·.position.x)) = some rowEnds := by
    refine ⟨_, mapM_eq_some_map (g := fun boundary =>
      ((layout.glyphBefore boundary).map (·.position.x)).getD 0) (fun boundary hboundary => ?_)⟩
    obtain ⟨g, hg, rfl⟩ := mem_map.mp (hwraps.subset hboundary)
    rw [glyphBefore_place g hg]
    rfl
  obtain ⟨rowEnds, hrowEnds⟩ := hrowEnds
  rw [linePaintBounds]
  split_ifs
  · exact ⟨_, rfl⟩
  · simp only [hrowEnds, bind_eq_bind, bind_some]
    exact ⟨_, rfl⟩

end Strokes

end GpuiFast
