import GpuiFast.PaintLine

/-! The glyphs of a line with where they are painted and what their decoration runs ask for, and the
pieces that the strokes of a kind come in: stretches of glyphs of one row that are asked to carry
one stroke, which are all the glyphs that are asked to carry any. -/

namespace GpuiFast

open List Option

variable {K δ σ : Type} [Field K] [LinearOrder K]

structure PlacedGlyph (K : Type) where
  place : WrapBoundary
  fontId : FontId
  glyph : ShapedGlyph K

def LineLayout.paintedGlyphs (layout : LineLayout K) : List (PlacedGlyph K) :=
  layout.runs.zipIdx.flatMap (fun run =>
    run.1.glyphs.zipIdx.map (fun glyph => ⟨⟨run.2, glyph.2⟩, run.1.fontId, glyph.1⟩))

def styleRunAt (index : ℕ) : ℕ → List (DecorationRun δ) → Option (ℕ × DecorationRun δ)
  | _, [] => none
  | runStart, run :: runs =>
    if index < runStart + run.len.toNat then some (runStart, run)
    else styleRunAt index (runStart + run.len.toNat) runs

structure LineGlyph (K δ : Type) where
  index : ℕ
  row : ℕ
  startX : K
  endX : K
  halfGlyph : K
  run : Option (ℕ × DecorationRun δ)

section Glyphs

variable (frame : LineFrame K) (layout : LineLayout K) (boundingBox : FontId → Bounds K)
  (decorationRuns : List (DecorationRun δ)) (wraps : List WrapBoundary)

def rowLeft (rowX : K) (glyphs : List (PlacedGlyph K)) : K :=
  alignedX frame.origin.x (frame.alignWidth.getD layout.width)
    (((glyphs.find? (fun g => g.place ∈ wraps)).elim layout.width (fun g => g.glyph.position.x)) -
      rowX) frame.align

def rowOf (row : ℕ × K) (g : PlacedGlyph K) : ℕ × K :=
  if g.place ∈ wraps then (row.1 + 1, g.glyph.position.x) else row

def lineGlyph (row : ℕ × K) (g : PlacedGlyph K) (glyphs : List (PlacedGlyph K)) :
    LineGlyph K δ where
  index := g.glyph.index
  row := row.1
  startX := rowLeft frame layout wraps row.2 glyphs + (g.glyph.position.x - row.2)
  endX := rowLeft frame layout wraps row.2 glyphs +
    (glyphs.head?.elim layout.width (fun g => g.glyph.position.x) - row.2)
  halfGlyph := (boundingBox g.fontId).size.width / 2
  run := styleRunAt g.glyph.index 0 decorationRuns

def glyphsFrom : ℕ × K → List (PlacedGlyph K) → List (LineGlyph K δ)
  | _, [] => []
  | row, g :: glyphs =>
    lineGlyph frame layout boundingBox decorationRuns wraps (rowOf wraps row g) g glyphs ::
      glyphsFrom (rowOf wraps row g) glyphs

def lineGlyphs : List (LineGlyph K δ) :=
  glyphsFrom frame layout boundingBox decorationRuns wraps (0, 0) layout.paintedGlyphs

end Glyphs

namespace LineGlyph

def runEnd (g : LineGlyph K δ) : ℕ := g.run.elim 0 (fun run => run.1 + run.2.len.toNat)

def asks (kind : StrokeKind δ σ) (g : LineGlyph K δ) : Option σ :=
  g.run.bind (fun run => kind.start run.2.decoration run.1 (run.1 + run.2.len.toNat))

def goesOn (kind : StrokeKind δ σ) (g : LineGlyph K δ) (style : σ) : Bool :=
  g.run.elim false (fun run => kind.goesOn run.2.decoration style)

end LineGlyph

structure Piece (K δ σ : Type) where
  style : σ
  /-- Whether its run goes on from the row above. -/
  continued : Bool
  first : LineGlyph K δ
  rest : List (LineGlyph K δ)

inductive PieceEnd where
  | row
  | run
  | line
  deriving DecidableEq

structure EndedPiece (K δ σ : Type) extends Piece K δ σ where
  ending : PieceEnd
  halfGlyph : K

namespace Piece

def glyphs (piece : Piece K δ σ) : List (LineGlyph K δ) := piece.first :: piece.rest

def last (piece : Piece K δ σ) : LineGlyph K δ := piece.rest.getLastD piece.first

def startX (piece : Piece K δ σ) : K := piece.first.startX

def endX (piece : Piece K δ σ) : K := piece.last.endX

def start (kind : StrokeKind δ σ) (g : LineGlyph K δ) : Option (Piece K δ σ) :=
  (g.asks kind).map (fun style => ⟨style, false, g, []⟩)

def add (kind : StrokeKind δ σ) (piece : Piece K δ σ) (g : LineGlyph K δ) : Piece K δ σ :=
  { piece with
    style := if g.index < piece.last.runEnd then piece.style else kind.extend piece.style g.runEnd
    rest := piece.rest ++ [g] }

def wrap (kind : StrokeKind δ σ) (piece : Piece K δ σ) (g : LineGlyph K δ) : Option (Piece K δ σ) :=
  if g.index < piece.last.runEnd then some ⟨piece.style, true, g, []⟩ else start kind g

end Piece

def Piece.step (kind : StrokeKind δ σ) (g : LineGlyph K δ) :
    Option (Piece K δ σ) → Option (Piece K δ σ) × List (EndedPiece K δ σ)
  | none => (start kind g, [])
  | some piece =>
    if g.row ≠ piece.last.row then (piece.wrap kind g, [⟨piece, .row, g.halfGlyph⟩])
    else if g.index < piece.last.runEnd ∨ g.goesOn kind piece.style = true then
      (some (piece.add kind g), [])
    else (start kind g, [⟨piece, .run, g.halfGlyph⟩])

def pieces (kind : StrokeKind δ σ) (lastHalf : K) :
    Option (Piece K δ σ) → List (LineGlyph K δ) → List (EndedPiece K δ σ)
  | piece, [] => (piece.map (fun piece => ⟨piece, .line, lastHalf⟩)).toList
  | piece, g :: glyphs =>
    (Piece.step kind g piece).2 ++ pieces kind lastHalf (Piece.step kind g piece).1 glyphs

def StrokeKind.Lawful (kind : StrokeKind δ σ) : Prop :=
  ∀ decoration style runStart runEnd, kind.goesOn decoration style = true →
    (kind.start decoration runStart runEnd).isSome

section Kinds

variable {C : Type} [DecidableEq C]

omit [Field K] in
lemma underlineKind_lawful : (underlineKind : StrokeKind (Decoration K C) _).Lawful := by
  intro decoration style runStart runEnd h
  have hasks : decoration.underline = some style.1 := of_decide_eq_true h
  simp only [underlineKind, hasks, map_some, isSome_some]

omit [Field K] in
lemma strikethroughKind_lawful : (strikethroughKind : StrokeKind (Decoration K C) _).Lawful := by
  intro decoration style runStart runEnd h
  have hasks : decoration.strikethrough = some style := of_decide_eq_true h
  simp only [strikethroughKind, hasks, map_some, isSome_some]

omit [Field K] [LinearOrder K] in
lemma backgroundKind_lawful : (backgroundKind : StrokeKind (Decoration K C) _).Lawful := by
  intro decoration color runStart runEnd h
  have hasks : decoration.backgroundColor = some color := of_decide_eq_true h
  simp only [backgroundKind, hasks, isSome_some]

end Kinds

namespace Piece

omit [Field K] [LinearOrder K]

variable {kind : StrokeKind δ σ} {piece : Piece K δ σ} {current : Option (Piece K δ σ)}
  {g : LineGlyph K δ}

lemma glyphs_add : (piece.add kind g).glyphs = piece.glyphs ++ [g] := rfl

lemma last_add : (piece.add kind g).last = g := getLastD_concat ..

lemma last_mem : piece.last ∈ piece.glyphs := by
  rw [glyphs, last, getLastD_eq_getLast?]
  cases h : piece.rest.getLast? with
  | none => exact mem_cons_self
  | some g => exact mem_cons_of_mem _ (mem_of_getLast? h)

lemma start_eq_some (h : Piece.start kind g = some piece) :
    g.asks kind = some piece.style ∧ piece.continued = false ∧ piece.first = g ∧
      piece.rest = [] := by
  obtain ⟨style, hstyle, rfl⟩ := map_eq_some_iff.mp h
  exact ⟨hstyle, rfl, rfl, rfl⟩

lemma asks_congr {g' : LineGlyph K δ} (h : g.run = g'.run) : g.asks kind = g'.asks kind := by
  rw [LineGlyph.asks, LineGlyph.asks, h]

lemma asks_of_goesOn (hkind : kind.Lawful) {style : σ} (h : g.goesOn kind style = true) :
    (g.asks kind).isSome := by
  rw [LineGlyph.goesOn] at h
  rw [LineGlyph.asks]
  cases hrun : g.run with
  | none =>
    rw [hrun] at h
    cases h
  | some run =>
    rw [hrun] at h
    exact hkind run.2.decoration style _ _ h

def Carried (kind : StrokeKind δ σ) (current : Option (Piece K δ σ))
    (glyphs : List (LineGlyph K δ)) : Prop :=
  ∀ piece ∈ current, (piece.last.asks kind).isSome ∧
    ∀ g ∈ glyphs, g.index < piece.last.runEnd → g.run = piece.last.run

lemma step_covers (hkind : kind.Lawful) (hcurrent : Carried kind current [g]) :
    (step kind g current).2.flatMap (fun piece => piece.glyphs) ++
        (step kind g current).1.elim [] glyphs =
      current.elim [] glyphs ++ [g].filter (fun g => (g.asks kind).isSome) ∧
    ∀ piece ∈ (step kind g current).1, piece.last = g ∧ (g.asks kind).isSome := by
  have hstart : ((start kind g : Option (Piece K δ σ)).elim [] glyphs) =
        [g].filter (fun g => (g.asks kind).isSome) ∧
      ∀ piece ∈ (start kind g : Option (Piece K δ σ)), piece.last = g ∧ (g.asks kind).isSome := by
    rw [start, filter_singleton]
    cases hasks : g.asks kind with
    | none => exact ⟨rfl, fun piece hpiece => (by cases hpiece)⟩
    | some style =>
      refine ⟨rfl, fun piece hpiece => ?_⟩
      obtain rfl := some.inj hpiece
      exact ⟨rfl, rfl⟩
  have hkeep : (g.asks kind).isSome → [g].filter (fun g => (g.asks kind).isSome) = [g] := fun h =>
    filter_eq_self.mpr (fun g' hg' => by rwa [mem_singleton.mp hg'])
  cases current with
  | none =>
    rw [step]
    exact hstart
  | some piece =>
    obtain ⟨hasks, hsame⟩ := hcurrent piece rfl
    have hrun : g.index < piece.last.runEnd → (g.asks kind).isSome := fun hlt => by
      rwa [asks_congr (hsame g mem_cons_self hlt)]
    rw [step]
    split_ifs with hrow hjoin
    · rw [wrap]
      split_ifs with hlt
      · refine ⟨?_, fun piece' hpiece => ?_⟩
        · rw [hkeep (hrun hlt)]
          exact congrArg (· ++ [g]) (append_nil _)
        · obtain rfl := some.inj hpiece
          exact ⟨rfl, hrun hlt⟩
      · refine ⟨?_, hstart.2⟩
        rw [hstart.1]
        exact congrArg (· ++ _) (append_nil _)
    · have hg : (g.asks kind).isSome := hjoin.elim hrun (asks_of_goesOn hkind)
      refine ⟨?_, fun piece' hpiece => ?_⟩
      · rw [hkeep hg]
        rfl
      · obtain rfl := some.inj hpiece
        exact ⟨last_add, hg⟩
    · refine ⟨?_, hstart.2⟩
      rw [hstart.1]
      exact congrArg (· ++ _) (append_nil _)

lemma step_isSome (hkind : kind.Lawful) (hcurrent : Carried kind current [g]) :
    (step kind g current).1.isSome = (g.asks kind).isSome := by
  have hstart : (start kind g : Option (Piece K δ σ)).isSome = (g.asks kind).isSome :=
    isSome_map
  cases current with
  | none => exact hstart
  | some piece =>
    obtain ⟨hasks, hsame⟩ := hcurrent piece rfl
    have hrun : g.index < piece.last.runEnd → (g.asks kind).isSome := fun hlt => by
      rwa [asks_congr (hsame g mem_cons_self hlt)]
    rw [step]
    split_ifs with hrow hjoin
    · rw [wrap]
      split_ifs with hlt
      · exact (hrun hlt).symm
      · exact hstart
    · exact (hjoin.elim hrun (asks_of_goesOn hkind)).symm
    · exact hstart

lemma step_last : ∀ piece ∈ (step kind g current).1, piece.last = g := by
  have hstart : ∀ piece ∈ (start kind g : Option (Piece K δ σ)), piece.last = g := by
    intro piece hpiece
    obtain ⟨-, -, hfirst, hrest⟩ := start_eq_some hpiece
    rw [last, hrest, getLastD_nil, hfirst]
  cases current with
  | none => exact hstart
  | some piece =>
    rw [step]
    split_ifs with hrow hjoin
    · rw [wrap]
      split_ifs
      · intro piece' hpiece'
        obtain rfl := some.inj hpiece'
        rfl
      · exact hstart
    · intro piece' hpiece'
      obtain rfl := some.inj hpiece'
      exact last_add
    · exact hstart

lemma step_ending : ∀ piece ∈ (step kind g current).2, piece.ending ≠ .line := by
  intro ended hended
  cases current with
  | none => cases hended
  | some piece =>
    rw [step] at hended
    split_ifs at hended
    · rw [mem_singleton.mp hended]
      exact PieceEnd.noConfusion
    · cases hended
    · rw [mem_singleton.mp hended]
      exact PieceEnd.noConfusion

def OneRow (piece : Piece K δ σ) : Prop := ∀ g ∈ piece.glyphs, g.row = piece.first.row

lemma oneRow_start : ∀ piece ∈ (start kind g : Option (Piece K δ σ)), piece.OneRow := by
  intro piece hpiece
  obtain ⟨-, -, hfirst, hrest⟩ := start_eq_some hpiece
  intro g' hg'
  rw [glyphs, hrest, mem_singleton] at hg'
  rw [hg']

lemma step_oneRow (hcurrent : ∀ piece ∈ current, piece.OneRow) :
    (∀ piece ∈ (step kind g current).1, piece.OneRow) ∧
      ∀ piece ∈ (step kind g current).2, piece.OneRow := by
  cases current with
  | none => exact ⟨oneRow_start, fun piece hpiece => (by cases hpiece)⟩
  | some piece =>
    have hpiece := hcurrent piece rfl
    rw [step]
    split_ifs with hrow hjoin
    · refine ⟨?_, fun ended hended => ?_⟩
      · rw [wrap]
        split_ifs
        · intro piece' hpiece' g' hg'
          obtain rfl := some.inj hpiece'
          rw [mem_singleton.mp hg']
        · exact oneRow_start
      · rwa [mem_singleton.mp hended]
    · refine ⟨?_, fun ended hended => (by cases hended)⟩
      intro piece' hpiece' g' hg'
      obtain rfl := some.inj hpiece'
      rcases mem_append.mp (glyphs_add ▸ hg' : g' ∈ piece.glyphs ++ [g]) with hg' | hg'
      · exact hpiece g' hg'
      · rw [mem_singleton.mp hg', not_not.mp hrow]
        exact hpiece piece.last last_mem
    · refine ⟨oneRow_start, fun ended hended => ?_⟩
      rwa [mem_singleton.mp hended]

lemma step_infix {before : List (LineGlyph K δ)}
    (hcurrent : ∀ piece ∈ current, piece.glyphs <:+ before) :
    (∀ piece ∈ (step kind g current).1, piece.glyphs <:+ before ++ [g]) ∧
      ∀ piece ∈ (step kind g current).2, piece.glyphs <:+: before := by
  have hstart : ∀ piece ∈ (start kind g : Option (Piece K δ σ)),
      piece.glyphs <:+ before ++ [g] := by
    intro piece hpiece
    obtain ⟨-, -, hfirst, hrest⟩ := start_eq_some hpiece
    rw [glyphs, hfirst, hrest]
    exact suffix_append _ _
  cases current with
  | none => exact ⟨hstart, fun piece hpiece => (by cases hpiece)⟩
  | some piece =>
    have hpiece := hcurrent piece rfl
    rw [step]
    split_ifs with hrow hjoin
    · refine ⟨?_, fun ended hended => ?_⟩
      · rw [wrap]
        split_ifs
        · intro piece' hpiece'
          obtain rfl := some.inj hpiece'
          exact suffix_append _ _
        · exact hstart
      · rw [mem_singleton.mp hended]
        exact hpiece.isInfix
    · refine ⟨?_, fun ended hended => (by cases hended)⟩
      intro piece' hpiece'
      obtain rfl := some.inj hpiece'
      obtain ⟨before', rfl⟩ := hpiece
      rw [glyphs_add, append_assoc]
      exact suffix_append _ _
    · refine ⟨hstart, fun ended hended => ?_⟩
      rw [mem_singleton.mp hended]
      exact hpiece.isInfix

end Piece

def InRuns (glyphs : List (LineGlyph K δ)) : Prop :=
  glyphs.Pairwise (fun g g' => g'.index < g.runEnd → g'.run = g.run)

structure CutInto (kind : StrokeKind δ σ) (glyphs : List (LineGlyph K δ))
    (pieces : List (EndedPiece K δ σ)) : Prop where
  covers : pieces.flatMap (fun piece => piece.glyphs) =
    glyphs.filter (fun g => (g.asks kind).isSome)
  row : ∀ piece ∈ pieces, ∀ g ∈ piece.glyphs, g.row = piece.first.row
  contiguous : ∀ piece ∈ pieces, piece.glyphs <:+: glyphs

section Pieces

omit [Field K] [LinearOrder K]

variable {kind : StrokeKind δ σ} (lastHalf : K) {glyphs : List (LineGlyph K δ)}
  {current : Option (Piece K δ σ)}

lemma pieces_covers (hkind : kind.Lawful) (hruns : InRuns glyphs)
    (hcurrent : Piece.Carried kind current glyphs) :
    (pieces kind lastHalf current glyphs).flatMap (fun piece => piece.glyphs) =
      current.elim [] Piece.glyphs ++ glyphs.filter (fun g => (g.asks kind).isSome) := by
  induction glyphs generalizing current with
  | nil =>
    cases current with
    | none => rfl
    | some piece => rfl
  | cons g glyphs ih =>
    obtain ⟨hfirst, hruns⟩ := pairwise_cons.mp hruns
    have hg : Piece.Carried kind current [g] := fun piece hpiece =>
      ⟨(hcurrent piece hpiece).1, fun g' hg' => (hcurrent piece hpiece).2 g'
        (mem_singleton.mp hg' ▸ mem_cons_self)⟩
    obtain ⟨hcovers, hlast⟩ := Piece.step_covers hkind hg
    have hnext : Piece.Carried kind (Piece.step kind g current).1 glyphs := by
      intro piece hpiece
      obtain ⟨hlast, hasks⟩ := hlast piece hpiece
      rw [hlast]
      exact ⟨hasks, hfirst⟩
    rw [pieces, flatMap_append, ih hruns hnext, ← append_assoc, hcovers,
      append_assoc, ← filter_append, singleton_append]

lemma pieces_oneRow (hcurrent : ∀ piece ∈ current, piece.OneRow) :
    ∀ piece ∈ pieces kind lastHalf current glyphs, piece.OneRow := by
  induction glyphs generalizing current with
  | nil =>
    intro ended hended
    obtain ⟨piece, hpiece, rfl⟩ := map_eq_some_iff.mp (mem_toList.mp hended)
    exact hcurrent piece hpiece
  | cons g glyphs ih =>
    intro ended hended
    obtain ⟨hnext, hended'⟩ := @Piece.step_oneRow K δ σ kind _ g hcurrent
    rcases mem_append.mp hended with hended | hended
    · exact hended' ended hended
    · exact ih hnext ended hended

lemma pieces_isInfix_glyphs {before : List (LineGlyph K δ)}
    (hcurrent : ∀ piece ∈ current, piece.glyphs <:+ before) :
    ∀ piece ∈ pieces kind lastHalf current glyphs, piece.glyphs <:+: before ++ glyphs := by
  induction glyphs generalizing current before with
  | nil =>
    intro ended hended
    obtain ⟨piece, hpiece, rfl⟩ := map_eq_some_iff.mp (mem_toList.mp hended)
    rw [append_nil]
    exact (hcurrent piece hpiece).isInfix
  | cons g glyphs ih =>
    intro ended hended
    obtain ⟨hnext, hended'⟩ := @Piece.step_infix K δ σ kind _ g _ hcurrent
    rcases mem_append.mp hended with hended | hended
    · exact (hended' ended hended).trans (prefix_append _ _).isInfix
    · have hinfix := ih hnext ended hended
      rwa [append_assoc, singleton_append] at hinfix

lemma pieces_line : ∀ piece ∈ pieces kind lastHalf current glyphs, piece.ending = .line →
    glyphs.getLast? = some piece.last ∨ glyphs = [] ∧ current = some piece.toPiece := by
  induction glyphs generalizing current with
  | nil =>
    intro ended hended _
    obtain ⟨piece, hpiece, rfl⟩ := map_eq_some_iff.mp (mem_toList.mp hended)
    exact .inr ⟨rfl, hpiece⟩
  | cons g glyphs ih =>
    intro ended hended hline
    rcases mem_append.mp hended with hended | hended
    · exact absurd hline (Piece.step_ending ended hended)
    · rcases ih ended hended hline with hlast | ⟨rfl, hcurrent⟩
      · rw [getLast?_cons, hlast]
        exact .inl rfl
      · rw [Piece.step_last ended.toPiece hcurrent]
        exact .inl rfl

lemma pieces_cutInto (hkind : kind.Lawful) (hruns : InRuns glyphs) :
    CutInto kind glyphs (pieces kind lastHalf none glyphs) where
  covers := pieces_covers lastHalf hkind hruns (fun piece hpiece => (by cases hpiece))
  row := pieces_oneRow lastHalf (fun piece hpiece => (by cases hpiece))
  contiguous := @pieces_isInfix_glyphs K δ σ kind lastHalf glyphs none []
    (fun piece hpiece => (by cases hpiece))

end Pieces

end GpuiFast
