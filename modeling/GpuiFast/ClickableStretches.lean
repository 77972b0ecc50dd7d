import GpuiFast.WrappedPositions

/-! The stretches of a wrapped line in which a click finds an index that takes it. A click looks for the
last glyph at or before it among all; the stretches are found in one pass over the glyphs by their
places, with the latest of them so far. -/

namespace GpuiFast

open List Option

variable {K : Type*}

def Bounds.contains [Field K] [LinearOrder K] (bounds : Bounds K) (point : Point K) : Bool :=
  decide (bounds.origin.x ≤ point.x) && decide (point.x < bounds.origin.x + bounds.size.width) &&
    decide (bounds.origin.y ≤ point.y) && decide (point.y < bounds.origin.y + bounds.size.height)

structure OrderedGlyph (K : Type*) where
  x : K
  order : ℕ
  index : ℕ

structure IndexSteps (K : Type*) where
  latest : Option ℕ
  latestIndex : ℕ
  steps : List (K × ℕ)

section

variable [LinearOrder K]

namespace IndexSteps

def new : IndexSteps K := ⟨none, 0, []⟩

def noteLatest (s : IndexSteps K) (glyph : OrderedGlyph K) : IndexSteps K :=
  if s.latest.all (· < glyph.order) then
    { s with latest := some glyph.order, latestIndex := glyph.index }
  else s

def pass (s : IndexSteps K) (glyph : OrderedGlyph K) : IndexSteps K :=
  let s := s.noteLatest glyph
  { s with
    steps := match s.steps.getLast? with
      | some step =>
        if step.1 = glyph.x then s.steps.dropLast ++ [(glyph.x, s.latestIndex)]
        else s.steps ++ [(glyph.x, s.latestIndex)]
      | none => [(glyph.x, s.latestIndex)] }

end IndexSteps

namespace LineLayout

def orderedGlyphs (layout : LineLayout K) : List (OrderedGlyph K) :=
  layout.glyphs.zipIdx.map (fun glyph => ⟨glyph.1.position.x, glyph.2, glyph.1.index⟩)

def indexSteps (layout : LineLayout K) : List (K × ℕ) :=
  ((layout.orderedGlyphs.insertionSort (fun a b => a.x ≤ b.x)).foldl IndexSteps.pass .new).steps

end LineLayout

/-- The stretches of a row, along the line, given the one open and the pieces left of the row. -/
def notePieces (clickable : ℕ → Bool) (endX : K) : Option K → List (K × ℕ) → List (K × K)
  | opened, [] => opened.toList.map (·, endX)
  | opened, piece :: pieces =>
    if clickable piece.2 then notePieces clickable endX (some (opened.getD piece.1)) pieces
    else opened.toList.map (·, piece.1) ++ notePieces clickable endX none pieces

end

section

variable [Field K] [LinearOrder K]

namespace WrappedLineLayout

def rowStartX (line : WrappedLineLayout K) (row : ℕ) : K :=
  if row = 0 then 0 else ((line.boundaryGlyphs[row - 1]?).map (·.position.x)).getD 0

def rowEndX (line : WrappedLineLayout K) (row : ℕ) : K :=
  min (((line.boundaryGlyphs[row]?).map (·.position.x)).getD line.unwrappedLayout.width)
    line.unwrappedLayout.width

def rowPieces (line : WrappedLineLayout K) (row : ℕ) : List (K × ℕ) :=
  let steps := line.unwrappedLayout.indexSteps
  let first := (steps.takeWhile (fun step => step.1 ≤ line.rowStartX row)).length
  let index := if first = 0 then 0 else (steps[first - 1]?.map Prod.snd).getD 0
  (line.rowStartX row, index) :: (steps.drop first).takeWhile (fun step => step.1 < line.rowEndX row)

def rowStretches (line : WrappedLineLayout K) (lineHeight : K) (clickable : ℕ → Bool) (row : ℕ) :
    List (Bounds K) :=
  if line.rowEndX row ≤ line.rowStartX row then []
  else (notePieces clickable (line.rowEndX row) none (line.rowPieces row)).map (fun stretch =>
    ⟨⟨stretch.1 - line.rowStartX row, lineHeight * row⟩, ⟨stretch.2 - stretch.1, lineHeight⟩⟩)

def clickableStretches (line : WrappedLineLayout K) (lineHeight : K) (clickable : ℕ → Bool) :
    List (Bounds K) :=
  (List.range (line.wrapBoundaries.length + 1)).flatMap (line.rowStretches lineHeight clickable)

end WrappedLineLayout

end

section

variable [LinearOrder K]

/-- `index` is that of the latest of the glyphs up to a place, or zero if there is none. -/
def LatestAt (glyphs : List (OrderedGlyph K)) (x : K) (index : ℕ) : Prop :=
  (∃ g ∈ glyphs, g.x ≤ x ∧ g.index = index ∧ ∀ a ∈ glyphs, a.x ≤ x → a.order ≤ g.order) ∨
    (index = 0 ∧ ∀ a ∈ glyphs, x < a.x)

def stepIndex (steps : List (K × ℕ)) (x : K) : ℕ :=
  ((steps.takeWhile (fun step => step.1 ≤ x)).getLast?.map Prod.snd).getD 0

variable {x : K} {clickable : ℕ → Bool} {opened : Option K} {pieces : List (K × ℕ)}

variable {index : ℕ} {glyphs : List (OrderedGlyph K)} {glyph : OrderedGlyph K} {step : K × ℕ}
  (s : IndexSteps K) {endX : K}

lemma LatestAt.perm {a b : List (OrderedGlyph K)} (hab : a.Perm b) (h : LatestAt a x index) :
    LatestAt b x index := by
  simpa only [LatestAt, hab.mem_iff] using h

lemma LatestAt.concat_of_lt (h : LatestAt glyphs x index) (hx : x < glyph.x) :
    LatestAt (glyphs ++ [glyph]) x index := by
  rcases h with ⟨g, hg, hgx, hindex, hlast⟩ | ⟨hindex, hall⟩
  · refine .inl ⟨g, mem_append_left _ hg, hgx, hindex, fun a ha hax => ?_⟩
    rcases mem_append.mp ha with ha | ha
    · exact hlast a ha hax
    · rw [mem_singleton.mp ha] at hax
      exact absurd hax hx.not_ge
  · refine .inr ⟨hindex, fun a ha => ?_⟩
    rcases mem_append.mp ha with ha | ha
    · exact hall a ha
    · rwa [mem_singleton.mp ha]

lemma stepIndex_concat_of_lt (front : List (K × ℕ)) (h : x < step.1) :
    stepIndex (front ++ [step]) x = stepIndex front x := by
  have hstep : [step].takeWhile (fun step => decide (step.1 ≤ x)) = [] := by
    simp [h.not_ge]
  rw [stepIndex, stepIndex, takeWhile_append, hstep]
  split
  · next hall => rw [append_nil, ( takeWhile_prefix _).eq_of_length hall]
  · rfl

lemma stepIndex_concat_of_le {front : List (K × ℕ)} (hfront : ∀ a ∈ front, a.1 ≤ x) (h : step.1 ≤ x) :
    stepIndex (front ++ [step]) x = step.2 := by
  rw [stepIndex, takeWhile_eq_self_iff.mpr]
  · simp
  · intro a ha
    rcases mem_append.mp ha with ha | ha
    · simpa using hfront a ha
    · rw [mem_singleton.mp ha]
      simpa using h

structure Stepped (passed : List (OrderedGlyph K)) (s : IndexSteps K) : Prop where
  latest : (passed = [] ∧ s.latest = none) ∨ ∃ g ∈ passed, s.latest = some g.order ∧
    s.latestIndex = g.index ∧ ∀ a ∈ passed, a.order ≤ g.order
  sorted : s.steps.Pairwise (fun a b => a.1 < b.1)
  last : s.steps.getLast?.map Prod.fst = passed.getLast?.map OrderedGlyph.x
  at_place : ∀ x, LatestAt passed x (stepIndex s.steps x)

omit [LinearOrder K] in
lemma IndexSteps.noteLatest_steps (glyph : OrderedGlyph K) :
    (s.noteLatest glyph).steps = s.steps := by
  rw [noteLatest]
  split <;> rfl

lemma IndexSteps.pass_steps (glyph : OrderedGlyph K) :
    ∃ front, (s.pass glyph).steps = front ++ [(glyph.x, (s.pass glyph).latestIndex)] ∧
      ((s.steps = front ∧ ∀ last ∈ s.steps.getLast?, last.1 ≠ glyph.x) ∨
        ∃ index, s.steps = front ++ [(glyph.x, index)]) := by
  simp only [pass, noteLatest_steps]
  cases hlast : s.steps.getLast? with
  | none => exact ⟨[], rfl, .inl ⟨getLast?_eq_none_iff.mp hlast, by simp⟩⟩
  | some step =>
    obtain ⟨front, hfront⟩ := getLast?_eq_some_iff.mp hlast
    by_cases hx : step.1 = glyph.x
    · exact ⟨front, by simp [hx, hfront], .inr ⟨step.2, by rw [hfront, ← hx]⟩⟩
    · exact ⟨s.steps, by simp [hx], .inl ⟨rfl, by simpa using hx⟩⟩

lemma Stepped.pass {passed : List (OrderedGlyph K)} {s : IndexSteps K} (h : Stepped passed s)
    (hsorted : ∀ a ∈ passed, a.x ≤ glyph.x) : Stepped (passed ++ [glyph]) (s.pass glyph) := by
  have hlatest : ∃ g ∈ passed ++ [glyph], (s.pass glyph).latest = some g.order ∧
      (s.pass glyph).latestIndex = g.index ∧ ∀ a ∈ passed ++ [glyph], a.order ≤ g.order := by
    simp only [IndexSteps.pass, IndexSteps.noteLatest]
    rcases h.latest with ⟨rfl, hnone⟩ | ⟨g, hg, hsome, hindex, hmax⟩
    · exact ⟨glyph, by simp, by simp [hnone], by simp [hnone], by simp⟩
    · by_cases hlt : g.order < glyph.order
      · refine ⟨glyph, by simp, by simp [hsome, hlt], by simp [hsome, hlt], fun a ha => ?_⟩
        rcases mem_append.mp ha with ha | ha
        · exact (hmax a ha).trans hlt.le
        · rw [mem_singleton.mp ha]
      · refine ⟨g, mem_append_left _ hg, by simp [hsome, hlt], by simp [hsome, hlt, hindex],
          fun a ha => ?_⟩
        rcases mem_append.mp ha with ha | ha
        · exact hmax a ha
        · rw [mem_singleton.mp ha]
          exact not_lt.mp hlt
  obtain ⟨front, hsteps, hfront⟩ := s.pass_steps glyph
  have hbefore : ∀ a ∈ front, a.1 < glyph.x := by
    rcases hfront with ⟨rfl, hne⟩ | ⟨index, hfront⟩
    · intro a ha
      obtain ⟨step, hstep⟩ := getLast?_isSome.mpr (ne_nil_of_mem ha) |>
        isSome_iff_exists.mp
      obtain ⟨g, hg, hgx⟩ : ∃ g ∈ passed, g.x = step.1 := by
        have hlast := h.last
        rw [hstep, map_some, eq_comm, map_eq_some_iff] at hlast
        obtain ⟨g, hg, hgx⟩ := hlast
        exact ⟨g, mem_of_getLast? hg, hgx⟩
      have hlt : step.1 < glyph.x := lt_of_le_of_ne (hgx ▸ hsorted g hg) (hne step hstep)
      obtain ⟨init, hinit⟩ := getLast?_eq_some_iff.mp hstep
      have hsorted' := h.sorted
      rw [hinit, pairwise_append] at hsorted'
      rw [hinit, mem_append, mem_singleton] at ha
      rcases ha with ha | rfl
      · exact (hsorted'.2.2 a ha step (mem_singleton_self _)).trans hlt
      · exact hlt
    · have hsorted' := h.sorted
      rw [hfront, pairwise_append] at hsorted'
      exact fun a ha => hsorted'.2.2 a ha _ (mem_singleton_self _)
  refine ⟨.inr hlatest, ?_, by rw [hsteps]; simp, fun x => ?_⟩
  · rw [hsteps, pairwise_append]
    have hfrontSorted : front.Pairwise (fun a b => a.1 < b.1) := by
      rcases hfront with ⟨rfl, -⟩ | ⟨index, hfront⟩
      · exact h.sorted
      · have hsorted' := h.sorted
        rw [hfront, pairwise_append] at hsorted'
        exact hsorted'.1
    exact ⟨hfrontSorted, pairwise_singleton _ _, by simpa using hbefore⟩
  · rw [hsteps]
    by_cases hx : x < glyph.x
    · have hsame : stepIndex s.steps x = stepIndex front x := by
        rcases hfront with ⟨rfl, -⟩ | ⟨index, hfront⟩
        · rfl
        · rw [hfront, stepIndex_concat_of_lt front hx]
      rw [stepIndex_concat_of_lt front hx, ← hsame]
      exact (h.at_place x).concat_of_lt hx
    · have hx := not_lt.mp hx
      rw [stepIndex_concat_of_le (fun a ha => (hbefore a ha).le.trans hx) hx]
      obtain ⟨g, hg, -, hindex, hmax⟩ := hlatest
      refine .inl ⟨g, hg, ?_, hindex.symm, fun a ha _ => hmax a ha⟩
      rcases mem_append.mp hg with hg | hg
      · exact (hsorted g hg).trans hx
      · rwa [mem_singleton.mp hg]

lemma stepped_foldl (h : glyphs.Pairwise (fun a b => a.x ≤ b.x)) :
    Stepped glyphs (glyphs.foldl IndexSteps.pass .new) := by
  induction glyphs using reverseRecOn with
  | nil =>
    exact ⟨.inl ⟨rfl, rfl⟩, Pairwise.nil, rfl, fun x => .inr ⟨rfl, by simp⟩⟩
  | append_singleton glyphs glyph ih =>
    rw [pairwise_append] at h
    rw [foldl_append]
    exact (ih h.1).pass (fun a ha => h.2.2 a ha glyph (mem_singleton_self _))

namespace LineLayout

variable {layout : LineLayout K}

lemma found_of_latestAt {x : K} {index : ℕ} (h : LatestAt layout.orderedGlyphs x index) :
    index = ((layout.glyphs.reverse.find? (fun glyph => glyph.position.x ≤ x)).map (·.index)).getD
      0 := by
  have hmem : ∀ g : OrderedGlyph K, g ∈ layout.orderedGlyphs ↔
      ∃ glyph, layout.glyphs[g.order]? = some glyph ∧ g.x = glyph.position.x ∧
        g.index = glyph.index := by
    intro g
    simp only [orderedGlyphs, List.mem_map, Prod.exists, mem_zipIdx_iff_getElem?]
    constructor
    · rintro ⟨glyph, order, hget, rfl⟩
      exact ⟨glyph, hget, rfl, rfl⟩
    · rintro ⟨glyph, hget, hx, hindex⟩
      exact ⟨glyph, g.order, hget, by rw [← hx, ← hindex]⟩
  cases hfind : layout.glyphs.reverse.find? (fun glyph => decide (glyph.position.x ≤ x)) with
  | none =>
    rcases h with ⟨g, hg, hgx, -, -⟩ | ⟨rfl, -⟩
    · obtain ⟨glyph, hget, hx, -⟩ := (hmem g).mp hg
      have hnot := find?_eq_none.mp hfind glyph
        (mem_reverse.mpr (mem_of_getElem? hget))
      rw [← hx] at hnot
      simp [hgx] at hnot
    · rfl
  | some glyph =>
    obtain ⟨hglyph, after, before, hrev, hafter⟩ := find?_eq_some_iff_append.mp hfind
    have hglyphs : layout.glyphs = before.reverse ++ glyph :: after.reverse := by
      rw [← reverse_reverse layout.glyphs, hrev]
      simp
    have hget : layout.glyphs[before.length]? = some glyph := by
      rw [hglyphs, getElem?_append_right (by simp)]
      simp
    have hplaced := (hmem ⟨glyph.position.x, before.length, glyph.index⟩).mpr ⟨glyph, hget, rfl, rfl⟩
    rcases h with ⟨g, hg, hgx, rfl, hlast⟩ | ⟨-, hall⟩
    · obtain ⟨glyph', hget', hx, hindex⟩ := (hmem g).mp hg
      have hle := hlast _ hplaced (by simpa using hglyph)
      -- none of the glyphs after the one found is up to the place
      have horder : g.order = before.length := by
        by_contra hne
        have hlt : before.length < g.order := lt_of_le_of_ne hle (Ne.symm hne)
        rw [hglyphs, getElem?_append_right (by simp; omega), length_reverse,
          show g.order - before.length = (g.order - before.length - 1) + 1 by omega,
          getElem?_cons_succ] at hget'
        have hnot := hafter glyph' (mem_reverse.mp (mem_of_getElem? hget'))
        rw [← hx] at hnot
        simp [hgx] at hnot
      rw [horder, hget] at hget'
      rw [hindex, ← some.inj hget']
      rfl
    · have := hall _ hplaced
      exact absurd (by simpa using hglyph) this.not_ge

lemma stepped_indexSteps : Stepped (layout.orderedGlyphs.insertionSort (fun a b => a.x ≤ b.x))
    ((layout.orderedGlyphs.insertionSort (fun a b => a.x ≤ b.x)).foldl IndexSteps.pass .new) := by
  refine stepped_foldl ?_
  have : Std.Total (fun a b : OrderedGlyph K => a.x ≤ b.x) := ⟨fun a b => le_total a.x b.x⟩
  have : IsTrans (OrderedGlyph K) (fun a b => a.x ≤ b.x) := ⟨fun _ _ _ => le_trans⟩
  exact pairwise_insertionSort _ _

lemma stepIndex_indexSteps (x : K) : stepIndex layout.indexSteps x =
    ((layout.glyphs.reverse.find? (fun glyph => glyph.position.x ≤ x)).map (·.index)).getD 0 :=
  found_of_latestAt ((stepped_indexSteps.at_place x).perm (perm_insertionSort _ _))

lemma indexSteps_sorted : layout.indexSteps.Pairwise (fun a b => a.1 < b.1) :=
  stepped_indexSteps.sorted

end LineLayout

/-- Whether a place of a row is clickable, given where its pieces begin and what is open before. -/
def OpenAt (clickable : ℕ → Bool) (opened : Option K) (pieces : List (K × ℕ)) (x : K) : Prop :=
  match (pieces.takeWhile (fun piece => piece.1 ≤ x)).getLast? with
  | some piece => clickable piece.2 = true
  | none => ∃ start ∈ opened, start ≤ x

lemma openAt_of_lt (h : ∀ piece ∈ pieces, x < piece.1) :
    OpenAt clickable opened pieces x ↔ ∃ start ∈ opened, start ≤ x := by
  have hnil : pieces.takeWhile (fun piece => decide (piece.1 ≤ x)) = [] := by
    cases pieces with
    | nil => rfl
    | cons piece pieces => simp [(h piece (mem_cons_self ..)).not_ge]
  rw [OpenAt, hnil]
  rfl

lemma openAt_cons {opened' : Option K} {piece : K × ℕ} (h : piece.1 ≤ x)
    (hopened : (∃ start ∈ opened', start ≤ x) ↔ clickable piece.2 = true) :
    OpenAt clickable opened (piece :: pieces) x ↔ OpenAt clickable opened' pieces x := by
  rw [OpenAt, OpenAt, takeWhile_cons_of_pos (by simpa using h), getLast?_cons]
  cases (pieces.takeWhile (fun piece => decide (piece.1 ≤ x))).getLast? with
  | none => exact hopened.symm
  | some last => rfl

lemma mem_notePieces (hsorted : pieces.Pairwise (fun a b => a.1 < b.1))
    (hend : ∀ piece ∈ pieces, piece.1 < endX)
    (hopened : ∀ start ∈ opened, ∀ piece ∈ pieces, start < piece.1) (x : K) :
    (∃ stretch ∈ notePieces clickable endX opened pieces, stretch.1 ≤ x ∧ x < stretch.2) ↔
      x < endX ∧ OpenAt clickable opened pieces x := by
  induction pieces generalizing opened with
  | nil => cases opened <;> simp [notePieces, OpenAt, and_comm]
  | cons piece pieces ih =>
    rw [pairwise_cons] at hsorted
    have hends := fun p hp => hend p (mem_cons_of_mem piece hp)
    have hpiece : ∀ start ∈ opened, start < piece.1 :=
      fun start hstart => hopened start hstart piece (mem_cons_self ..)
    rw [notePieces]
    by_cases hclick : clickable piece.2 = true
    · -- the piece joins what is open, or opens a stretch
      have hstart : opened.getD piece.1 ≤ piece.1 := by
        cases opened with
        | none => exact le_refl _
        | some start => exact (hpiece start rfl).le
      have hrest : ∀ start ∈ some (opened.getD piece.1), ∀ p ∈ pieces, start < p.1 := by
        rintro start hs p hp
        rw [← mem_some_iff.mp hs]
        exact hstart.trans_lt (hsorted.1 p hp)
      rw [if_pos hclick, ih hsorted.2 hends hrest]
      refine and_congr_right (fun hx => ?_)
      by_cases hle : piece.1 ≤ x
      · exact (openAt_cons hle (by simp [hclick, hstart.trans hle])).symm
      · have hlt := not_le.mp hle
        rw [openAt_of_lt (fun p hp => hlt.trans (hsorted.1 p hp)), openAt_of_lt
          (forall_mem_cons.mpr ⟨hlt, fun p hp => hlt.trans (hsorted.1 p hp)⟩)]
        cases opened with
        | none => simp [hle]
        | some start => simp
    · -- the piece closes what is open
      rw [if_neg hclick]
      have hmem : (∃ stretch ∈ opened.toList.map (·, piece.1) ++
          notePieces clickable endX none pieces, stretch.1 ≤ x ∧ x < stretch.2) ↔
          (∃ start ∈ opened, start ≤ x ∧ x < piece.1) ∨
            x < endX ∧ OpenAt clickable none pieces x := by
        rw [← ih hsorted.2 hends (by simp)]
        simp only [mem_append, or_and_right, exists_or]
        refine or_congr_left ?_
        cases opened <;> simp
      rw [hmem]
      by_cases hle : piece.1 ≤ x
      · have hnone : ¬ ∃ start ∈ opened, start ≤ x ∧ x < piece.1 :=
          fun ⟨_, _, _, hlt⟩ => hlt.not_ge hle
        have hsame : OpenAt clickable opened (piece :: pieces) x ↔ OpenAt clickable none pieces x :=
          openAt_cons hle (by simp [hclick])
        rw [hsame, or_iff_right hnone]
      · have hlt := not_le.mp hle
        rw [openAt_of_lt (fun p hp => hlt.trans (hsorted.1 p hp)), openAt_of_lt
          (forall_mem_cons.mpr ⟨hlt, fun p hp => hlt.trans (hsorted.1 p hp)⟩)]
        have hx : x < endX := hlt.trans (hend piece (mem_cons_self ..))
        simp [hlt, hx]

lemma notePieces_pairwise (hsorted : pieces.Pairwise (fun a b => a.1 < b.1))
    (hend : ∀ piece ∈ pieces, piece.1 < endX) (hopenedEnd : ∀ start ∈ opened, start < endX)
    (hopened : ∀ start ∈ opened, ∀ piece ∈ pieces, start < piece.1) :
    (notePieces clickable endX opened pieces).Pairwise (fun a b => a.2 < b.1) ∧
      (∀ stretch ∈ notePieces clickable endX opened pieces, stretch.1 < stretch.2) ∧
        ∀ stretch ∈ notePieces clickable endX opened pieces,
          stretch.1 ∈ opened ∨ ∃ piece ∈ pieces, piece.1 = stretch.1 := by
  induction pieces generalizing opened with
  | nil =>
    cases opened with
    | none => simp [notePieces]
    | some start => simpa [notePieces] using hopenedEnd
  | cons piece pieces ih =>
    rw [pairwise_cons] at hsorted
    have hends := fun p hp => hend p (mem_cons_of_mem piece hp)
    have hpiece : ∀ start ∈ opened, start < piece.1 :=
      fun start hstart => hopened start hstart piece (mem_cons_self ..)
    rw [notePieces]
    by_cases hclick : clickable piece.2 = true
    · have hstart : opened.getD piece.1 ≤ piece.1 := by
        cases opened with
        | none => exact le_refl _
        | some start => exact (hpiece start rfl).le
      rw [if_pos hclick]
      have hstartEnd := hstart.trans_lt (hend piece (mem_cons_self ..))
      obtain ⟨hpairwise, hwidth, hstarts⟩ := @ih (some (opened.getD piece.1)) hsorted.2 hends
        (by simpa using hstartEnd)
        (by simpa using fun p n hp => hstart.trans_lt (hsorted.1 (p, n) hp))
      refine ⟨hpairwise, hwidth, fun stretch hstretch => ?_⟩
      rcases hstarts stretch hstretch with h | ⟨p, hp, h⟩
      · cases opened with
        | none => exact .inr ⟨piece, mem_cons_self .., mem_some_iff.mp h⟩
        | some start => exact .inl h
      · exact .inr ⟨p, mem_cons_of_mem _ hp, h⟩
    · rw [if_neg hclick]
      obtain ⟨hpairwise, hwidth, hstarts⟩ := @ih none hsorted.2 hends (by simp) (by simp)
      have hlater : ∀ stretch ∈ notePieces clickable endX none pieces, piece.1 < stretch.1 := by
        intro stretch hstretch
        rcases hstarts stretch hstretch with h | ⟨p, hp, h⟩
        · cases h
        · exact h ▸ hsorted.1 p hp
      cases opened with
      | none =>
        refine ⟨hpairwise, hwidth, fun stretch hstretch => ?_⟩
        rcases hstarts stretch hstretch with h | ⟨p, hp, h⟩
        · cases h
        · exact .inr ⟨p, mem_cons_of_mem _ hp, h⟩
      | some start =>
        refine ⟨pairwise_cons.mpr ⟨hlater, hpairwise⟩,
          forall_mem_cons.mpr ⟨hpiece start rfl, hwidth⟩,
          forall_mem_cons.mpr ⟨.inl rfl, fun stretch hstretch => ?_⟩⟩
        rcases hstarts stretch hstretch with h | ⟨p, hp, h⟩
        · cases h
        · exact .inr ⟨p, mem_cons_of_mem _ hp, h⟩

end

namespace WrappedLineLayout

variable [Field K] [LinearOrder K] {line : WrappedLineLayout K}

variable (steps : List (K × ℕ)) {layout : LineLayout K}

omit [Field K] in
lemma drop_takeWhile_length (startX : K) :
    steps.drop (steps.takeWhile (fun step => step.1 ≤ startX)).length =
      steps.dropWhile (fun step => step.1 ≤ startX) := by
  have hsplit : steps = steps.takeWhile (fun step => step.1 ≤ startX) ++
      steps.dropWhile (fun step => step.1 ≤ startX) := takeWhile_append_dropWhile.symm
  conv_lhs => arg 2; rw [hsplit]
  rw [drop_left]

variable {startX x : K} {row index : ℕ} {position : Point K} {lineHeight : K}

omit [Field K] in
lemma lt_of_mem_dropWhile {steps : List (K × ℕ)} (hsorted : steps.Pairwise (fun a b => a.1 < b.1)) :
    ∀ step ∈ steps.dropWhile (fun step => step.1 ≤ startX), startX < step.1 := by
  induction steps with
  | nil => simp
  | cons first steps ih =>
    rw [pairwise_cons] at hsorted
    by_cases h : first.1 ≤ startX
    · rw [dropWhile_cons_of_pos (by simpa using h)]
      exact ih hsorted.2
    · rw [dropWhile_cons_of_neg (by simpa using h)]
      exact forall_mem_cons.mpr
        ⟨not_le.mp h, fun step hstep => (not_le.mp h).trans (hsorted.1 step hstep)⟩

omit [Field K] in
lemma takeWhile_steps (hle : startX ≤ x) :
    steps.takeWhile (fun step => step.1 ≤ x) = steps.takeWhile (fun step => step.1 ≤ startX) ++
      (steps.dropWhile (fun step => step.1 ≤ startX)).takeWhile (fun step => step.1 ≤ x) := by
  have hall : ∀ step ∈ steps.takeWhile (fun step => decide (step.1 ≤ startX)),
      decide (step.1 ≤ x) = true := by
    intro step hstep
    have h := mem_takeWhile_imp hstep
    simp only [decide_eq_true_eq] at h ⊢
    exact h.trans hle
  rw [← takeWhile_append_of_pos hall, takeWhile_append_dropWhile]

lemma rowPieces_eq (row : ℕ) : line.rowPieces row =
    (line.rowStartX row, stepIndex line.unwrappedLayout.indexSteps (line.rowStartX row)) ::
      (line.unwrappedLayout.indexSteps.dropWhile (fun step => step.1 ≤ line.rowStartX row)).takeWhile
        (fun step => step.1 < line.rowEndX row) := by
  rw [rowPieces, drop_takeWhile_length]
  congr 2
  set steps := line.unwrappedLayout.indexSteps
  set before := steps.takeWhile (fun step => decide (step.1 ≤ line.rowStartX row)) with hbefore
  rw [stepIndex, ← hbefore, getLast?_eq_getElem?]
  split
  · next hzero =>
    rw [length_eq_zero_iff.mp hzero]
    rfl
  · next hzero =>
    obtain ⟨after, hafter⟩ : before <+: steps := takeWhile_prefix _
    have hget : steps[before.length - 1]? = before[before.length - 1]? := by
      rw [← hafter, getElem?_append_left (by omega)]
    rw [hget]

lemma rowPieces_sorted (row : ℕ) : (line.rowPieces row).Pairwise (fun a b => a.1 < b.1) := by
  have hsorted := line.unwrappedLayout.indexSteps_sorted
  rw [rowPieces_eq, pairwise_cons]
  constructor
  · intro step hstep
    exact lt_of_mem_dropWhile hsorted step (takeWhile_subset _ hstep)
  · exact hsorted.sublist ((takeWhile_sublist _).trans (dropWhile_sublist _))

lemma openAt_rowPieces (hstart : line.rowStartX row ≤ x) (hend : x < line.rowEndX row)
    (clickable : ℕ → Bool) :
    OpenAt clickable none (line.rowPieces row) x ↔
      clickable (stepIndex line.unwrappedLayout.indexSteps x) = true := by
  set steps := line.unwrappedLayout.indexSteps
  have hlater : ((steps.dropWhile (fun step => decide (step.1 ≤ line.rowStartX row))).takeWhile
      (fun step => decide (step.1 < line.rowEndX row))).takeWhile (fun step => decide (step.1 ≤ x)) =
        (steps.dropWhile (fun step => decide (step.1 ≤ line.rowStartX row))).takeWhile
          (fun step => decide (step.1 ≤ x)) := by
    rw [takeWhile_takeWhile]
    refine congrArg (takeWhile · _) (funext fun step => ?_)
    simpa using fun h => h.trans_lt hend
  rw [rowPieces_eq, OpenAt, takeWhile_cons_of_pos (by simpa using hstart), hlater,
    getLast?_cons]
  simp only [stepIndex]
  rw [takeWhile_steps steps hstart, getLast?_append]
  cases ((steps.dropWhile (fun step => decide (step.1 ≤ line.rowStartX row))).takeWhile
      (fun step => decide (step.1 ≤ x))).getLast? with
  | none => rfl
  | some step => rfl

omit [Field K] in
lemma indexForX_eq_some :
    layout.indexForX x = some index ↔ x < layout.width ∧ stepIndex layout.indexSteps x = index := by
  rw [LineLayout.stepIndex_indexSteps, LineLayout.indexForX]
  by_cases h : layout.width ≤ x
  · simp [h, h.not_gt]
  · simp [h, not_le.mp h]

lemma indexInRow_eq_ok {start stop : Option (ShapedGlyph K)} :
    indexInRow layout start stop x false = .ok index ↔
      (start.map (·.position.x)).getD 0 ≤ x + (start.map (·.position.x)).getD 0 ∧
        x + (start.map (·.position.x)).getD 0 < min ((stop.map (·.position.x)).getD layout.width)
          layout.width ∧
            stepIndex layout.indexSteps (x + (start.map (·.position.x)).getD 0) = index := by
  rw [indexInRow]
  simp only [Bool.false_eq_true, if_false]
  split
  · next hlt => simp [hlt.not_ge]
  next hstart =>
  split
  · next hend => simp [hend.not_gt]
  next hend =>
  rw [lt_min_iff, and_assoc]
  split
  · next hindex =>
    rw [indexForX_eq_some] at hindex
    simp [not_lt.mp hstart, not_le.mp hend, hindex]
  · next hindex =>
    have hnot : ¬ (x + (start.map (·.position.x)).getD 0 < layout.width ∧
        stepIndex layout.indexSteps (x + (start.map (·.position.x)).getD 0) = index) := by
      rw [← indexForX_eq_some, hindex]
      simp
    simp [hnot]

lemma indexForPosition_eq_ok [FloorSemiring K] :
    line.indexForPosition position lineHeight = .ok index ↔
      ∃ row ≤ line.wrapBoundaries.length, row = ⌊position.y / lineHeight⌋₊ ∧
        line.rowStartX row ≤ position.x + line.rowStartX row ∧
          position.x + line.rowStartX row < line.rowEndX row ∧
            stepIndex line.unwrappedLayout.indexSteps (position.x + line.rowStartX row) = index := by
  have hlength : line.boundaryGlyphs.length = line.wrapBoundaries.length := by
    rw [boundaryGlyphs, length_map]
  rw [indexForPosition, indexForPositionBy]
  set row := ⌊position.y / lineHeight⌋₊
  by_cases hrow : 0 < row
  · rw [if_pos hrow]
    cases hstart : line.boundaryGlyphs[row - 1]? with
    | none =>
      have hpast := getElem?_eq_none_iff.mp hstart
      refine iff_of_false (by simp) ?_
      rintro ⟨r, hle, rfl, -⟩
      omega
    | some start =>
      have hlt := (List.getElem?_eq_some_iff.mp hstart).1
      have hstartX : line.rowStartX row = start.position.x := by
        rw [rowStartX, if_neg hrow.ne', hstart]
        rfl
      refine indexInRow_eq_ok.trans ⟨fun h => ⟨row, by omega, rfl, ?_⟩, ?_⟩
      · rwa [hstartX]
      · rintro ⟨r, -, rfl, h⟩
        rwa [hstartX] at h
  · have hzero : row = 0 := by omega
    have hstartX : line.rowStartX row = 0 := by rw [rowStartX, if_pos hzero]
    rw [if_neg hrow]
    refine indexInRow_eq_ok.trans ⟨fun h => ⟨row, by omega, rfl, ?_⟩, ?_⟩
    · rwa [hstartX]
    · rintro ⟨r, -, rfl, h⟩
      rwa [hstartX] at h

lemma rowPieces_lt (h : line.rowStartX row < line.rowEndX row) :
    ∀ piece ∈ line.rowPieces row, piece.1 < line.rowEndX row := by
  rw [rowPieces_eq, forall_mem_cons]
  refine ⟨h, fun piece hpiece => ?_⟩
  simpa using mem_takeWhile_imp hpiece

lemma rowStartX_le : ∀ piece ∈ line.rowPieces row, line.rowStartX row ≤ piece.1 := by
  have hsorted := line.rowPieces_sorted row
  rw [rowPieces_eq, pairwise_cons] at hsorted
  rw [rowPieces_eq, forall_mem_cons]
  exact ⟨le_refl _, fun piece hpiece => (hsorted.1 piece hpiece).le⟩

variable [IsStrictOrderedRing K]

lemma contains_stretch {start stop top : K} :
    (⟨⟨start - startX, top⟩, ⟨stop - start, lineHeight⟩⟩ : Bounds K).contains position = true ↔
      (top ≤ position.y ∧ position.y < top + lineHeight) ∧
        start ≤ position.x + startX ∧ position.x + startX < stop := by
  simp only [Bounds.contains, Bool.and_eq_true, decide_eq_true_eq]
  constructor
  · rintro ⟨⟨⟨h1, h2⟩, h3⟩, h4⟩
    exact ⟨⟨h3, h4⟩, by linarith, by linarith⟩
  · rintro ⟨⟨h3, h4⟩, h1, h2⟩
    exact ⟨⟨⟨by linarith, by linarith⟩, h3⟩, h4⟩

lemma mem_rowStretches {clickable : ℕ → Bool} :
    (∃ stretch ∈ line.rowStretches lineHeight clickable row, stretch.contains position = true) ↔
      (lineHeight * row ≤ position.y ∧ position.y < lineHeight * row + lineHeight) ∧
        line.rowStartX row ≤ position.x + line.rowStartX row ∧
          position.x + line.rowStartX row < line.rowEndX row ∧
            clickable (stepIndex line.unwrappedLayout.indexSteps
              (position.x + line.rowStartX row)) = true := by
  rw [rowStretches]
  by_cases hempty : line.rowEndX row ≤ line.rowStartX row
  · rw [if_pos hempty]
    refine iff_of_false (by simp) ?_
    rintro ⟨-, hstart, hend, -⟩
    exact absurd (hstart.trans_lt hend) hempty.not_gt
  · have hlt := not_le.mp hempty
    have hpieces : (∃ stretch ∈ notePieces clickable (line.rowEndX row) none (line.rowPieces row),
        stretch.1 ≤ position.x + line.rowStartX row ∧ position.x + line.rowStartX row < stretch.2) ↔
          position.x + line.rowStartX row < line.rowEndX row ∧
            OpenAt clickable none (line.rowPieces row) (position.x + line.rowStartX row) :=
      mem_notePieces (line.rowPieces_sorted row) (rowPieces_lt hlt) (by simp) _
    have hrow : (∃ stretch ∈ (notePieces clickable (line.rowEndX row) none
        (line.rowPieces row)).map (fun stretch => (⟨⟨stretch.1 - line.rowStartX row,
          lineHeight * row⟩, ⟨stretch.2 - stretch.1, lineHeight⟩⟩ : Bounds K)),
            stretch.contains position = true) ↔
        (lineHeight * row ≤ position.y ∧ position.y < lineHeight * row + lineHeight) ∧
          ∃ stretch ∈ notePieces clickable (line.rowEndX row) none (line.rowPieces row),
            stretch.1 ≤ position.x + line.rowStartX row ∧
              position.x + line.rowStartX row < stretch.2 := by
      simp only [List.mem_map, exists_exists_and_eq_and, contains_stretch]
      exact ⟨fun ⟨s, hs, hy, hx⟩ => ⟨hy, s, hs, hx⟩, fun ⟨hy, s, hs, hx⟩ => ⟨s, hs, hy, hx⟩⟩
    rw [if_neg hempty, hrow, hpieces]
    refine and_congr_right (fun _ => ?_)
    by_cases hstart : line.rowStartX row ≤ position.x + line.rowStartX row
    · rw [and_iff_right hstart]
      exact and_congr_right (fun hend => openAt_rowPieces hstart hend clickable)
    · have hbefore : ∀ piece ∈ line.rowPieces row, position.x + line.rowStartX row < piece.1 :=
        fun piece hpiece => (not_le.mp hstart).trans_le (rowStartX_le piece hpiece)
      rw [openAt_of_lt hbefore]
      simp [hstart]

lemma rowStretches_pairwise (lineHeight : K) (clickable : ℕ → Bool) (row : ℕ) :
    (line.rowStretches lineHeight clickable row).Pairwise (fun a b =>
        a.origin.x + a.size.width < b.origin.x) ∧
      ∀ stretch ∈ line.rowStretches lineHeight clickable row,
        0 < stretch.size.width ∧ stretch.origin.y = lineHeight * row ∧
          stretch.size.height = lineHeight := by
  rw [rowStretches]
  by_cases hempty : line.rowEndX row ≤ line.rowStartX row
  · simp [hempty]
  · have hlt := not_le.mp hempty
    obtain ⟨hpairwise, hwidth, -⟩ : _ ∧ (∀ stretch ∈ notePieces clickable (line.rowEndX row) none
        (line.rowPieces row), stretch.1 < stretch.2) ∧ _ :=
      notePieces_pairwise (line.rowPieces_sorted row) (rowPieces_lt hlt) (by simp) (by simp)
    rw [if_neg hempty, pairwise_map]
    refine ⟨hpairwise.imp (fun h => by dsimp only; linarith), fun stretch hstretch => ?_⟩
    obtain ⟨s, hs, rfl⟩ := List.mem_map.mp hstretch
    exact ⟨sub_pos.mpr (hwidth s hs), rfl, rfl⟩

/-- A point of the line is in a stretch exactly if a click there finds an index that takes it. The
stretches have some width, come row by row, and those of a row one after the other with a gap
between. -/
theorem clickableStretches_iff [FloorSemiring K] (line : WrappedLineLayout K) (lineHeight : K)
    (hheight : 0 < lineHeight) (clickable : ℕ → Bool) :
    (∀ position : Point K, 0 ≤ position.y →
      ((∃ stretch ∈ line.clickableStretches lineHeight clickable,
          stretch.contains position = true) ↔
        ∃ index, line.indexForPosition position lineHeight = .ok index ∧ clickable index = true)) ∧
      (∀ stretch ∈ line.clickableStretches lineHeight clickable,
        0 < stretch.size.width ∧ stretch.size.height = lineHeight) ∧
        (line.clickableStretches lineHeight clickable).Pairwise (fun a b =>
          a.origin.y + lineHeight ≤ b.origin.y ∨
            a.origin.y = b.origin.y ∧ a.origin.x + a.size.width < b.origin.x) := by
  refine ⟨fun position hy => ?_, fun stretch hstretch => ?_, ?_⟩
  · have hrow : ∀ row : ℕ, (lineHeight * row ≤ position.y ∧
        position.y < lineHeight * row + lineHeight) ↔ row = ⌊position.y / lineHeight⌋₊ := by
      intro row
      rw [eq_comm, Nat.floor_eq_iff (div_nonneg hy hheight.le), le_div_iff₀ hheight,
        div_lt_iff₀ hheight, add_mul, one_mul, mul_comm]
    have hmem : (∃ stretch ∈ line.clickableStretches lineHeight clickable,
        stretch.contains position = true) ↔ ∃ row ≤ line.wrapBoundaries.length,
          ∃ stretch ∈ line.rowStretches lineHeight clickable row,
            stretch.contains position = true := by
      simp only [clickableStretches, mem_flatMap, mem_range, Nat.lt_succ_iff]
      exact ⟨fun ⟨s, ⟨row, hle, hs⟩, h⟩ => ⟨row, hle, s, hs, h⟩,
        fun ⟨row, hle, s, hs, h⟩ => ⟨s, ⟨row, hle, hs⟩, h⟩⟩
    rw [hmem]
    simp only [mem_rowStretches, hrow, indexForPosition_eq_ok]
    constructor
    · rintro ⟨row, hle, heq, hstart, hend, hclick⟩
      exact ⟨_, ⟨row, hle, heq, hstart, hend, rfl⟩, hclick⟩
    · rintro ⟨_, ⟨row, hle, heq, hstart, hend, rfl⟩, hclick⟩
      exact ⟨row, hle, heq, hstart, hend, hclick⟩
  · obtain ⟨row, -, hstretch⟩ := mem_flatMap.mp hstretch
    have h := (rowStretches_pairwise lineHeight clickable row).2 stretch hstretch
    exact ⟨h.1, h.2.2⟩
  · rw [clickableStretches, pairwise_flatMap]
    constructor
    · intro row _
      have h := line.rowStretches_pairwise lineHeight clickable row
      refine h.1.imp_of_mem (fun {a b} ha hb hab => .inr ⟨?_, hab⟩)
      rw [(h.2 a ha).2.1, (h.2 b hb).2.1]
    · -- a later row is at least a line lower
      refine pairwise_lt_range.imp (fun {row later} hlt a ha b hb => .inl ?_)
      rw [((line.rowStretches_pairwise lineHeight clickable row).2 a ha).2.1,
        ((line.rowStretches_pairwise lineHeight clickable later).2 b hb).2.1]
      have hcast : (row : K) + 1 ≤ later := by exact_mod_cast hlt
      nlinarith

/-- Two words from right to left, of which the first takes clicks. -/
theorem clickableStretches_iff_rightToLeft :
    let line : WrappedLineLayout ℚ := ⟨⟨16, 30, 12, 4,
      [⟨1, [⟨1, ⟨0, 0⟩, 2, false⟩, ⟨2, ⟨10, 0⟩, 1, false⟩, ⟨3, ⟨20, 0⟩, 0, false⟩]⟩], 3⟩, [], none⟩
    (∃ stretch ∈ line.clickableStretches 16 (· = 0), stretch.contains ⟨25, 3⟩ = true) ↔
      ∃ index, line.indexForPosition ⟨25, 3⟩ 16 = .ok index ∧ decide (index = 0) = true := by
  intro line
  exact (clickableStretches_iff line 16 (by norm_num) (· = 0)).1 ⟨25, 3⟩ (by norm_num)

end WrappedLineLayout

end GpuiFast
