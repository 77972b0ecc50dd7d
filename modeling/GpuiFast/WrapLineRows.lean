import GpuiFast.WrapLine

namespace GpuiFast

open List

variable {K : Type*}

def placeAll : Segments → List (WrapBoundaryCandidate K) → List (PlacedCandidate K)
  | _, [] => []
  | segments, candidate :: candidates =>
    (segments.place candidate).2 :: placeAll (segments.place candidate).1 candidates

def lineItems (items : List (PlacedCandidate K)) : List (PlacedCandidate K) :=
  items.filter (fun item => !item.candidate.isNewline)

def Ascending (items : List (PlacedCandidate K)) : Prop :=
  items.Pairwise (fun a b => a.ix ≤ b.ix ∧ (b.isGraphemeBoundary = true → a.ix < b.ix))

namespace Segments

variable (segments : Segments) (candidate : WrapBoundaryCandidate K)

theorem place_graphemeIndices (hsorted : segments.graphemeIndices.Pairwise (· < ·)) :
    (segments.place candidate).1.graphemeIndices.Pairwise (· < ·) ∧
      (∀ g ∈ (segments.place candidate).1.graphemeIndices,
        g ∈ segments.graphemeIndices ∧ segments.index < g) := by
  have hdrop := dropWhile_sublist (fun g => decide (g < segments.index))
    (l := segments.graphemeIndices)
  have hsorted' := hsorted.sublist hdrop
  have hhead := head?_dropWhile_not (fun g => decide (g < segments.index))
    segments.graphemeIndices
  simp only [place]
  generalize segments.graphemeIndices.dropWhile (fun g => decide (g < segments.index)) = left
    at hdrop hsorted' hhead ⊢
  cases left with
  | nil => simp
  | cons first left =>
    rw [pairwise_cons] at hsorted'
    have hfirst : segments.index ≤ first := by simpa using hhead
    by_cases hat : first = segments.index
    · rw [if_pos (by simp [hat]), tail_cons]
      refine ⟨hsorted'.2, ?_⟩
      intro g hg
      have hlt := hsorted'.1 g hg
      exact ⟨hdrop.subset (by simp [hg]), by omega⟩
    · rw [if_neg (by simp [hat])]
      refine ⟨pairwise_cons.mpr hsorted', ?_⟩
      intro g hg
      refine ⟨hdrop.subset hg, ?_⟩
      rcases mem_cons.mp hg with rfl | hg
      · omega
      · have hlt := hsorted'.1 g hg
        omega

theorem place_isGraphemeBoundary (hstart : (segments.place candidate).2.isGraphemeBoundary = true) :
    segments.index ∈ segments.graphemeIndices := by
  have hhead : (segments.graphemeIndices.dropWhile
      (fun g => decide (g < segments.index))).head? = some segments.index := by
    simpa [place] using hstart
  exact (dropWhile_sublist _).subset (mem_of_mem_head? hhead)

end Segments

variable {segments : Segments}

variable {candidates : List (WrapBoundaryCandidate K)} {item : PlacedCandidate K}

theorem mem_placeAll (hsorted : segments.graphemeIndices.Pairwise (· < ·))
    (hitem : item ∈ placeAll segments candidates) :
    segments.index ≤ item.ix ∧
      (item.isGraphemeBoundary = true → item.ix ∈ segments.graphemeIndices) := by
  induction candidates generalizing segments with
  | nil => simp [placeAll] at hitem
  | cons candidate candidates ih =>
    rcases mem_cons.mp hitem with rfl | hitem
    · exact ⟨le_rfl, segments.place_isGraphemeBoundary candidate⟩
    · obtain ⟨hsorted', hmem⟩ := segments.place_graphemeIndices candidate hsorted
      obtain ⟨hix, hstart⟩ := ih hsorted' hitem
      refine ⟨?_, fun h => (hmem _ (hstart h)).1⟩
      have hindex : segments.index ≤ (segments.place candidate).1.index := Nat.le_add_right _ _
      exact hindex.trans hix

theorem candidate_mem_of_mem_placeAll (hitem : item ∈ placeAll segments candidates) :
    item.candidate ∈ candidates := by
  induction candidates generalizing segments with
  | nil => simp [placeAll] at hitem
  | cons candidate candidates ih =>
    rcases mem_cons.mp hitem with rfl | hitem
    · exact mem_cons_self
    · exact mem_cons_of_mem _ (ih hitem)

theorem placeAll_ascending (candidates : List (WrapBoundaryCandidate K))
    (hsorted : segments.graphemeIndices.Pairwise (· < ·)) :
    Ascending (placeAll segments candidates) := by
  induction candidates generalizing segments with
  | nil => exact Pairwise.nil
  | cons candidate candidates ih =>
    obtain ⟨hsorted', hmem⟩ := segments.place_graphemeIndices candidate hsorted
    refine pairwise_cons.mpr ⟨?_, ih hsorted'⟩
    intro item hitem
    obtain ⟨hix, hstart⟩ := mem_placeAll hsorted' hitem
    have hindex : segments.index ≤ (segments.place candidate).1.index := Nat.le_add_right _ _
    exact ⟨hindex.trans hix, fun h => (hmem _ (hstart h)).2⟩

def itemsFrom (start : ℕ) (items : List (PlacedCandidate K)) : List (PlacedCandidate K) :=
  items.filter (fun item => decide (start ≤ item.ix))

def itemsBetween (start stop : ℕ) (items : List (PlacedCandidate K)) : List (PlacedCandidate K) :=
  items.filter (fun item => decide (start ≤ item.ix) && decide (item.ix < stop))

section Stretches

variable {items : List (PlacedCandidate K)} {start stop : ℕ}

theorem itemsFrom_eq_append (hitems : Ascending items) (hle : start ≤ stop) :
    itemsFrom start items = itemsBetween start stop items ++ itemsFrom stop items := by
  induction items with
  | nil => rfl
  | cons item items ih =>
    rw [Ascending, pairwise_cons] at hitems
    have hrest := ih hitems.2
    simp only [itemsFrom, itemsBetween, filter_cons] at hrest ⊢
    rcases lt_or_ge item.ix start with hlt | hge
    · rw [if_neg (by simpa using hlt), if_neg (by simp; omega), if_neg (by simp; omega)]
      exact hrest
    · rcases lt_or_ge item.ix stop with hlt' | hge'
      · rw [if_pos (by simpa using hge), if_pos (by simp; omega), if_neg (by simpa using hlt'),
          hrest, cons_append]
      · -- all that follows is past the stop too
        have hnone : items.filter
            (fun item => decide (start ≤ item.ix) && decide (item.ix < stop)) = [] := by
          rw [filter_eq_nil_iff]
          intro b hb
          have hb' := (hitems.1 b hb).1
          simp
          omega
        rw [if_pos (by simpa using hge), if_neg (by simp; omega), if_pos (by simpa using hge'),
          hrest, hnone, nil_append, nil_append]

theorem itemsBetween_eq_append {middle : ℕ} (hitems : Ascending items) (hle : start ≤ middle)
    (hle' : middle ≤ stop) :
    itemsBetween start stop items =
      itemsBetween start middle items ++ itemsBetween middle stop items := by
  have hfilter : ∀ first, itemsBetween first stop items =
      (itemsFrom first items).filter (fun item => decide (item.ix < stop)) := by
    intro first
    rw [itemsBetween, itemsFrom, filter_filter]
    congr 1
    funext item
    exact Bool.and_comm _ _
  rw [hfilter, hfilter, itemsFrom_eq_append hitems hle, filter_append]
  congr 1
  rw [filter_eq_self]
  intro item hitem
  have hlt := (mem_filter.mp hitem).2
  simp at hlt ⊢
  omega

theorem itemsFrom_concat {item : PlacedCandidate K} (hle : start ≤ item.ix) :
    itemsFrom start (items ++ [item]) = itemsFrom start items ++ [item] := by
  simp [itemsFrom, hle]

theorem itemsBetween_append {later : List (PlacedCandidate K)}
    (hlater : ∀ item ∈ later, stop ≤ item.ix) :
    itemsBetween start stop (items ++ later) = itemsBetween start stop items := by
  have hnone : itemsBetween start stop later = [] := by
    rw [itemsBetween, filter_eq_nil_iff]
    intro item hitem
    have hge := hlater item hitem
    simp
    omega
  rw [itemsBetween, filter_append]
  exact (congrArg _ hnone).trans (append_nil _)

theorem itemsBetween_eq_itemsFrom (hbefore : ∀ item ∈ items, item.ix < stop) :
    itemsBetween start stop items = itemsFrom start items := by
  apply filter_congr
  intro item hitem
  simp [hbefore item hitem]

@[simp]
theorem itemsBetween_self : itemsBetween start start items = [] := by
  rw [itemsBetween, filter_eq_nil_iff]
  intro item _
  simp

def IsSingle (items : List (PlacedCandidate K)) : Prop :=
  items.length ≤ 1 ∨ ((∀ item ∈ items, item.candidate.isElement = false) ∧
    ∀ item ∈ items.tail, item.isGraphemeBoundary = false)

instance (items : List (PlacedCandidate K)) : Decidable (IsSingle items) :=
  inferInstanceAs (Decidable (_ ∨ _))

theorem IsSingle.of_append {a b : List (PlacedCandidate K)} (h : IsSingle (a ++ b)) :
    IsSingle a := by
  rcases h with hlen | ⟨helement, hstart⟩
  · left
    rw [length_append] at hlen
    omega
  · cases a with
    | nil => exact .inl (by simp)
    | cons item a =>
      refine .inr ⟨fun i hi => helement i (mem_append_left _ hi), ?_⟩
      intro i hi
      exact hstart i (mem_append_left _ hi)

end Stretches

structure LineRow (K : Type*) where
  indent : ℕ
  items : List (PlacedCandidate K)

def lineRows (items : List (PlacedCandidate K)) : Boundary → List Boundary → List (LineRow K)
  | start, [] => [⟨start.nextIndent, itemsFrom start.ix items⟩]
  | start, next :: boundaries =>
    ⟨start.nextIndent, itemsBetween start.ix next.ix items⟩ :: lineRows items next boundaries

def continuesGrapheme : List (PlacedCandidate K) → Bool
  | [] => false
  | item :: rest =>
    !item.isGraphemeBoundary && (!item.candidate.isNewline || continuesGrapheme rest)

namespace WrapLineState

variable (s : WrapLineState K) (item : PlacedCandidate K)

theorem note_frame : (s.note item).width = s.width ∧ (s.note item).lastWrapIx = s.lastWrapIx := by
  unfold note
  split <;> dsimp only <;> split <;> exact ⟨rfl, rfl⟩

theorem note_start (hstart : item.isGraphemeBoundary = true) :
    (s.note item).graphemeIndex = item.ix ∧ (s.note item).widthBeforeGrapheme = s.width ∧
      (((s.note item).lastCandidateIx = item.ix ∧ (s.note item).lastCandidateWidth = s.width) ∨
        ((s.note item).lastCandidateIx = s.lastCandidateIx ∧
          (s.note item).lastCandidateWidth = s.lastCandidateWidth)) := by
  unfold note
  rw [if_pos hstart]
  dsimp only
  split
  · exact ⟨rfl, rfl, .inl ⟨rfl, rfl⟩⟩
  · exact ⟨rfl, rfl, .inr ⟨rfl, rfl⟩⟩

theorem note_continue (hstart : item.isGraphemeBoundary = false) : s.note item = s := by
  simp [note, hstart]

theorem note_mem {graphemeIndices : List ℕ}
    (hitem : item.isGraphemeBoundary = true → item.ix ∈ graphemeIndices)
    (hgrapheme : s.lastWrapIx < s.graphemeIndex → s.graphemeIndex ∈ graphemeIndices)
    (hcandidate : s.lastWrapIx < s.lastCandidateIx → s.lastCandidateIx ∈ graphemeIndices) :
    let t := s.note item
    (t.lastWrapIx < t.graphemeIndex → t.graphemeIndex ∈ graphemeIndices) ∧
      (t.lastWrapIx < t.lastCandidateIx → t.lastCandidateIx ∈ graphemeIndices) := by
  cases hstart : item.isGraphemeBoundary with
  | false =>
    rw [s.note_continue item hstart]
    exact ⟨hgrapheme, hcandidate⟩
  | true =>
    obtain ⟨-, hwrap⟩ := s.note_frame item
    obtain ⟨hix, -, hnoted⟩ := s.note_start item hstart
    dsimp only
    rw [hwrap, hix]
    refine ⟨fun _ => hitem hstart, ?_⟩
    rcases hnoted with ⟨hix, -⟩ | ⟨hix, -⟩
    · rw [hix]
      exact fun _ => hitem hstart
    · rw [hix]
      exact hcandidate

end WrapLineState

variable [Field K]

def itemsWidth (widthForChar : Char → K) (items : List (PlacedCandidate K)) : K :=
  (items.map (fun item => item.candidate.itemWidth widthForChar)).sum

section Widths

variable {widthForChar : Char → K}

@[simp]
theorem itemsWidth_nil : itemsWidth widthForChar [] = 0 := rfl

@[simp]
theorem itemsWidth_singleton (item : PlacedCandidate K) :
    itemsWidth widthForChar [item] = item.candidate.itemWidth widthForChar := by
  simp [itemsWidth]

@[simp]
theorem itemsWidth_append (a b : List (PlacedCandidate K)) :
    itemsWidth widthForChar (a ++ b) = itemsWidth widthForChar a + itemsWidth widthForChar b := by
  simp [itemsWidth]

end Widths

def WrapLineState.rebase (s : WrapLineState K) (ix : ℕ) (before indentWidth : K) :
    WrapLineState K :=
  { s with
    baseIndent := s.baseIndentAt
    lastWrapIx := ix
    width := s.width - before + indentWidth
    widthBeforeGrapheme := s.widthBeforeGrapheme - before + indentWidth
    lastCandidateIx := 0 }

/-- Where the wrapping of a line stands: how far the open row is indented, the items taken and
those to come. -/
structure WalksLine (widthForChar : Char → K) (s : WrapLineState K) (indent : ℕ)
    (done rest : List (PlacedCandidate K)) : Prop where
  width : s.width =
    widthForChar ' ' * indent + itemsWidth widthForChar (itemsFrom s.lastWrapIx done)
  before : s.widthBeforeGrapheme = widthForChar ' ' * indent +
    itemsWidth widthForChar (itemsBetween s.lastWrapIx s.graphemeIndex done)
  candidate : s.lastWrapIx < s.lastCandidateIx → s.lastCandidateWidth =
    widthForChar ' ' * indent +
      itemsWidth widthForChar (itemsBetween s.lastWrapIx s.lastCandidateIx done)
  wrapped : s.lastWrapIx ≤ s.graphemeIndex
  candidate_le : s.lastCandidateIx ≤ s.graphemeIndex
  ascending : Ascending (done ++ rest)
  ahead : ∀ item ∈ rest, s.graphemeIndex ≤ item.ix

namespace WalksLine

variable {widthForChar : Char → K} {s : WrapLineState K} {indent : ℕ}
  {done rest : List (PlacedCandidate K)} {item : PlacedCandidate K}

theorem ascending_done (hs : WalksLine widthForChar s indent done rest) : Ascending done :=
  hs.ascending.sublist (sublist_append_left _ _)

section

variable (hs : WalksLine widthForChar s indent done (item :: rest))
include hs

theorem done_lt (hstart : item.isGraphemeBoundary = true) : ∀ a ∈ done, a.ix < item.ix := by
  have hascending := hs.ascending
  rw [Ascending, pairwise_append] at hascending
  intro a ha
  exact (hascending.2.2 a ha item (by simp)).2 hstart

theorem note : WalksLine widthForChar (s.note item) indent done (item :: rest) := by
  cases hstart : item.isGraphemeBoundary with
  | false =>
    rw [s.note_continue item hstart]
    exact hs
  | true =>
    obtain ⟨hwidth, hwrap⟩ := s.note_frame item
    obtain ⟨hgrapheme, hbefore, hcandidate⟩ := s.note_start item hstart
    have hascending := hs.ascending
    rw [Ascending, pairwise_append, pairwise_cons] at hascending
    have hdone := hs.done_lt hstart
    have hix : s.graphemeIndex ≤ item.ix := hs.ahead item (by simp)
    refine ⟨?_, ?_, ?_, ?_, ?_, hs.ascending, ?_⟩
    · rw [hwidth, hwrap]
      exact hs.width
    · rw [hbefore, hwrap, hgrapheme, itemsBetween_eq_itemsFrom hdone]
      exact hs.width
    · rw [hwrap]
      rcases hcandidate with ⟨hcandidate, hlast⟩ | ⟨hcandidate, hlast⟩
      · intro _
        rw [hlast, hcandidate, itemsBetween_eq_itemsFrom hdone]
        exact hs.width
      · rw [hlast, hcandidate]
        exact hs.candidate
    · rw [hwrap, hgrapheme]
      exact hs.wrapped.trans hix
    · rw [hgrapheme]
      have hle := hs.candidate_le
      rcases hcandidate with ⟨hcandidate, -⟩ | ⟨hcandidate, -⟩ <;> omega
    · rw [hgrapheme]
      intro b hb
      rcases mem_cons.mp hb with rfl | hb
      · exact le_rfl
      · exact (hascending.2.1.1 b hb).1

theorem skip : WalksLine widthForChar s indent done rest := by
  have hsub : (done ++ rest).Sublist (done ++ item :: rest) :=
    (sublist_cons_self item rest).append_left _
  exact ⟨hs.width, hs.before, hs.candidate, hs.wrapped, hs.candidate_le,
    hs.ascending.sublist hsub, fun b hb => hs.ahead b (by simp [hb])⟩

theorem push : WalksLine widthForChar (s.push widthForChar item) indent (done ++ [item]) rest := by
  have hix : s.graphemeIndex ≤ item.ix := hs.ahead item (by simp)
  have hlater : ∀ stop, stop ≤ s.graphemeIndex → ∀ b ∈ [item], stop ≤ b.ix := by
    intro stop hstop b hb
    rw [mem_singleton.mp hb]
    omega
  refine ⟨?_, ?_, ?_, hs.wrapped, hs.candidate_le, ?_, fun b hb => hs.ahead b (by simp [hb])⟩
  · change s.width + _ = _
    rw [hs.width, WrapLineState.push, itemsFrom_concat (hs.wrapped.trans hix), itemsWidth_append,
      itemsWidth_singleton, add_assoc]
  · have hsame := hs.before
    rwa [← itemsBetween_append (hlater s.graphemeIndex le_rfl)] at hsame
  · intro hlt
    have hsame := hs.candidate hlt
    rwa [← itemsBetween_append (hlater s.lastCandidateIx hs.candidate_le)] at hsame
  · rw [append_assoc, singleton_append]
    exact hs.ascending

variable {P : K → List (PlacedCandidate K) → Prop}

theorem note_before
    (hopen : item.isGraphemeBoundary = true → P s.width (itemsFrom s.lastWrapIx done))
    (hcontinue : item.isGraphemeBoundary = false → s.lastWrapIx < s.graphemeIndex →
      P s.widthBeforeGrapheme (itemsBetween s.lastWrapIx s.graphemeIndex done)) :
    let t := s.note item
    t.lastWrapIx < t.graphemeIndex →
      P t.widthBeforeGrapheme (itemsBetween t.lastWrapIx t.graphemeIndex done) := by
  dsimp only
  cases hstart : item.isGraphemeBoundary with
  | false =>
    rw [s.note_continue item hstart]
    exact hcontinue hstart
  | true =>
    obtain ⟨-, hwrap⟩ := s.note_frame item
    obtain ⟨hgrapheme, hbefore, -⟩ := s.note_start item hstart
    rw [hgrapheme, hbefore, hwrap, itemsBetween_eq_itemsFrom (hs.done_lt hstart)]
    exact fun _ => hopen hstart

theorem note_candidate
    (hopen : item.isGraphemeBoundary = true → P s.width (itemsFrom s.lastWrapIx done))
    (hcandidate : s.lastWrapIx < s.lastCandidateIx →
      P s.lastCandidateWidth (itemsBetween s.lastWrapIx s.lastCandidateIx done)) :
    let t := s.note item
    t.lastWrapIx < t.lastCandidateIx →
      P t.lastCandidateWidth (itemsBetween t.lastWrapIx t.lastCandidateIx done) := by
  dsimp only
  cases hstart : item.isGraphemeBoundary with
  | false =>
    rw [s.note_continue item hstart]
    exact hcandidate
  | true =>
    obtain ⟨-, hwrap⟩ := s.note_frame item
    obtain ⟨-, -, hnoted⟩ := s.note_start item hstart
    rcases hnoted with ⟨hix, hlast⟩ | ⟨hix, hlast⟩
    · rw [hwrap, hix, hlast, itemsBetween_eq_itemsFrom (hs.done_lt hstart)]
      exact fun _ => hopen hstart
    · rw [hwrap, hix, hlast]
      exact hcandidate

end

end WalksLine

variable [LinearOrder K]

/-- Items of a width, with the indent before them, are no wider than a row unless they are a single
grapheme or element. -/
def ItemsFit (wrapWidth width : K) (items : List (PlacedCandidate K)) : Prop :=
  width ≤ wrapWidth ∨ IsSingle items

instance (wrapWidth width : K) (items : List (PlacedCandidate K)) :
    Decidable (ItemsFit wrapWidth width items) := inferInstanceAs (Decidable (_ ∨ _))

def OpenFits (wrapWidth : K) (s : WrapLineState K) (done rest : List (PlacedCandidate K)) : Prop :=
  ItemsFit wrapWidth s.width (itemsFrom s.lastWrapIx done) ∨
    (s.lastWrapIx < s.graphemeIndex ∧ continuesGrapheme rest = true ∧
      ItemsFit wrapWidth s.widthBeforeGrapheme
        (itemsBetween s.lastWrapIx s.graphemeIndex done))

def LineRow.Fits (widthForChar : Char → K) (wrapWidth : K) (row : LineRow K) : Prop :=
  ItemsFit wrapWidth
    (widthForChar ' ' * row.indent + itemsWidth widthForChar row.items) row.items

structure WrapsToFit (segmenters : Segmenters) (widthForChar : Char → K)
    (fragments : List (LineFragment K)) (wrapWidth : K) (boundaries : List Boundary) : Prop where
  increasing : boundaries.Pairwise (fun a b => a.ix < b.ix)
  graphemes : ∀ boundary ∈ boundaries,
    boundary.ix ∈ segmenters.graphemeIndices (fragmentsText fragments)
  fits : ∀ row ∈ lineRows (lineItems (placeAll (segmenters.start fragments)
    (fragments.flatMap (·.wrapBoundaryCandidates)))) ⟨0, 0⟩ boundaries,
    row.Fits widthForChar wrapWidth

/-- What is open in a row after an item makes it stick out. A row that is wrapped before its last
candidate carries over what fits with the indent, or a single grapheme or element, or more only if
it is wrapped again within the same grapheme. Another row that starts with the grapheme of the item
fits or is no more than a grapheme or an element. -/
def stepFits (widthForChar : Char → K) (wrapWidth : K) (adjustment : IndentAdjustment)
    (s : WrapLineState K) (done : List (PlacedCandidate K)) (item : PlacedCandidate K)
    (rest : List (PlacedCandidate K)) : Prop :=
  let s := (s.note item).push widthForChar item
  let done := done ++ [item]
  let indentWidth := widthForChar ' ' * s.nextIndent widthForChar wrapWidth adjustment
  wrapWidth < s.width →
    if s.graphemeIndex ≤ s.lastWrapIx then IsSingle (itemsFrom s.lastWrapIx done)
    else if s.wrapAtCandidate wrapWidth then
      ItemsFit wrapWidth (s.width - s.lastCandidateWidth + indentWidth)
        (itemsFrom s.lastCandidateIx done) ∨
      (s.lastCandidateIx < s.graphemeIndex ∧ continuesGrapheme rest = true ∧
        ItemsFit wrapWidth (s.widthBeforeGrapheme - s.lastCandidateWidth + indentWidth)
          (itemsBetween s.lastCandidateIx s.graphemeIndex done))
    else
      ItemsFit wrapWidth (s.width - s.widthBeforeGrapheme + indentWidth)
        (itemsFrom s.graphemeIndex done)

/-- Every step leaves a row that fits, given the items taken so far. -/
def carriesFit (widthForChar : Char → K) (wrapWidth : K) (adjustment : IndentAdjustment) :
    WrapLineState K → List (PlacedCandidate K) → List (PlacedCandidate K) → Prop
  | _, _, [] => True
  | s, done, item :: rest =>
    if item.candidate.isNewline then
      carriesFit widthForChar wrapWidth adjustment (s.note item) done rest
    else
      stepFits widthForChar wrapWidth adjustment s done item rest ∧
        carriesFit widthForChar wrapWidth adjustment
          (s.take widthForChar wrapWidth adjustment item).1 (done ++ [item]) rest

def wrapPlaced (widthForChar : Char → K) (wrapWidth : K) (adjustment : IndentAdjustment) :
    WrapLineState K → List (PlacedCandidate K) → List Boundary
  | _, [] => []
  | s, item :: rest =>
    (s.take widthForChar wrapWidth adjustment item).2.toList ++
      wrapPlaced widthForChar wrapWidth adjustment
        (s.take widthForChar wrapWidth adjustment item).1 rest

theorem wrapCandidates_eq_wrapPlaced (widthForChar : Char → K) (wrapWidth : K)
    (adjustment : IndentAdjustment) (segments : Segments) (s : WrapLineState K)
    (candidates : List (WrapBoundaryCandidate K)) :
    wrapCandidates widthForChar wrapWidth adjustment segments s candidates =
      wrapPlaced widthForChar wrapWidth adjustment s (placeAll segments candidates) := by
  induction candidates generalizing segments s with
  | nil => rfl
  | cons candidate candidates ih =>
    rw [wrapCandidates, placeAll, wrapPlaced, ih]

namespace WalksLine

variable {widthForChar : Char → K} {s : WrapLineState K} {indent : ℕ}
  {done rest : List (PlacedCandidate K)} {item : PlacedCandidate K} {wrapWidth : K}
  {adjustment : IndentAdjustment}

variable (wrapWidth adjustment) in
theorem wrap_eq (hs : WalksLine widthForChar s indent done rest)
    (hgrapheme : s.lastWrapIx < s.graphemeIndex) :
    ∃ (ix : ℕ) (before : K), s.lastWrapIx < ix ∧ ix ≤ s.graphemeIndex ∧
      before = widthForChar ' ' * indent +
        itemsWidth widthForChar (itemsBetween s.lastWrapIx ix done) ∧
      s.wrap widthForChar wrapWidth adjustment =
        (s.rebase ix before (widthForChar ' ' * s.nextIndent widthForChar wrapWidth adjustment),
          ⟨ix, s.nextIndent widthForChar wrapWidth adjustment⟩) ∧
      ((s.wrapAtCandidate wrapWidth = true ∧ ix = s.lastCandidateIx ∧
          before = s.lastCandidateWidth) ∨
        (s.wrapAtCandidate wrapWidth = false ∧ ix = s.graphemeIndex ∧
          before = s.widthBeforeGrapheme)) := by
  cases hcandidate : s.wrapAtCandidate wrapWidth with
  | true =>
    have hlt : s.lastWrapIx < s.lastCandidateIx := by
      rw [WrapLineState.wrapAtCandidate, Bool.and_eq_true, decide_eq_true_eq] at hcandidate
      exact hcandidate.1
    refine ⟨s.lastCandidateIx, s.lastCandidateWidth, hlt, hs.candidate_le, hs.candidate hlt, ?_,
      .inl ⟨rfl, rfl, rfl⟩⟩
    rw [WrapLineState.wrap, if_pos hcandidate, WrapLineState.rebase]
  | false =>
    refine ⟨s.graphemeIndex, s.widthBeforeGrapheme, hgrapheme, le_rfl, hs.before, ?_,
      .inr ⟨rfl, rfl, rfl⟩⟩
    rw [WrapLineState.wrap, if_neg (by simp [hcandidate]), WrapLineState.rebase, sub_self,
      zero_add]

variable {ix : ℕ}

variable {before : K}

omit [LinearOrder K] in
theorem rebase (hs : WalksLine widthForChar s indent done rest) (hlt : s.lastWrapIx < ix)
    (hle : ix ≤ s.graphemeIndex) (hbefore : before = widthForChar ' ' * indent +
      itemsWidth widthForChar (itemsBetween s.lastWrapIx ix done)) (next : ℕ) :
    WalksLine widthForChar (s.rebase ix before (widthForChar ' ' * next)) next done rest := by
  refine ⟨?_, ?_, ?_, hle, Nat.zero_le _, hs.ascending, hs.ahead⟩
  · change s.width - before + widthForChar ' ' * next = _
    rw [hs.width, hbefore, itemsFrom_eq_append hs.ascending_done hlt.le, itemsWidth_append]
    simp only [WrapLineState.rebase]
    ring
  · change s.widthBeforeGrapheme - before + widthForChar ' ' * next = _
    rw [hs.before, hbefore, itemsBetween_eq_append hs.ascending_done hlt.le hle, itemsWidth_append]
    simp only [WrapLineState.rebase]
    ring
  · intro habove
    exact absurd habove (Nat.not_lt_zero _)

omit [Field K] [LinearOrder K] in
theorem lineItems_newline (hnewline : item.candidate.isNewline = true) :
    lineItems (item :: rest) = lineItems rest := by
  simp [lineItems, hnewline]

omit [Field K] [LinearOrder K] in
theorem append_lineItems (hnewline : ¬ item.candidate.isNewline = true) :
    done ++ lineItems (item :: rest) = (done ++ [item]) ++ lineItems rest := by
  simp [lineItems, hnewline]

omit [LinearOrder K] in
theorem lineRows_close (hs : WalksLine widthForChar s indent done rest) {next : ℕ}
    (hix : ix ≤ s.graphemeIndex) (boundaries : List Boundary) :
    lineRows (done ++ lineItems rest) ⟨s.lastWrapIx, indent⟩ (⟨ix, next⟩ :: boundaries) =
      ⟨indent, itemsBetween s.lastWrapIx ix done⟩ ::
        lineRows (done ++ lineItems rest) ⟨ix, next⟩ boundaries := by
  have hlater : ∀ b ∈ lineItems rest, ix ≤ b.ix := fun b hb =>
    hix.trans (hs.ahead b (mem_of_mem_filter hb))
  rw [lineRows, itemsBetween_append hlater]

theorem take_newline (hnewline : item.candidate.isNewline = true) :
    s.take widthForChar wrapWidth adjustment item = (s.note item, none) := by
  rw [WrapLineState.take]
  exact if_pos hnewline

theorem rows_newline (hnewline : item.candidate.isNewline = true) :
    lineRows (done ++ lineItems (item :: rest)) ⟨s.lastWrapIx, indent⟩
        (wrapPlaced widthForChar wrapWidth adjustment s (item :: rest)) =
      lineRows (done ++ lineItems rest) ⟨(s.note item).lastWrapIx, indent⟩
        (wrapPlaced widthForChar wrapWidth adjustment (s.note item) rest) := by
  rw [wrapPlaced, take_newline hnewline, lineItems_newline hnewline, (s.note_frame item).2]
  rfl

theorem take_item (hnewline : ¬ item.candidate.isNewline = true) :
    let t := (s.note item).push widthForChar item
    s.take widthForChar wrapWidth adjustment item =
      if wrapWidth < t.width ∧ t.lastWrapIx < t.graphemeIndex then
        ((t.wrap widthForChar wrapWidth adjustment).1,
          some (t.wrap widthForChar wrapWidth adjustment).2)
      else (t, none) := by
  rw [WrapLineState.take]
  exact if_neg hnewline

variable (indent done rest adjustment) in
theorem rows_stay (hnewline : ¬ item.candidate.isNewline = true)
    (hstay : ¬ (wrapWidth < ((s.note item).push widthForChar item).width ∧
      (s.note item).lastWrapIx < (s.note item).graphemeIndex)) :
    let t := (s.note item).push widthForChar item
    (s.take widthForChar wrapWidth adjustment item).1 = t ∧
      lineRows (done ++ lineItems (item :: rest)) ⟨s.lastWrapIx, indent⟩
          (wrapPlaced widthForChar wrapWidth adjustment s (item :: rest)) =
        lineRows ((done ++ [item]) ++ lineItems rest) ⟨t.lastWrapIx, indent⟩
          (wrapPlaced widthForChar wrapWidth adjustment t rest) := by
  have htake : s.take widthForChar wrapWidth adjustment item =
      ((s.note item).push widthForChar item, none) :=
    (take_item hnewline).trans (if_neg hstay)
  refine ⟨congrArg Prod.fst htake, ?_⟩
  rw [wrapPlaced, htake, append_lineItems hnewline]
  change lineRows _ ⟨s.lastWrapIx, indent⟩ _ = lineRows _ ⟨(s.note item).lastWrapIx, indent⟩ _
  rw [(s.note_frame item).2]
  rfl

variable (adjustment) in
theorem rows_wrap (hs : WalksLine widthForChar s indent done (item :: rest))
    (hnewline : ¬ item.candidate.isNewline = true)
    (hwide : wrapWidth < ((s.note item).push widthForChar item).width)
    (hgrapheme : (s.note item).lastWrapIx < (s.note item).graphemeIndex) :
    let t := (s.note item).push widthForChar item
    let next := t.nextIndent widthForChar wrapWidth adjustment
    ∃ (ix : ℕ) (before : K),
      let u := t.rebase ix before (widthForChar ' ' * next)
      (s.take widthForChar wrapWidth adjustment item).1 = u ∧
      WalksLine widthForChar u next (done ++ [item]) rest ∧
      lineRows (done ++ lineItems (item :: rest)) ⟨s.lastWrapIx, indent⟩
          (wrapPlaced widthForChar wrapWidth adjustment s (item :: rest)) =
        ⟨indent, itemsBetween t.lastWrapIx ix done⟩ ::
          lineRows ((done ++ [item]) ++ lineItems rest) ⟨u.lastWrapIx, next⟩
            (wrapPlaced widthForChar wrapWidth adjustment u rest) ∧
      before = widthForChar ' ' * indent +
        itemsWidth widthForChar (itemsBetween t.lastWrapIx ix done) ∧
      t.lastWrapIx < ix ∧ ix ≤ t.graphemeIndex ∧
      ((t.wrapAtCandidate wrapWidth = true ∧ ix = t.lastCandidateIx ∧
          before = t.lastCandidateWidth) ∨
        (t.wrapAtCandidate wrapWidth = false ∧ ix = t.graphemeIndex ∧
          before = t.widthBeforeGrapheme)) := by
  dsimp only
  have hpush := hs.note.push
  obtain ⟨ix, before, hlt, hle, hbefore, hwrap, hcases⟩ := hpush.wrap_eq wrapWidth adjustment hgrapheme
  have hdone : itemsBetween (s.note item).lastWrapIx ix (done ++ [item]) =
      itemsBetween (s.note item).lastWrapIx ix done := by
    apply itemsBetween_append
    intro b hb
    rw [mem_singleton.mp hb]
    exact hle.trans (hs.note.ahead item (by simp))
  refine ⟨ix, before, ?_, hpush.rebase hlt hle hbefore _, ?_, ?_, hlt, hle, hcases⟩
  · rw [take_item hnewline, if_pos ⟨hwide, hgrapheme⟩, hwrap]
  · rw [wrapPlaced, take_item hnewline, append_lineItems hnewline, if_pos ⟨hwide, hgrapheme⟩,
      hwrap, ← (s.note_frame item).2]
    exact (hpush.lineRows_close hle _).trans (by rw [WrapLineState.push, hdone]; rfl)
  · rw [hbefore]
    exact congrArg (fun items => _ + itemsWidth widthForChar items) hdone

variable [IsStrictOrderedRing K]

variable (adjustment) in
theorem not_forall_fits (hs : WalksLine widthForChar s indent done rest)
    (hnonneg : ∀ item ∈ rest, 0 ≤ item.candidate.itemWidth widthForChar)
    (hfits : ¬ OpenFits wrapWidth s done rest)
    (hcandidate : s.lastWrapIx < s.lastCandidateIx →
      ¬ ItemsFit wrapWidth s.lastCandidateWidth
        (itemsBetween s.lastWrapIx s.lastCandidateIx done)) :
    ¬ ∀ row ∈ lineRows (done ++ lineItems rest) ⟨s.lastWrapIx, indent⟩
        (wrapPlaced widthForChar wrapWidth adjustment s rest), row.Fits widthForChar wrapWidth := by
  rw [OpenFits, not_or, not_and, not_and] at hfits
  obtain ⟨hopen, hpiece⟩ := hfits
  induction rest generalizing s done with
  | nil =>
    intro hall
    have hrow := hall ⟨indent, itemsFrom s.lastWrapIx done⟩
      (by simp [lineRows, wrapPlaced, lineItems])
    rw [LineRow.Fits, ← hs.width] at hrow
    exact hopen hrow
  | cons item rest ih =>
    obtain ⟨hwidth, hwrap⟩ := s.note_frame item
    have hnonneg' : ∀ b ∈ rest, 0 ≤ b.candidate.itemWidth widthForChar :=
      fun b hb => hnonneg b (by simp [hb])
    have hcandidate' := hs.note_candidate
      (P := fun width items => ¬ ItemsFit wrapWidth width items) (fun _ => hopen) hcandidate
    by_cases hnewline : item.candidate.isNewline = true
    · have hpiece' := hs.note_before
        (P := fun width items => continuesGrapheme rest = true → ¬ ItemsFit wrapWidth width items)
        (fun _ _ => hopen)
        (fun hstart hlt hcont => hpiece hlt (by simp [continuesGrapheme, hstart, hcont]))
      rw [rows_newline hnewline]
      refine ih hs.note.skip hnonneg' hcandidate' ?_ hpiece'
      rw [hwidth, hwrap]
      exact hopen
    · have hpiece' := hs.note_before
        (P := fun width items => ¬ ItemsFit wrapWidth width items) (fun _ => hopen)
        (fun hstart hlt => hpiece hlt (by simp [continuesGrapheme, hstart, hnewline]))
      have hwide : wrapWidth < ((s.note item).push widthForChar item).width := by
        have hitem := hnonneg item (by simp)
        have hover : wrapWidth < s.width := lt_of_not_ge fun hle => hopen (.inl hle)
        change _ < (s.note item).width + item.candidate.itemWidth widthForChar
        rw [hwidth]
        exact lt_add_of_lt_of_nonneg hover hitem
      by_cases hgrapheme : (s.note item).lastWrapIx < (s.note item).graphemeIndex
      · -- the row is closed as it is
        obtain ⟨ix, before, -, -, hrows, hbefore, hlt, -, hcases⟩ :=
          hs.rows_wrap adjustment hnewline hwide hgrapheme
        intro hall
        rw [hrows, forall_mem_cons] at hall
        have hclosed : ItemsFit wrapWidth before
            (itemsBetween (s.note item).lastWrapIx ix done) := by
          rw [hbefore]
          exact hall.1
        rcases hcases with ⟨-, hix, hlast⟩ | ⟨-, hix, hlast⟩
        · rw [hix, hlast] at hclosed
          rw [hix] at hlt
          exact hcandidate' hlt hclosed
        · rw [hix, hlast] at hclosed
          exact hpiece' hgrapheme hclosed
      · obtain ⟨-, hrows⟩ := rows_stay indent done rest adjustment hnewline
          (fun h => hgrapheme h.2)
        rw [hrows]
        refine ih hs.note.push hnonneg' ?_ ?_ (fun h => absurd h hgrapheme)
        · intro hlt
          exact absurd (lt_of_lt_of_le hlt hs.note.candidate_le) hgrapheme
        · have hix : s.lastWrapIx ≤ item.ix := hs.wrapped.trans (hs.ahead item (by simp))
          rintro (hle | hsingle)
          · exact absurd hle (not_le_of_gt hwide)
          · change IsSingle (itemsFrom (s.note item).lastWrapIx (done ++ [item])) at hsingle
            rw [hwrap, itemsFrom_concat hix] at hsingle
            exact hopen (.inr hsingle.of_append)

theorem before_fits (hs : WalksLine widthForChar s indent done rest)
    (hnonneg : ∀ item ∈ done, 0 ≤ item.candidate.itemWidth widthForChar)
    (hopen : ItemsFit wrapWidth s.width (itemsFrom s.lastWrapIx done)) :
    ItemsFit wrapWidth s.widthBeforeGrapheme (itemsBetween s.lastWrapIx s.graphemeIndex done) := by
  have hsplit := itemsFrom_eq_append hs.ascending_done hs.wrapped
  rcases hopen with hle | hsingle
  · left
    have hrest : 0 ≤ itemsWidth widthForChar (itemsFrom s.graphemeIndex done) := by
      apply sum_nonneg
      intro width hwidth
      obtain ⟨item, hitem, rfl⟩ := mem_map.mp hwidth
      exact hnonneg item (mem_of_mem_filter hitem)
    rw [hs.width, hsplit, itemsWidth_append, ← add_assoc, ← hs.before] at hle
    exact (le_add_of_nonneg_right hrest).trans hle
  · rw [hsplit] at hsingle
    exact .inr hsingle.of_append

omit [IsStrictOrderedRing K] in
theorem stepFits_iff_openFits (hwide : wrapWidth < ((s.note item).push widthForChar item).width)
    (hgrapheme : (s.note item).lastWrapIx < (s.note item).graphemeIndex) (hcases :
      let t := (s.note item).push widthForChar item
      (t.wrapAtCandidate wrapWidth = true ∧ ix = t.lastCandidateIx ∧
          before = t.lastCandidateWidth) ∨
        (t.wrapAtCandidate wrapWidth = false ∧ ix = t.graphemeIndex ∧
          before = t.widthBeforeGrapheme)) :
    stepFits widthForChar wrapWidth adjustment s done item rest ↔
      OpenFits wrapWidth (((s.note item).push widthForChar item).rebase ix before
        (widthForChar ' ' * ((s.note item).push widthForChar item).nextIndent widthForChar wrapWidth
          adjustment)) (done ++ [item]) rest := by
  have hnot : ¬ ((s.note item).push widthForChar item).graphemeIndex ≤
      ((s.note item).push widthForChar item).lastWrapIx := not_le_of_gt hgrapheme
  rw [stepFits, if_neg hnot, OpenFits]
  rcases hcases with ⟨hat, rfl, rfl⟩ | ⟨hat, rfl, rfl⟩
  · rw [if_pos hat]
    exact ⟨fun h => h hwide, fun h _ => h⟩
  · rw [if_neg (by simp [hat])]
    refine ⟨fun h => .inl (h hwide), ?_⟩
    rintro (hfits | ⟨hlt, -⟩) -
    · exact hfits
    · exact absurd hlt (lt_irrefl _)

omit [IsStrictOrderedRing K] in
theorem stepFits_iff_stay
    (hstay : ¬ (wrapWidth < ((s.note item).push widthForChar item).width ∧
      (s.note item).lastWrapIx < (s.note item).graphemeIndex)) :
    stepFits widthForChar wrapWidth adjustment s done item rest ↔
      OpenFits wrapWidth ((s.note item).push widthForChar item) (done ++ [item]) rest := by
  by_cases hwide : wrapWidth < ((s.note item).push widthForChar item).width
  · have hle : ((s.note item).push widthForChar item).graphemeIndex ≤
        ((s.note item).push widthForChar item).lastWrapIx := not_lt.mp fun hlt => hstay ⟨hwide, hlt⟩
    rw [stepFits, if_pos hle, OpenFits]
    refine ⟨fun h => .inl (.inr (h hwide)), ?_⟩
    rintro ((hfits | hsingle) | ⟨hlt, -⟩) -
    · exact absurd hfits (not_le_of_gt hwide)
    · exact hsingle
    · exact absurd hlt (not_lt_of_ge hle)
  · refine ⟨fun _ => .inl (.inl (not_lt.mp hwide)), ?_⟩
    intro _ hwide'
    exact absurd hwide' hwide

variable (wrapWidth adjustment) in
/-- The rows fit from here on exactly when every step leaves one that does. -/
theorem forall_fits_iff (hs : WalksLine widthForChar s indent done rest)
    (hnonneg : ∀ item ∈ done ++ rest, 0 ≤ item.candidate.itemWidth widthForChar)
    (hopen : OpenFits wrapWidth s done rest)
    (hcandidate : s.lastWrapIx < s.lastCandidateIx →
      ItemsFit wrapWidth s.lastCandidateWidth (itemsBetween s.lastWrapIx s.lastCandidateIx done)) :
    (∀ row ∈ lineRows (done ++ lineItems rest) ⟨s.lastWrapIx, indent⟩
        (wrapPlaced widthForChar wrapWidth adjustment s rest), row.Fits widthForChar wrapWidth) ↔
      carriesFit widthForChar wrapWidth adjustment s done rest := by
  induction rest generalizing s indent done with
  | nil =>
    have hrow : ItemsFit wrapWidth s.width (itemsFrom s.lastWrapIx done) := by
      rcases hopen with hopen | ⟨-, hcont, -⟩
      · exact hopen
      · exact absurd hcont (by simp [continuesGrapheme])
    simp only [lineRows, wrapPlaced, lineItems, carriesFit, filter_nil, append_nil,
      forall_mem_singleton, iff_true]
    rw [LineRow.Fits, ← hs.width]
    exact hrow
  | cons item rest ih =>
    obtain ⟨hwidth, hwrap⟩ := s.note_frame item
    have hopen' : item.isGraphemeBoundary = true →
        ItemsFit wrapWidth s.width (itemsFrom s.lastWrapIx done) := by
      intro hstart
      rcases hopen with hopen | ⟨-, hcont, -⟩
      · exact hopen
      · exact absurd hcont (by simp [continuesGrapheme, hstart])
    have hcandidate' := hs.note_candidate hopen' hcandidate
    by_cases hnewline : item.candidate.isNewline = true
    · rw [rows_newline hnewline, carriesFit, if_pos hnewline]
      refine ih hs.note.skip ?_ ?_ hcandidate'
      · intro b hb
        exact hnonneg b (by simp at hb ⊢; tauto)
      · rcases hopen with hopen | ⟨hlt, hcont, hpiece⟩
        · left
          rw [hwidth, hwrap]
          exact hopen
        · obtain ⟨hstart, hcont⟩ : item.isGraphemeBoundary = false ∧
              continuesGrapheme rest = true := by
            simpa [continuesGrapheme, hnewline] using hcont
          rw [s.note_continue item hstart]
          exact .inr ⟨hlt, hcont, hpiece⟩
    · have hbefore' := hs.note_before hopen' (by
        intro _ _
        rcases hopen with hopen | ⟨-, -, hpiece⟩
        · exact hs.before_fits (fun b hb => hnonneg b (by simp [hb])) hopen
        · exact hpiece)
      have hnonneg' : ∀ b ∈ (done ++ [item]) ++ rest,
          0 ≤ b.candidate.itemWidth widthForChar := by
        rw [append_assoc, singleton_append]
        exact hnonneg
      rw [carriesFit, if_neg hnewline]
      by_cases hgrapheme : wrapWidth < ((s.note item).push widthForChar item).width ∧
          (s.note item).lastWrapIx < (s.note item).graphemeIndex
      · obtain ⟨ix, before, htake, hwalk, hrows, hbefore, hlt, -, hcases⟩ :=
          hs.rows_wrap adjustment hnewline hgrapheme.1 hgrapheme.2
        have hclosed : LineRow.Fits widthForChar wrapWidth
            ⟨indent, itemsBetween (s.note item).lastWrapIx ix done⟩ := by
          change ItemsFit wrapWidth (widthForChar ' ' * indent + itemsWidth widthForChar
            (itemsBetween ((s.note item).push widthForChar item).lastWrapIx ix done)) _
          rw [← hbefore]
          rcases hcases with ⟨-, hix, hlast⟩ | ⟨-, hix, hlast⟩
          · rw [hix] at hlt ⊢
            rw [hlast]
            exact hcandidate' hlt
          · rw [hix, hlast]
            exact hbefore' hgrapheme.2
        rw [htake, hrows, forall_mem_cons, stepFits_iff_openFits hgrapheme.1 hgrapheme.2 hcases]
        by_cases hfits : OpenFits wrapWidth (((s.note item).push widthForChar item).rebase ix before
            (widthForChar ' ' * ((s.note item).push widthForChar item).nextIndent widthForChar
              wrapWidth adjustment)) (done ++ [item]) rest
        · rw [ih hwalk hnonneg' hfits (fun h => absurd h (Nat.not_lt_zero _))]
          exact and_congr_left' (iff_of_true hclosed hfits)
        · have hbad := hwalk.not_forall_fits adjustment
            (fun b hb => hnonneg b (by simp [hb])) hfits
            (fun h => absurd h (Nat.not_lt_zero _))
          exact iff_of_false (fun h => hbad h.2) (fun h => hfits h.1)
      · obtain ⟨htake, hrows⟩ := rows_stay indent done rest adjustment hnewline hgrapheme
        have hpush := hs.note.push
        rw [htake, hrows, stepFits_iff_stay hgrapheme]
        by_cases hfits : OpenFits wrapWidth ((s.note item).push widthForChar item)
            (done ++ [item]) rest
        · rw [ih hpush hnonneg' hfits, and_iff_right hfits]
          intro hlt
          have hsame : itemsBetween (s.note item).lastWrapIx (s.note item).lastCandidateIx
              (done ++ [item]) =
                itemsBetween (s.note item).lastWrapIx (s.note item).lastCandidateIx done := by
            apply itemsBetween_append
            intro b hb
            rw [mem_singleton.mp hb]
            exact hs.note.candidate_le.trans (hs.note.ahead item (by simp))
          have hfit := hcandidate' hlt
          rwa [← hsame] at hfit
        · have hbad := hpush.not_forall_fits adjustment
            (fun b hb => hnonneg b (by simp [hb])) hfits (by
              intro hlt
              have hlt' := lt_of_lt_of_le hlt hs.note.candidate_le
              have hwide : ¬ wrapWidth < ((s.note item).push widthForChar item).width :=
                fun h => hgrapheme ⟨h, hlt'⟩
              exact absurd (.inl (.inl (not_lt.mp hwide))) hfits)
          exact iff_of_false hbad (fun h => hfits h.1)

variable (wrapWidth adjustment) in
omit [IsStrictOrderedRing K] in
theorem wrapPlaced_increasing {graphemeIndices : List ℕ}
    (hs : WalksLine widthForChar s indent done rest)
    (hrest : ∀ item ∈ rest, item.isGraphemeBoundary = true → item.ix ∈ graphemeIndices)
    (hgrapheme : s.lastWrapIx < s.graphemeIndex → s.graphemeIndex ∈ graphemeIndices)
    (hcandidate : s.lastWrapIx < s.lastCandidateIx → s.lastCandidateIx ∈ graphemeIndices) :
    (wrapPlaced widthForChar wrapWidth adjustment s rest).Pairwise (fun a b => a.ix < b.ix) ∧
      ∀ boundary ∈ wrapPlaced widthForChar wrapWidth adjustment s rest,
        s.lastWrapIx < boundary.ix ∧ boundary.ix ∈ graphemeIndices := by
  induction rest generalizing s indent done with
  | nil => simp [wrapPlaced]
  | cons item rest ih =>
    have hrest' : ∀ b ∈ rest, b.isGraphemeBoundary = true → b.ix ∈ graphemeIndices :=
      fun b hb => hrest b (by simp [hb])
    have hwrap := (s.note_frame item).2
    obtain ⟨hgrapheme', hcandidate'⟩ := s.note_mem item (hrest item (by simp)) hgrapheme hcandidate
    rw [wrapPlaced]
    by_cases hnewline : item.candidate.isNewline = true
    · rw [take_newline hnewline, ← hwrap]
      exact ih hs.note.skip hrest' hgrapheme' hcandidate'
    · rw [take_item hnewline]
      by_cases hwide : wrapWidth < ((s.note item).push widthForChar item).width ∧
          ((s.note item).push widthForChar item).lastWrapIx <
            ((s.note item).push widthForChar item).graphemeIndex
      · have hpush := hs.note.push
        obtain ⟨ix, before, hlt, hle, hbefore, hwrapped, hcases⟩ :=
          hpush.wrap_eq wrapWidth adjustment hwide.2
        have hix : ix ∈ graphemeIndices := by
          rcases hcases with ⟨-, rfl, -⟩ | ⟨-, rfl, -⟩
          · exact hcandidate' hlt
          · exact hgrapheme' hlt
        obtain ⟨hincreasing, hpast⟩ := ih (hpush.rebase hlt hle hbefore _) hrest'
          (fun h => hgrapheme' (hlt.trans h)) (fun h => absurd h (Nat.not_lt_zero _))
        rw [if_pos hwide, hwrapped, Option.toList_some, singleton_append, pairwise_cons,
          forall_mem_cons, ← hwrap]
        refine ⟨⟨fun b hb => (hpast b hb).1, hincreasing⟩, ⟨hlt, hix⟩, ?_⟩
        intro b hb
        exact ⟨hlt.trans (hpast b hb).1, (hpast b hb).2⟩
      · rw [if_neg hwide, ← hwrap]
        exact ih hs.note.push hrest' hgrapheme' hcandidate'

end WalksLine

instance LineRow.decidableFits (widthForChar : Char → K) (wrapWidth : K) (row : LineRow K) :
    Decidable (row.Fits widthForChar wrapWidth) := inferInstanceAs (Decidable (_ ∨ _))

instance (widthForChar : Char → K) (wrapWidth : K) (adjustment : IndentAdjustment)
    (s : WrapLineState K) (done : List (PlacedCandidate K)) (item : PlacedCandidate K)
    (rest : List (PlacedCandidate K)) :
    Decidable (stepFits widthForChar wrapWidth adjustment s done item rest) :=
  by delta stepFits; infer_instance

def decidableCarriesFit (widthForChar : Char → K) (wrapWidth : K) (adjustment : IndentAdjustment) :
    (s : WrapLineState K) → (done rest : List (PlacedCandidate K)) →
      Decidable (carriesFit widthForChar wrapWidth adjustment s done rest)
  | _, _, [] => isTrue trivial
  | s, done, item :: rest =>
    if hnewline : item.candidate.isNewline then
      have := decidableCarriesFit widthForChar wrapWidth adjustment (s.note item) done rest
      decidable_of_iff (carriesFit widthForChar wrapWidth adjustment (s.note item) done rest)
        (by rw [carriesFit, if_pos hnewline])
    else
      have := decidableCarriesFit widthForChar wrapWidth adjustment
        (s.take widthForChar wrapWidth adjustment item).1 (done ++ [item]) rest
      decidable_of_iff (stepFits widthForChar wrapWidth adjustment s done item rest ∧
          carriesFit widthForChar wrapWidth adjustment
            (s.take widthForChar wrapWidth adjustment item).1 (done ++ [item]) rest)
        (by rw [carriesFit, if_neg hnewline])

instance (widthForChar : Char → K) (wrapWidth : K) (adjustment : IndentAdjustment)
    (s : WrapLineState K) (done rest : List (PlacedCandidate K)) :
    Decidable (carriesFit widthForChar wrapWidth adjustment s done rest) :=
  decidableCarriesFit widthForChar wrapWidth adjustment s done rest

variable [IsStrictOrderedRing K]

end GpuiFast
