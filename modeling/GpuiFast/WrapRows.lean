import GpuiFast.LineLayout

namespace GpuiFast

open List

variable {K : Type*}

namespace WrapBoundary

theorem lt_iff {a b : WrapBoundary} :
    a.lt b = true ↔ a.runIx < b.runIx ∨ (a.runIx = b.runIx ∧ a.glyphIx < b.glyphIx) := by
  simp [lt]

theorem lt_of_not_lt_of_lt {a b c : WrapBoundary} (hab : ¬ b.lt a = true) (hbc : b.lt c = true) :
    a.lt c = true := by
  rw [lt_iff] at hab hbc ⊢
  omega

theorem not_lt_of_lt {a b : WrapBoundary} (hab : a.lt b = true) : ¬ b.lt a = true := by
  rw [lt_iff] at hab ⊢
  omega

theorem not_lt_self (a : WrapBoundary) : ¬ a.lt a = true := by
  rw [lt_iff]
  omega

end WrapBoundary

namespace LineLayout

def placedGlyphs (layout : LineLayout K) : List (WrapGlyph K) :=
  layout.runs.zipIdx.flatMap (fun run =>
    run.1.glyphs.zipIdx.map (fun glyph => ⟨⟨run.2, glyph.2⟩, glyph.1.index, glyph.1.position.x⟩))

def StartsCluster (layout : LineLayout K) (boundary : WrapBoundary) : Prop :=
  ∃ before glyph after, layout.placedGlyphs = before ++ glyph :: after ∧
    glyph.boundary = boundary ∧ before.getLast?.map (·.index) ≠ some glyph.index

structure LeftToRight [LE K] (layout : LineLayout K) : Prop where
  sorted : (layout.runs.flatMap (fun run => run.glyphs.map (·.position.x))).Pairwise (· ≤ ·)
  within : ∀ run ∈ layout.runs, ∀ glyph ∈ run.glyphs, glyph.position.x ≤ layout.width

end LineLayout

theorem dedupByIndex_sublist (previous : Option ℕ) (glyphs : List (WrapGlyph K)) :
    (dedupByIndex previous glyphs).Sublist glyphs := by
  induction glyphs generalizing previous with
  | nil => exact Sublist.refl _
  | cons g glyphs ih =>
    unfold dedupByIndex
    split
    · exact (ih previous).cons g
    · exact (ih (some g.index)).cons_cons g

theorem dedupByIndex_starts {previous : Option ℕ} {glyphs : List (WrapGlyph K)} {g : WrapGlyph K}
    (hg : g ∈ dedupByIndex previous glyphs) :
    ∃ before after, glyphs = before ++ g :: after ∧
      (before.getLast?.map (·.index)).or previous ≠ some g.index := by
  induction glyphs generalizing previous with
  | nil => simp [dedupByIndex] at hg
  | cons h glyphs ih =>
    -- a glyph further on has the same glyph before it, or this one
    have hlater : g ∈ dedupByIndex (some h.index) glyphs → ∃ before after,
        h :: glyphs = before ++ g :: after ∧
          (before.getLast?.map (·.index)).or previous ≠ some g.index := by
      intro hg
      obtain ⟨before, after, rfl, hbefore⟩ := ih hg
      refine ⟨h :: before, after, rfl, ?_⟩
      cases before with
      | nil => simpa using hbefore
      | cons b before => simpa [getLast?_eq_some_getLast] using hbefore
    rw [dedupByIndex] at hg
    split at hg
    next hsame =>
      rw [hsame] at hg
      exact hlater hg
    next hother =>
      rcases mem_cons.mp hg with rfl | hg
      · exact ⟨[], glyphs, rfl, by simpa using hother⟩
      · exact hlater hg

namespace LineLayout

theorem placedGlyphs_sorted (layout : LineLayout K) :
    layout.placedGlyphs.Pairwise (fun a b => a.boundary.lt b.boundary = true) := by
  unfold placedGlyphs
  rw [pairwise_flatMap]
  constructor
  · intro run _
    rw [pairwise_map]
    apply pairwise_iff_getElem.mpr
    intro i j hi hj hij
    rw [WrapBoundary.lt_iff]
    right
    simpa using hij
  · apply pairwise_iff_getElem.mpr
    intro i j hi hj hij a ha b hb
    obtain ⟨_, _, rfl⟩ := mem_map.mp ha
    obtain ⟨_, _, rfl⟩ := mem_map.mp hb
    rw [WrapBoundary.lt_iff]
    left
    simpa using hij

theorem placedGlyphs_map_x (layout : LineLayout K) :
    layout.placedGlyphs.map (·.x) =
      layout.runs.flatMap (fun run => run.glyphs.map (·.position.x)) := by
  have hruns : layout.runs = layout.runs.zipIdx.map Prod.fst := by simp
  conv_rhs => rw [hruns, flatMap_map]
  rw [placedGlyphs, map_flatMap]
  congr 1
  funext run
  have hglyphs : run.1.glyphs = run.1.glyphs.zipIdx.map Prod.fst := by simp
  conv_rhs => rw [hglyphs]
  simp only [map_map, Function.comp_def]

theorem wrapGlyphs_sorted (layout : LineLayout K) :
    layout.wrapGlyphs.Pairwise (fun a b => a.boundary.lt b.boundary = true) :=
  layout.placedGlyphs_sorted.sublist (dedupByIndex_sublist none _)

theorem startsCluster_of_mem {layout : LineLayout K} {g : WrapGlyph K}
    (hg : g ∈ layout.wrapGlyphs) : layout.StartsCluster g.boundary := by
  obtain ⟨before, after, hplaced, hbefore⟩ := dedupByIndex_starts hg
  exact ⟨before, g, after, hplaced, rfl, by simpa using hbefore⟩

namespace LeftToRight

variable [LE K] {layout : LineLayout K}

theorem wrapGlyphs_x (hlayout : layout.LeftToRight) :
    layout.wrapGlyphs.Pairwise (fun a b => a.x ≤ b.x) := by
  have hplaced : layout.placedGlyphs.Pairwise (fun a b => a.x ≤ b.x) := by
    rw [← pairwise_map, placedGlyphs_map_x]
    exact hlayout.sorted
  exact hplaced.sublist (dedupByIndex_sublist none _)

theorem wrapGlyphs_x_le (hlayout : layout.LeftToRight) :
    ∀ g ∈ layout.wrapGlyphs, g.x ≤ layout.width := by
  intro g hg
  have hplaced : g ∈ layout.placedGlyphs := (dedupByIndex_sublist none _).subset hg
  have hx : g.x ∈ layout.placedGlyphs.map (·.x) := mem_map_of_mem hplaced
  rw [placedGlyphs_map_x] at hx
  obtain ⟨run, hrun, hx⟩ := mem_flatMap.mp hx
  obtain ⟨glyph, hglyph, hx⟩ := mem_map.mp hx
  rw [← hx]
  exact hlayout.within run hrun glyph hglyph

end LeftToRight

end LineLayout

structure WrapRow (K : Type*) where
  startX : K
  endX : K
  clusters : List (WrapGlyph K)

def cutRows (width : K) : List WrapBoundary → K → List (WrapGlyph K) → List (WrapGlyph K) →
    List (WrapRow K)
  | _, startX, row, [] => [⟨startX, width, row⟩]
  | boundaries, startX, row, g :: glyphs =>
    if boundaries.head? = some g.boundary then
      ⟨startX, g.x, row⟩ :: cutRows width boundaries.tail g.x [g] glyphs
    else cutRows width boundaries startX (row ++ [g]) glyphs

def LineLayout.wrapRows [Zero K] (layout : LineLayout K) (boundaries : List WrapBoundary) :
    List (WrapRow K) :=
  cutRows layout.width boundaries 0 [] layout.wrapGlyphs

theorem cutRows_append {width startX : K} {boundaries : List WrapBoundary}
    {row skipped glyphs : List (WrapGlyph K)} (hskipped : ∀ g ∈ skipped, g.boundary ∉ boundaries) :
    cutRows width boundaries startX row (skipped ++ glyphs) =
      cutRows width boundaries startX (row ++ skipped) glyphs := by
  induction skipped generalizing row with
  | nil => simp
  | cons g skipped ih =>
    have hg : boundaries.head? ≠ some g.boundary := by
      intro hhead
      exact hskipped g (by simp) (mem_of_mem_head? hhead)
    rw [cons_append, cutRows, if_neg hg, ih (fun h hh => hskipped h (by simp [hh]))]
    simp

theorem cutRows_cut {width startX : K} {boundaries : List WrapBoundary}
    {row glyphs : List (WrapGlyph K)} (g : WrapGlyph K) :
    cutRows width (g.boundary :: boundaries) startX row (g :: glyphs) =
      ⟨startX, g.x, row⟩ :: cutRows width boundaries g.x [g] glyphs := by
  simp [cutRows]

def nextX (width : K) (glyphs : List (WrapGlyph K)) : K := (glyphs.head?.map (·.x)).getD width

theorem cutRows_open [Preorder K] {width startX : K} {boundaries : List WrapBoundary}
    {row glyphs : List (WrapGlyph K)} (hsorted : glyphs.Pairwise (fun a b => a.x ≤ b.x))
    (hwithin : ∀ g ∈ glyphs, g.x ≤ width) :
    ∃ r ∈ cutRows width boundaries startX row glyphs,
      r.startX = startX ∧ nextX width glyphs ≤ r.endX ∧ row.length ≤ r.clusters.length := by
  induction glyphs generalizing row with
  | nil => exact ⟨_, mem_singleton_self _, rfl, le_refl _, le_refl _⟩
  | cons g glyphs ih =>
    rw [pairwise_cons] at hsorted
    rw [cutRows]
    split
    · exact ⟨_, mem_cons_self, rfl, le_refl _, le_refl _⟩
    · obtain ⟨r, hr, hstart, hend, hlen⟩ :=
        @ih (row ++ [g]) hsorted.2 (fun h hh => hwithin h (by simp [hh]))
      refine ⟨r, hr, hstart, ?_, ?_⟩
      · refine le_trans ?_ hend
        cases glyphs with
        | nil => exact hwithin g (by simp)
        | cons h glyphs => exact hsorted.1 h (by simp)
      · rw [length_append] at hlen
        omega

namespace WrapState

/-- Where a search stands: the clusters of the open row before the candidate, those from it on,
and those to come. -/
structure Walks [LE K] (s : WrapState K) (before carried glyphs : List (WrapGlyph K)) : Prop where
  candidate : s.lastCandidateIx = carried.head?.map (·.boundary)
  candidateX : ∀ c ∈ carried.head?, s.lastCandidateX = c.x
  boundary : ∀ g ∈ before ++ carried ++ glyphs, ¬ g.boundary.lt s.lastBoundary = true
  sorted : (before ++ carried ++ glyphs).Pairwise (fun a b => a.boundary.lt b.boundary = true)
  leftToRight : (before ++ carried ++ glyphs).Pairwise (fun a b => a.x ≤ b.x)

theorem enter_frame (s : WrapState K) (text : Text) (breakIndices : List ℕ) (g : WrapGlyph K) :
    (s.enter text breakIndices g).boundaries = s.boundaries ∧
      (s.enter text breakIndices g).lastBoundary = s.lastBoundary ∧
      (s.enter text breakIndices g).lastBoundaryX = s.lastBoundaryX := by
  unfold WrapState.enter
  split
  · dsimp only
    split <;> exact ⟨rfl, rfl, rfl⟩
  · exact ⟨rfl, rfl, rfl⟩

namespace Walks

variable [LE K] {s : WrapState K} {before carried glyphs : List (WrapGlyph K)} {g : WrapGlyph K}

theorem enter (hs : s.Walks before carried (g :: glyphs)) (text : Text) (breakIndices : List ℕ) :
    ∃ skipped kept, carried ++ [g] = skipped ++ kept ∧
      (s.enter text breakIndices g).Walks (before ++ skipped) kept glyphs ∧
      (kept = [g] ∨ (carried = [] ∧ kept = []) ∨ skipped = []) := by
  have hwalks : ∀ (t : WrapState K) (skipped kept : List (WrapGlyph K)),
      carried ++ [g] = skipped ++ kept → t.lastBoundary = s.lastBoundary →
      t.lastCandidateIx = kept.head?.map (·.boundary) → (∀ c ∈ kept.head?, t.lastCandidateX = c.x) →
      t.Walks (before ++ skipped) kept glyphs := by
    intro t skipped kept hsplit hlast hix hx
    have hlist : before ++ skipped ++ kept ++ glyphs = before ++ carried ++ g :: glyphs := by
      rw [append_assoc before, ← hsplit]
      simp
    exact ⟨hix, hx, by rw [hlist, hlast]; exact hs.boundary, by rw [hlist]; exact hs.sorted,
      by rw [hlist]; exact hs.leftToRight⟩
  -- the candidate stays
  have hstays : ∀ t : WrapState K, t.lastCandidateIx = s.lastCandidateIx →
      t.lastCandidateX = s.lastCandidateX → t.lastBoundary = s.lastBoundary →
      ∃ skipped kept, carried ++ [g] = skipped ++ kept ∧ t.Walks (before ++ skipped) kept glyphs ∧
        (kept = [g] ∨ (carried = [] ∧ kept = []) ∨ skipped = []) := by
    intro t hix hx hlast
    have hcandidate := hs.candidate
    have hcandidateX := hs.candidateX
    cases carried with
    | nil =>
      exact ⟨[g], [], rfl, hwalks t [g] [] rfl hlast (hix.trans hcandidate) (by simp),
        .inr (.inl ⟨rfl, rfl⟩)⟩
    | cons c carried =>
      refine ⟨[], c :: carried ++ [g], rfl, hwalks t [] _ rfl hlast ?_ ?_,
        .inr (.inr rfl)⟩
      · exact hix.trans hcandidate
      · intro c' hc'
        rw [hx]
        exact hcandidateX c' hc'
  unfold WrapState.enter
  split
  · dsimp only
    split
    · refine ⟨carried, [g], rfl, hwalks _ carried [g] rfl rfl rfl ?_, .inl rfl⟩
      intro c hc
      obtain rfl : g = c := by simpa using hc
      rfl
    · exact hstays _ rfl rfl rfl
  · exact hstays s rfl rfl rfl

theorem eq_nil_of_not_lt (hs : s.Walks before carried (g :: glyphs))
    (hg : ¬ s.lastBoundary.lt g.boundary = true) : before ++ carried = [] := by
  rw [eq_nil_iff_forall_not_mem]
  intro h hh
  have hsorted := (pairwise_append.mp hs.sorted).2.2 h hh g (by simp)
  exact hg (WrapBoundary.lt_of_not_lt_of_lt
    (hs.boundary h (mem_append_left _ hh)) hsorted)

theorem not_mem_of_sublist {new : List WrapBoundary} (hs : s.Walks before carried glyphs)
    (hnew : new.Sublist ((carried ++ glyphs).map (·.boundary))) :
    ∀ g ∈ before, g.boundary ∉ new := by
  intro g hg hmem
  obtain ⟨h, hh, heq⟩ := mem_map.mp (hnew.subset hmem)
  have hsorted := hs.sorted
  rw [append_assoc, pairwise_append] at hsorted
  have hlt := hsorted.2.2 g hg h hh
  rw [heq] at hlt
  exact WrapBoundary.not_lt_self _ hlt

theorem candidate_eq_iff {c : WrapGlyph K} {row skipped kept : List (WrapGlyph K)}
    (hs : s.Walks before (c :: kept) glyphs) (hsplit : row ++ [g] = skipped ++ c :: kept) :
    c.boundary = g.boundary ↔ kept = [] := by
  constructor
  · intro heq
    by_contra hkept
    have hlast := congrArg getLast? hsplit
    obtain ⟨d, kept, rfl⟩ := exists_cons_of_ne_nil hkept
    have hg : g ∈ d :: kept := by
      apply mem_of_getLast?
      simpa using hlast.symm
    have hsorted := hs.sorted
    rw [append_assoc, pairwise_append, cons_append, pairwise_cons] at hsorted
    have hlt := hsorted.2.1.1 g (mem_append_left _ hg)
    rw [heq] at hlt
    exact WrapBoundary.not_lt_self _ hlt
  · rintro rfl
    have hlast := congrArg getLast? hsplit
    obtain rfl : g = c := by simpa using hlast
    rfl

theorem skip (hs : s.Walks before carried (g :: glyphs)) : s.Walks before carried glyphs := by
  have hsub : (before ++ carried ++ glyphs).Sublist (before ++ carried ++ g :: glyphs) :=
    (sublist_cons_self g glyphs).append_left _
  exact ⟨hs.candidate, hs.candidateX, fun h hh => hs.boundary h (hsub.subset hh),
    hs.sorted.sublist hsub, hs.leftToRight.sublist hsub⟩

theorem reopen {t : WrapState K} {c : WrapGlyph K} {row rest : List (WrapGlyph K)}
    (hs : s.Walks before carried glyphs) (hrow : before ++ carried = row ++ c :: rest)
    (hix : t.lastCandidateIx = none) (hlast : t.lastBoundary = c.boundary) :
    t.Walks (c :: rest) [] glyphs := by
  have hsub : (c :: rest ++ [] ++ glyphs).Sublist (before ++ carried ++ glyphs) := by
    rw [hrow, append_nil, append_assoc]
    exact sublist_append_right row _
  have hsorted := hs.sorted.sublist hsub
  refine ⟨hix, by simp, ?_, hsorted, hs.leftToRight.sublist hsub⟩
  intro h hh
  rw [hlast]
  rw [append_nil, cons_append] at hh hsorted
  rcases mem_cons.mp hh with rfl | hh
  · exact WrapBoundary.not_lt_self _
  · exact WrapBoundary.not_lt_of_lt ((pairwise_cons.mp hsorted).1 h hh)

theorem wrap_candidate {c : WrapGlyph K} (hs : s.Walks before (c :: carried) glyphs)
    (g : WrapGlyph K) :
    (s.wrap g).Walks (c :: carried) [] glyphs ∧
      (s.wrap g).boundaries = s.boundaries ++ [c.boundary] ∧ (s.wrap g).lastBoundaryX = c.x := by
  have hix : s.lastCandidateIx = some c.boundary := hs.candidate
  have hwrap : s.wrap g = { s with
      lastCandidateIx := none
      lastBoundary := c.boundary
      lastBoundaryX := s.lastCandidateX
      boundaries := s.boundaries ++ [c.boundary] } := by
    rw [WrapState.wrap, hix]
  rw [hwrap]
  exact ⟨hs.reopen rfl rfl rfl, rfl, hs.candidateX c rfl⟩

theorem wrap_glyph (hs : s.Walks before [] glyphs) (hrow : before = carried ++ [g]) :
    (s.wrap g).Walks [g] [] glyphs ∧
      (s.wrap g).boundaries = s.boundaries ++ [g.boundary] ∧ (s.wrap g).lastBoundaryX = g.x := by
  have hix : s.lastCandidateIx = none := hs.candidate
  have hwrap : s.wrap g = { s with
      lastBoundary := g.boundary
      lastBoundaryX := g.x
      boundaries := s.boundaries ++ [g.boundary] } := by
    rw [WrapState.wrap, hix]
  rw [hwrap]
  exact ⟨hs.reopen (by rw [hrow, append_nil]) hix rfl, rfl, rfl⟩

end Walks

end WrapState

variable [Field K] [LinearOrder K]

def WrapRow.Fits (row : WrapRow K) (wrapWidth : K) : Prop :=
  row.endX - row.startX ≤ wrapWidth ∨ row.clusters.length ≤ 1

instance (row : WrapRow K) (wrapWidth : K) : Decidable (row.Fits wrapWidth) :=
  inferInstanceAs (Decidable (_ ∨ _))

/-- The boundaries come one after the other, each at the first glyph of a cluster, and the rows
between them fit. -/
structure LineLayout.WrapsToFit (layout : LineLayout K) (wrapWidth : K)
    (boundaries : List WrapBoundary) : Prop where
  increasing : boundaries.Pairwise (fun a b => a.lt b = true)
  starts : ∀ boundary ∈ boundaries, layout.StartsCluster boundary
  fits : ∀ row ∈ layout.wrapRows boundaries, row.Fits wrapWidth

namespace WrapState

/-- Whenever a wrap goes back to a candidate before the cluster that sticks out, what it carries
over, with that cluster, fits a row. -/
def carriesFit (text : Text) (breakIndices : List ℕ) (width wrapWidth : K) :
    WrapState K → List (WrapGlyph K) → Prop
  | _, [] => True
  | s, glyph :: glyphs =>
    if text.getD glyph.index 0 = 10 then carriesFit text breakIndices width wrapWidth s glyphs
    else
      let s := s.enter text breakIndices glyph
      let nextX := nextX width glyphs
      if wrapWidth < nextX - s.lastBoundaryX ∧ s.lastBoundary.lt glyph.boundary then
        (∀ candidate ∈ s.lastCandidateIx, candidate ≠ glyph.boundary →
          nextX - s.lastCandidateX ≤ wrapWidth) ∧
        carriesFit text breakIndices width wrapWidth (s.wrap glyph) glyphs
      else carriesFit text breakIndices width wrapWidth s glyphs

instance decidableCarriesFit (text : Text) (breakIndices : List ℕ) (width wrapWidth : K) :
    (s : WrapState K) → (glyphs : List (WrapGlyph K)) →
      Decidable (s.carriesFit text breakIndices width wrapWidth glyphs)
  | _, [] => inferInstanceAs (Decidable True)
  | s, glyph :: glyphs =>
    have := fun t => decidableCarriesFit text breakIndices width wrapWidth t glyphs
    decidable_of_iff (if text.getD glyph.index 0 = 10 then
        s.carriesFit text breakIndices width wrapWidth glyphs
      else
        let t := s.enter text breakIndices glyph
        if wrapWidth < nextX width glyphs - t.lastBoundaryX ∧ t.lastBoundary.lt glyph.boundary then
          (∀ candidate ∈ t.lastCandidateIx, candidate ≠ glyph.boundary →
            nextX width glyphs - t.lastCandidateX ≤ wrapWidth) ∧
          (t.wrap glyph).carriesFit text breakIndices width wrapWidth glyphs
        else t.carriesFit text breakIndices width wrapWidth glyphs) Iff.rfl

variable {s : WrapState K} {before carried glyphs : List (WrapGlyph K)} {text : Text}
  {breakIndices : List ℕ} {width wrapWidth : K}

theorem search_glyph {g : WrapGlyph K} (hg : text.getD g.index 0 ≠ 10) :
    search text breakIndices width wrapWidth none s (g :: glyphs) =
      let t := s.enter text breakIndices g
      search text breakIndices width wrapWidth none
        (if wrapWidth < nextX width glyphs - t.lastBoundaryX ∧ t.lastBoundary.lt g.boundary then
          t.wrap g else t) glyphs := by
  rw [search, if_neg hg]
  dsimp only
  rw [← nextX]
  split <;> simp

theorem Walks.search_boundaries (hs : s.Walks before carried glyphs) :
    ∃ new, (search text breakIndices width wrapWidth none s glyphs).boundaries =
        s.boundaries ++ new ∧ new.Sublist ((carried ++ glyphs).map (·.boundary)) := by
  induction glyphs generalizing s before carried with
  | nil => exact ⟨[], by simp [search], nil_sublist _⟩
  | cons g glyphs ih =>
    by_cases hg : text.getD g.index 0 = 10
    · rw [search, if_pos hg]
      obtain ⟨new, hnew, hsub⟩ := ih hs.skip
      refine ⟨new, hnew, hsub.trans ?_⟩
      exact ((sublist_cons_self g glyphs).append_left carried).map _
    obtain ⟨skipped, kept, hsplit, hs', -⟩ := hs.enter text breakIndices
    obtain ⟨hboundaries, -, -⟩ := s.enter_frame text breakIndices g
    have hlist : carried ++ g :: glyphs = skipped ++ (kept ++ glyphs) := by
      rw [← append_assoc, ← hsplit]
      simp
    rw [search_glyph hg]
    dsimp only
    split
    · cases kept with
      | nil =>
        rw [append_nil] at hsplit
        rw [← hsplit, ← append_assoc] at hs'
        obtain ⟨hwalks, hpush, -⟩ := hs'.wrap_glyph rfl
        obtain ⟨new, hnew, hsub⟩ := ih hwalks
        refine ⟨g.boundary :: new, ?_, ?_⟩
        · rw [hnew, hpush, hboundaries]
          simp
        · rw [map_append, map_cons]
          exact (hsub.cons_cons g.boundary).trans (sublist_append_right _ _)
      | cons c kept =>
        obtain ⟨hwalks, hpush, -⟩ := hs'.wrap_candidate g
        obtain ⟨new, hnew, hsub⟩ := ih hwalks
        refine ⟨c.boundary :: new, ?_, ?_⟩
        · rw [hnew, hpush, hboundaries]
          simp
        · rw [hlist, map_append, cons_append, map_cons, map_append]
          refine Sublist.trans ?_ (sublist_append_right _ _)
          exact (hsub.trans (sublist_append_right _ _)).cons_cons c.boundary
    · obtain ⟨new, hnew, hsub⟩ := ih hs'
      refine ⟨new, by rw [hnew, hboundaries], ?_⟩
      rw [hlist, map_append]
      exact hsub.trans (sublist_append_right _ _)

theorem Walks.new_eq {t : WrapState K} {pushed new : List WrapBoundary}
    (ht : t.Walks before carried glyphs) (hpushed : t.boundaries = s.boundaries ++ pushed)
    (hnew : (search text breakIndices width wrapWidth none t glyphs).boundaries =
      s.boundaries ++ new) :
    ∃ later, new = pushed ++ later ∧
      (search text breakIndices width wrapWidth none t glyphs).boundaries = t.boundaries ++ later ∧
      later.Sublist ((carried ++ glyphs).map (·.boundary)) := by
  obtain ⟨later, hlater, hsub⟩ := ht.search_boundaries
  refine ⟨later, ?_, hlater, hsub⟩
  rw [hlater, hpushed, append_assoc] at hnew
  exact (append_cancel_left hnew).symm

theorem not_forall_fits {new : List WrapBoundary} {row : List (WrapGlyph K)} {startX : K}
    (hsorted : glyphs.Pairwise (fun a b => a.x ≤ b.x)) (hwithin : ∀ g ∈ glyphs, g.x ≤ width)
    [IsStrictOrderedRing K]
    (hwide : wrapWidth < nextX width glyphs - startX) (hlen : 1 < row.length) :
    ¬ ∀ r ∈ cutRows width new startX row glyphs, r.Fits wrapWidth := by
  intro hall
  obtain ⟨r, hr, hstart, hend, hclusters⟩ :=
    @cutRows_open K _ width startX new row glyphs hsorted hwithin
  rcases hall r hr with hfits | hfits
  · rw [hstart] at hfits
    linarith
  · omega

theorem fits_enter {skipped kept : List (WrapGlyph K)} {g : WrapGlyph K} {startX : K}
    (hopen : g.x - startX ≤ wrapWidth ∨ (before ++ carried).length ≤ 1)
    (hcandidate : ∀ c ∈ carried.head?, c.x - startX ≤ wrapWidth ∨ before.length ≤ 1)
    (hsplit : carried ++ [g] = skipped ++ kept) 
    (hkept : kept = [g] ∨ (carried = [] ∧ kept = []) ∨ skipped = []) :
    ∀ c ∈ kept.head?, c.x - startX ≤ wrapWidth ∨ (before ++ skipped).length ≤ 1 := by
  intro c hc
  rcases hkept with rfl | ⟨rfl, rfl⟩ | rfl
  · obtain rfl : g = c := by simpa using hc
    obtain rfl : carried = skipped := append_cancel_right hsplit
    exact hopen
  · simp at hc
  · rw [nil_append] at hsplit
    subst hsplit
    rw [append_nil]
    cases carried with
    | nil =>
      obtain rfl : g = c := by simpa using hc
      simpa using hopen
    | cons d carried => exact hcandidate c hc

theorem Walks.search_fits [IsStrictOrderedRing K] (hs : s.Walks before carried glyphs)
    (htext : ∀ g ∈ glyphs, text.getD g.index 0 ≠ 10) (hwithin : ∀ g ∈ glyphs, g.x ≤ width)
    (hopen : nextX width glyphs - s.lastBoundaryX ≤ wrapWidth ∨ (before ++ carried).length ≤ 1)
    (hcandidate : ∀ c ∈ carried.head?, c.x - s.lastBoundaryX ≤ wrapWidth ∨ before.length ≤ 1)
    {new : List WrapBoundary}
    (hnew : (search text breakIndices width wrapWidth none s glyphs).boundaries =
      s.boundaries ++ new) :
    (∀ r ∈ cutRows width new s.lastBoundaryX before (carried ++ glyphs), r.Fits wrapWidth) ↔
      s.carriesFit text breakIndices width wrapWidth glyphs := by
  induction glyphs generalizing s before carried new with
  | nil =>
    obtain rfl : [] = new := by simpa [search] using hnew
    rw [cutRows_append (by simp)]
    simpa [cutRows, carriesFit, WrapRow.Fits, nextX] using hopen
  | cons g glyphs ih =>
    have hg : text.getD g.index 0 ≠ 10 := htext g (by simp)
    have htext' : ∀ h ∈ glyphs, text.getD h.index 0 ≠ 10 := fun h hh => htext h (by simp [hh])
    have hwithin' : ∀ h ∈ glyphs, h.x ≤ width := fun h hh => hwithin h (by simp [hh])
    obtain ⟨skipped, kept, hsplit, hs', hkept⟩ := hs.enter text breakIndices
    obtain ⟨hboundaries, hlast, hlastX⟩ := s.enter_frame text breakIndices g
    have hlist : carried ++ g :: glyphs = skipped ++ (kept ++ glyphs) := by
      rw [← append_assoc, ← hsplit]
      simp
    have hbefore := fits_enter hopen hcandidate hsplit hkept
    have hxs : glyphs.Pairwise (fun a b => a.x ≤ b.x) :=
      hs'.leftToRight.sublist (sublist_append_right _ _)
    rw [search_glyph hg] at hnew
    rw [carriesFit, if_neg hg]
    dsimp only at hnew ⊢
    split at hnew
    next hover =>
      rw [if_pos hover]
      cases kept with
      | nil =>
        -- no candidate: the wrap is before the glyph, which is a row of its own so far
        rw [append_nil] at hsplit
        obtain rfl : carried = [] := by
          rcases hkept with hkept | hkept | hkept
          · cases hkept
          · exact hkept.1
          · simp [hkept] at hsplit
        rw [← hsplit, nil_append] at hs'
        obtain ⟨hwalks, hpush, hx⟩ := hs'.wrap_glyph rfl
        rw [hboundaries] at hpush
        obtain ⟨later, rfl, hlater, -⟩ := hwalks.new_eq hpush hnew
        have hnone : ((s.enter text breakIndices g).lastCandidateIx) = none := hs'.candidate
        have hrow : WrapRow.Fits ⟨s.lastBoundaryX, g.x, before⟩ wrapWidth := by
          rw [append_nil] at hopen
          exact hopen
        have hrest := ih hwalks htext' hwithin' (.inr (by simp)) (by simp) hlater
        rw [hx, nil_append] at hrest
        rw [nil_append, singleton_append, cutRows_cut, forall_mem_cons, hrest, hnone]
        simp [hrow]
      | cons c kept =>
        obtain ⟨hwalks, hpush, hx⟩ := hs'.wrap_candidate g
        rw [hboundaries] at hpush
        obtain ⟨later, rfl, hlater, hsub⟩ := hwalks.new_eq hpush hnew
        have hsub' : (c.boundary :: later).Sublist ((c :: kept ++ glyphs).map (·.boundary)) := by
          rw [cons_append, map_cons, map_append]
          exact (hsub.trans (sublist_append_right _ _)).cons_cons c.boundary
        have hskipped := hs'.not_mem_of_sublist hsub'
        have hkept' := hwalks.not_mem_of_sublist hsub
        have hrow : WrapRow.Fits ⟨s.lastBoundaryX, c.x, before ++ skipped⟩ wrapWidth :=
          hbefore c rfl
        rw [hlist, singleton_append, cutRows_append (fun h hh => hskipped h (by simp [hh])),
          cons_append, cutRows_cut, forall_mem_cons,
          cutRows_append (fun h hh => hkept' h (by simp [hh])), singleton_append]
        have hix : (s.enter text breakIndices g).lastCandidateIx = some c.boundary := hs'.candidate
        have hcx : (s.enter text breakIndices g).lastCandidateX = c.x := hs'.candidateX c rfl
        have hsame := hs'.candidate_eq_iff hsplit
        rw [hix, hcx, and_iff_right hrow]
        by_cases hcarry : nextX width glyphs - c.x ≤ wrapWidth ∨ (c :: kept).length ≤ 1
        · have hrest := ih hwalks htext' hwithin' (by simpa [hx] using hcarry) (by simp) hlater
          rw [hx, nil_append] at hrest
          rw [hrest, and_iff_right]
          rintro _ ⟨rfl⟩ hne
          rcases hcarry with hcarry | hcarry
          · exact hcarry
          · exact absurd (hsame.mpr (by simpa using hcarry)) hne
        · push Not at hcarry
          have hne : c.boundary ≠ g.boundary := by
            intro heq
            rw [hsame.mp heq] at hcarry
            simp at hcarry
          constructor
          · intro hall
            exact absurd hall (not_forall_fits hxs hwithin' hcarry.1 hcarry.2)
          · intro hall
            exact absurd (hall.1 c.boundary rfl hne) (not_le.mpr hcarry.1)
    next hunder =>
      rw [if_neg hunder]
      obtain ⟨later, rfl, hlater, hskipped⟩ :=
        hs'.new_eq (by rw [hboundaries, append_nil]) hnew
      have hnot := hs'.not_mem_of_sublist hskipped
      rw [hlist, cutRows_append (fun h hh => hnot h (by simp [hh])), ← hlastX]
      apply ih hs' htext' hwithin' ?_ ?_ hlater
      · by_cases hwide : wrapWidth < nextX width glyphs - (s.enter text breakIndices g).lastBoundaryX
        · right
          have halone := hs.eq_nil_of_not_lt (by rw [← hlast]; exact fun hlt => hunder ⟨hwide, hlt⟩)
          rw [append_assoc, ← hsplit, ← append_assoc, halone]
          simp
        · left
          exact not_lt.mp hwide
      · rw [hlastX]
        exact hbefore

end WrapState

namespace LineLayout

theorem walks_new {layout : LineLayout K} (hlayout : layout.LeftToRight) :
    (WrapState.new : WrapState K).Walks [] [] layout.wrapGlyphs where
  candidate := rfl
  candidateX := by simp
  boundary := by
    intro g _
    rw [WrapBoundary.lt_iff]
    simp [WrapState.new]
  sorted := layout.wrapGlyphs_sorted
  leftToRight := hlayout.wrapGlyphs_x

theorem computeWrapBoundaries_sublist {layout : LineLayout K} (hlayout : layout.LeftToRight)
    (text : Text) (breaks : List ℕ) (wrapWidth : K) :
    (layout.computeWrapBoundaries text breaks wrapWidth none).Sublist
      (layout.wrapGlyphs.map (·.boundary)) := by
  obtain ⟨new, hnew, hsub⟩ : ∃ new,
      layout.computeWrapBoundaries text breaks wrapWidth none = [] ++ new ∧
        new.Sublist (([] ++ layout.wrapGlyphs).map WrapGlyph.boundary) :=
    (walks_new hlayout).search_boundaries
  rw [hnew]
  exact hsub

/-- A line whose glyphs run from left to right wraps into rows that fit exactly when no wrap
carries over more than a row. -/
theorem computeWrapBoundaries_wrapsToFit_iff [IsStrictOrderedRing K] (layout : LineLayout K)
    (text : Text) (breaks : List ℕ) (wrapWidth : K) (htext : 10 ∉ text)
    (hlayout : layout.LeftToRight) :
    layout.WrapsToFit wrapWidth (layout.computeWrapBoundaries text breaks wrapWidth none) ↔
      (WrapState.new : WrapState K).carriesFit text (breaks.filter (· ∈ layout.glyphIndices))
        layout.width wrapWidth layout.wrapGlyphs := by
  have hglyphs : ∀ g ∈ layout.wrapGlyphs, text.getD g.index 0 ≠ 10 := by
    intro g _ hnewline
    by_cases hindex : g.index < text.length
    · rw [getD_eq_getElem _ _ hindex] at hnewline
      exact htext (hnewline ▸ getElem_mem hindex)
    · rw [getD_eq_default _ _ (not_lt.mp hindex)] at hnewline
      simp at hnewline
  have hrows : (∀ row ∈ layout.wrapRows (layout.computeWrapBoundaries text breaks wrapWidth none),
      row.Fits wrapWidth) ↔ _ :=
    (walks_new hlayout).search_fits hglyphs hlayout.wrapGlyphs_x_le (.inr (by simp)) (by simp)
      (nil_append _).symm
  have hsub := computeWrapBoundaries_sublist hlayout text breaks wrapWidth
  rw [← hrows]
  constructor
  · intro hfits
    exact hfits.fits
  · intro hfits
    refine ⟨?_, ?_, hfits⟩
    · have hsorted : (layout.wrapGlyphs.map (·.boundary)).Pairwise (fun a b => a.lt b = true) :=
        pairwise_map.mpr layout.wrapGlyphs_sorted
      exact hsorted.sublist hsub
    · intro boundary hboundary
      obtain ⟨g, hg, rfl⟩ := mem_map.mp (hsub.subset hboundary)
      exact startsCluster_of_mem hg

/-- A line of one run, one glyph for each byte, given how wide each is. -/
def ofAdvances (advances : List ℚ) : LineLayout ℚ where
  fontSize := 16
  width := advances.sum
  ascent := 12
  descent := 4
  runs := [⟨0, advances.zipIdx.map (fun advance =>
    ⟨0, ⟨(advances.take advance.2).sum, 0⟩, advance.2, false⟩)⟩]
  len := advances.length

/-- `ab cd` wraps between the words, which are carried over whole. -/
theorem computeWrapBoundaries_wrapsToFit_words :
    10 ∉ ([97, 98, 32, 99, 100] : Text) ∧ (ofAdvances [10, 10, 10, 10, 10]).LeftToRight ∧
      (ofAdvances [10, 10, 10, 10, 10]).computeWrapBoundaries [97, 98, 32, 99, 100] [3] 40 none =
        [⟨0, 3⟩] ∧
      (ofAdvances [10, 10, 10, 10, 10]).WrapsToFit 40
        ((ofAdvances [10, 10, 10, 10, 10]).computeWrapBoundaries [97, 98, 32, 99, 100] [3] 40
          none) := by
  have htext : 10 ∉ ([97, 98, 32, 99, 100] : Text) := by decide
  have hlayout : (ofAdvances [10, 10, 10, 10, 10]).LeftToRight :=
    ⟨by with_unfolding_all decide, by with_unfolding_all decide⟩
  refine ⟨htext, hlayout, by with_unfolding_all decide, ?_⟩
  rw [computeWrapBoundaries_wrapsToFit_iff _ _ _ _ htext hlayout]
  with_unfolding_all decide

/-- `a bW`, where `bW` is carried over although it is wider than a row. -/
theorem computeWrapBoundaries_carries_wide :
    10 ∉ ([97, 32, 98, 87] : Text) ∧ (ofAdvances [4, 1, 1, 10]).LeftToRight ∧
      ¬ (ofAdvances [4, 1, 1, 10]).WrapsToFit 10
        ((ofAdvances [4, 1, 1, 10]).computeWrapBoundaries [97, 32, 98, 87] [2] 10 none) := by
  have hlayout : (ofAdvances [4, 1, 1, 10]).LeftToRight :=
    ⟨by with_unfolding_all decide, by with_unfolding_all decide⟩
  refine ⟨by decide, hlayout, ?_⟩
  intro hwraps
  have hrows := hwraps.fits
  revert hrows
  with_unfolding_all decide

end LineLayout

end GpuiFast
