import GpuiFast.LineLayout
import GpuiFast.ListSplit

/-! Which index of its text is at a place along a line, which is the closest, and where an index is.
An index that is looked up for a place is the closest one only where the line ends in a glyph
without width. -/

namespace GpuiFast

open List

variable {K : Type*} [LinearOrder K]

namespace LineLayout

def glyphs (layout : LineLayout K) : List (ShapedGlyph K) := layout.runs.flatMap (·.glyphs)

def indexForX (layout : LineLayout K) (x : K) : Option ℕ :=
  if layout.width ≤ x then none
  else
    let glyph := layout.glyphs.reverse.find? (fun glyph => glyph.position.x ≤ x)
    some ((glyph.map (·.index)).getD 0)

def xForIndex (layout : LineLayout K) (index : ℕ) : K :=
  ((layout.glyphs.find? (fun glyph => index ≤ glyph.index)).map (·.position.x)).getD layout.width

/-- Glyphs whose places strictly increase with their indices in the text. -/
structure Increasing (layout : LineLayout K) : Prop where
  x : layout.glyphs.Pairwise (fun a b => a.position.x < b.position.x)
  index : layout.glyphs.Pairwise (fun a b => a.index < b.index)
  index_lt : ∀ glyph ∈ layout.glyphs, glyph.index < layout.len

def Stop (layout : LineLayout K) (index : ℕ) : Prop :=
  (∃ glyph ∈ layout.glyphs, glyph.index = index) ∨ index = layout.len

omit [LinearOrder K] in
theorem xForIndex_zero {layout : LineLayout K} {first : ShapedGlyph K}
    (hfirst : first ∈ layout.glyphs.head?) : layout.xForIndex 0 = first.position.x := by
  obtain ⟨after, hglyphs⟩ := head?_eq_some_iff.mp hfirst
  simp [xForIndex, hglyphs]

end LineLayout

namespace LineLayout.Increasing

variable {layout : LineLayout K}

section

variable (h : layout.Increasing)
include h

theorem xForIndex_glyph {glyph : ShapedGlyph K} (hglyph : glyph ∈ layout.glyphs) :
    layout.xForIndex glyph.index = glyph.position.x := by
  obtain ⟨before, after, hsplit⟩ := append_of_mem hglyph
  have hbefore : before.find? (fun g => decide (glyph.index ≤ g.index)) = none := by
    rw [find?_eq_none]
    intro g hg
    have hindex := h.index
    rw [hsplit, pairwise_append] at hindex
    have hlt := hindex.2.2 g hg glyph (by simp)
    simpa using hlt
  rw [xForIndex, hsplit, find?_append, hbefore]
  simp

theorem xForIndex_len : layout.xForIndex layout.len = layout.width := by
  have hnone : layout.glyphs.find? (fun g => decide (layout.len ≤ g.index)) = none := by
    rw [find?_eq_none]
    intro g hg
    simpa using h.index_lt g hg
  rw [xForIndex, hnone]
  rfl

/-- The index found at a place is that of the last glyph up to it, or zero before all. -/
theorem indexForX_spec {x : K} (hx : x < layout.width) :
    ∃ index, layout.indexForX x = some index ∧
      ((∃ g ∈ layout.glyphs, g.index = index ∧ g.position.x ≤ x ∧
          ∀ a ∈ layout.glyphs, a.position.x ≤ x → a.index ≤ index) ∨
        (index = 0 ∧ ∀ a ∈ layout.glyphs, x < a.position.x)) := by
  rw [indexForX, if_neg (not_le.mpr hx)]
  cases hfind : layout.glyphs.reverse.find? (fun g => decide (g.position.x ≤ x)) with
  | none =>
    refine ⟨0, rfl, .inr ⟨rfl, ?_⟩⟩
    intro a ha
    have hnot := find?_eq_none.mp hfind a (mem_reverse.mpr ha)
    simpa using hnot
  | some g =>
    obtain ⟨hgx, after, before, hrev, hafter⟩ := find?_eq_some_iff_append.mp hfind
    have hglyphs : layout.glyphs = before.reverse ++ g :: after.reverse := by
      rw [← reverse_reverse layout.glyphs, hrev]
      simp
    refine ⟨g.index, rfl, .inl ⟨g, by simp [hglyphs], rfl, by simpa using hgx, ?_⟩⟩
    intro a ha hax
    rw [hglyphs, mem_append, mem_cons, mem_reverse, mem_reverse] at ha
    have hindex := h.index
    rw [hglyphs, pairwise_append] at hindex
    rcases ha with ha | rfl | ha
    · exact (hindex.2.2 a (mem_reverse.mpr ha) g (by simp)).le
    · exact le_rfl
    · have hnot := hafter a ha
      simp only [Bool.not_eq_true', decide_eq_false_iff_not] at hnot
      exact absurd hax hnot

variable {a b : ShapedGlyph K}

theorem eq_of_index_eq (ha : a ∈ layout.glyphs) (hb : b ∈ layout.glyphs) (heq : a.index = b.index) :
    a = b := by
  obtain ⟨before, after, hglyphs⟩ := append_of_mem ha
  have hindex := h.index
  rw [hglyphs, pairwise_append, pairwise_cons] at hindex
  rw [hglyphs, mem_append, mem_cons] at hb
  rcases hb with hb | rfl | hb
  · have hlt := hindex.2.2 b hb a (by simp)
    omega
  · rfl
  · have hlt := hindex.2.1.1 b hb
    omega

theorem x_lt_iff (ha : a ∈ layout.glyphs) (hb : b ∈ layout.glyphs) :
    a.position.x < b.position.x ↔ a.index < b.index := by
  obtain ⟨before, after, hglyphs⟩ := append_of_mem ha
  have hx := h.x
  have hindex := h.index
  rw [hglyphs, pairwise_append, pairwise_cons] at hx hindex
  rw [hglyphs, mem_append, mem_cons] at hb
  rcases hb with hb | rfl | hb
  · have hlt := hx.2.2 b hb a (by simp)
    have hlt' := hindex.2.2 b hb a (by simp)
    exact ⟨fun hab => absurd hab hlt.not_gt, fun hab => absurd hab hlt'.not_gt⟩
  · simp
  · exact ⟨fun _ => hindex.2.1.1 b hb, fun _ => hx.2.1.1 b hb⟩

end

variable {g : ShapedGlyph K}

section

variable (h : layout.Increasing)
include h

theorem indexForX_eq_glyph_iff {x : K} (hx : x < layout.width) (hg : g ∈ layout.glyphs) :
    layout.indexForX x = some g.index ↔
      (g.position.x ≤ x ∧ ∀ a ∈ layout.glyphs, g.index < a.index → x < a.position.x) ∨
        (g.index = 0 ∧ ∀ a ∈ layout.glyphs, x < a.position.x) := by
  obtain ⟨index, hindex, hspec⟩ := h.indexForX_spec hx
  rw [hindex, Option.some.injEq]
  rcases hspec with ⟨g', hg', rfl, hgx', hlast⟩ | ⟨rfl, hall⟩
  · constructor
    · intro heq
      obtain rfl := h.eq_of_index_eq hg' hg heq
      refine .inl ⟨hgx', ?_⟩
      intro a ha hlt
      by_contra hax
      have hle := hlast a ha (not_lt.mp hax)
      omega
    · rintro (⟨hgx, hafter⟩ | ⟨-, hall⟩)
      · have hle := hlast g hg hgx
        by_contra hne
        exact absurd hgx' (not_le.mpr (hafter g' hg' (by omega)))
      · exact absurd hgx' (not_le.mpr (hall g' hg'))
  · constructor
    · intro heq
      exact .inr ⟨heq.symm, hall⟩
    · rintro (⟨hgx, -⟩ | ⟨hzero, -⟩)
      · exact absurd hgx (not_le.mpr (hall g hg))
      · exact hzero.symm

theorem indexForX_ne_len (hne : layout.glyphs ≠ []) (x : K) :
    layout.indexForX x ≠ some layout.len := by
  intro hlen
  by_cases hx : x < layout.width
  · obtain ⟨index, hindex, hspec⟩ := h.indexForX_spec hx
    rw [hindex, Option.some.injEq] at hlen
    rcases hspec with ⟨g, hg, rfl, -⟩ | ⟨rfl, -⟩
    · exact (h.index_lt g hg).ne hlen
    · obtain ⟨g, hg⟩ := exists_mem_of_ne_nil _ hne
      have hlt := h.index_lt g hg
      omega
  · rw [indexForX, if_pos (not_lt.mp hx)] at hlen
    cases hlen

theorem stop_ne {after : List (ShapedGlyph K)} (hg : g ∈ layout.glyphs)
    (hafter : ∀ b ∈ after, g.index < b.index) :
    (after.head?.map (·.index)).getD layout.len ≠ g.index := by
  cases after with
  | nil => exact (h.index_lt g hg).ne'
  | cons b after => exact (hafter b (by simp)).ne'

theorem head_index (hg : g ∈ layout.glyphs) (hzero : g.index = 0) :
    layout.glyphs.head? = some g := by
  obtain ⟨before, after, hsplit⟩ := append_of_mem hg
  cases before with
  | nil => rw [hsplit, nil_append, head?_cons]
  | cons p before =>
    have hindex := h.index
    rw [hsplit, pairwise_append] at hindex
    have hlt := hindex.2.2 p (by simp) g (by simp)
    omega

theorem eq_singleton (hlen : layout.len = 1) (hg : g ∈ layout.glyphs) :
    layout.glyphs = [g] ∧ g.index = 0 := by
  have hzero : ∀ g ∈ layout.glyphs, g.index = 0 := by
    intro g hg
    have hlt := h.index_lt g hg
    omega
  have hhead := h.head_index hg (hzero g hg)
  obtain ⟨after, hglyphs⟩ := head?_eq_some_iff.mp hhead
  refine ⟨?_, hzero g hg⟩
  cases after with
  | nil => exact hglyphs
  | cons p after =>
    have hindex := h.index
    rw [hglyphs, pairwise_cons] at hindex
    have hlt := hindex.1 p (by simp)
    have hp := hzero p (by simp [hglyphs])
    omega

theorem head_le {first : ShapedGlyph K} (hfirst : first ∈ layout.glyphs.head?)
    (hg : g ∈ layout.glyphs) : first.index ≤ g.index ∧ first.position.x ≤ g.position.x := by
  obtain ⟨after, hglyphs⟩ := head?_eq_some_iff.mp hfirst
  have hx := h.x
  have hindex := h.index
  rw [hglyphs, pairwise_cons] at hx hindex
  rw [hglyphs, mem_cons] at hg
  rcases hg with rfl | hg
  · exact ⟨le_rfl, le_rfl⟩
  · exact ⟨(hindex.1 g hg).le, (hx.1 g hg).le⟩

theorem le_last {last : ShapedGlyph K} (hlast : last ∈ layout.glyphs.getLast?)
    (hg : g ∈ layout.glyphs) : g.position.x ≤ last.position.x := by
  obtain ⟨before, hglyphs⟩ := getLast?_eq_some_iff.mp hlast
  have hx := h.x
  rw [hglyphs, pairwise_append] at hx
  rw [hglyphs, mem_append, mem_singleton] at hg
  rcases hg with hg | rfl
  · exact (hx.2.2 g hg last (by simp)).le
  · exact le_rfl

theorem forall_stop (P : K → Prop) (hglyphs : ∀ g ∈ layout.glyphs, P g.position.x)
    (hwidth : P layout.width) : ∀ other, layout.Stop other → P (layout.xForIndex other) := by
  rintro other (⟨g, hg, rfl⟩ | rfl)
  · rw [h.xForIndex_glyph hg]
    exact hglyphs g hg
  · rw [h.xForIndex_len]
    exact hwidth

end

end LineLayout.Increasing

variable [Field K]

namespace LineLayout

/-- Goes through glyphs for the one closest to a place, given the glyph before them. -/
def closestFrom (layout : LineLayout K) (x : K) : ℕ → K → List (ShapedGlyph K) → ℕ
  | _, _, [] =>
    if layout.len = 1 then if layout.width / 2 < x then 1 else 0 else layout.len
  | prevIndex, prevX, glyph :: glyphs =>
    if x ≤ glyph.position.x then
      if glyph.position.x - x < x - prevX then glyph.index else prevIndex
    else layout.closestFrom x glyph.index glyph.position.x glyphs

def closestIndexForX (layout : LineLayout K) (x : K) : ℕ :=
  layout.closestFrom x 0 0 layout.glyphs

def Nearest (layout : LineLayout K) (x : K) (index : ℕ) : Prop :=
  layout.Stop index ∧
    ∀ other, layout.Stop other → |layout.xForIndex index - x| ≤ |layout.xForIndex other - x|

/-- A line that has nothing between its last stop but one and its width: some glyph stands at the
width. The only byte of a line may also start at zero, and all glyphs may be further before zero
than the line is wide. -/
structure ClosedByGlyph (layout : LineLayout K) : Prop where
  empty : layout.glyphs = [] → layout.len ≠ 1
  first : ∀ g ∈ layout.glyphs.head?, 0 ≤ g.position.x → g.index = 0
  last : ∀ g ∈ layout.glyphs.getLast?, (∃ glyph ∈ layout.glyphs, glyph.position.x = layout.width) ∨
    if layout.len = 1 then g.position.x = 0 else g.position.x ≤ -layout.width

variable {layout : LineLayout K}

variable {x : K} {after : List (ShapedGlyph K)}

variable {before : List (ShapedGlyph K)} {p : ShapedGlyph K}

theorem closestFrom_append (hbefore : ∀ g ∈ before, g.position.x < x) (hp : p.position.x < x)
    (prevIndex : ℕ) (prevX : K) :
    layout.closestFrom x prevIndex prevX (before ++ p :: after) =
      layout.closestFrom x p.index p.position.x after := by
  induction before generalizing prevIndex prevX with
  | nil => rw [nil_append, closestFrom, if_neg (not_le.mpr hp)]
  | cons g before ih =>
    have hg := hbefore g (by simp)
    rw [cons_append, closestFrom, if_neg (not_le.mpr hg)]
    exact ih (fun h hh => hbefore h (by simp [hh])) _ _

theorem closestIndexForX_past (hx : ∀ g ∈ layout.glyphs, g.position.x < x) :
    layout.closestIndexForX x =
      if layout.len = 1 then if layout.width / 2 < x then 1 else 0 else layout.len := by
  rw [closestIndexForX]
  rcases eq_nil_or_concat layout.glyphs with hglyphs | ⟨before, p, hglyphs⟩
  · rw [hglyphs, closestFrom]
  · rw [concat_eq_append] at hglyphs
    rw [hglyphs] at hx ⊢
    rw [closestFrom_append (fun g hg => hx g (by simp [hg])) (hx p (by simp)), closestFrom]

theorem closestIndexForX_first {first : ShapedGlyph K} (hglyphs : layout.glyphs = first :: after)
    (hx : x ≤ first.position.x) :
    layout.closestIndexForX x = if first.position.x - x < x - 0 then first.index else 0 := by
  rw [closestIndexForX, hglyphs, closestFrom, if_pos hx]

theorem closestIndexForX_between {g : ShapedGlyph K}
    (hglyphs : layout.glyphs = before ++ p :: g :: after) (hbefore : ∀ g ∈ before, g.position.x < x)
    (hp : p.position.x < x) (hx : x ≤ g.position.x) :
    layout.closestIndexForX x =
      if g.position.x - x < x - p.position.x then g.index else p.index := by
  rw [closestIndexForX, hglyphs, closestFrom_append hbefore hp, closestFrom, if_pos hx]

section Nearest

variable {x : K}

theorem nearest_glyph (h : layout.Increasing) {glyph : ShapedGlyph K}
    (hglyph : glyph ∈ layout.glyphs)
    (hglyphs : ∀ g ∈ layout.glyphs, |glyph.position.x - x| ≤ |g.position.x - x|)
    (hwidth : |glyph.position.x - x| ≤ |layout.width - x|) : layout.Nearest x glyph.index := by
  refine ⟨.inl ⟨glyph, hglyph, rfl⟩, ?_⟩
  rw [h.xForIndex_glyph hglyph]
  exact h.forall_stop (fun y => |glyph.position.x - x| ≤ |y - x|) hglyphs hwidth

theorem nearest_len (h : layout.Increasing)
    (hglyphs : ∀ g ∈ layout.glyphs, |layout.width - x| ≤ |g.position.x - x|) :
    layout.Nearest x layout.len := by
  refine ⟨.inr rfl, ?_⟩
  rw [h.xForIndex_len]
  exact h.forall_stop (fun y => |layout.width - x| ≤ |y - x|) hglyphs le_rfl

variable [IsStrictOrderedRing K]

/-- Past every glyph, up to the width. -/
theorem nearest_past (h : layout.Increasing) (hclosed : layout.ClosedByGlyph) (hx : 0 ≤ x)
    (hwidth : x ≤ layout.width) (hpast : ∀ g ∈ layout.glyphs, g.position.x < x) :
    layout.Nearest x (layout.closestIndexForX x) := by
  rw [closestIndexForX_past hpast]
  have hnone : ¬ ∃ g ∈ layout.glyphs, g.position.x = layout.width := by
    rintro ⟨g, hg, heq⟩
    have hlt := hpast g hg
    linarith
  split
  next hlen =>
    have hne : layout.glyphs ≠ [] := fun hnil => hclosed.empty hnil hlen
    obtain ⟨g, hg⟩ := exists_mem_of_ne_nil _ hne
    obtain ⟨hglyphs, hindex⟩ := h.eq_singleton hlen hg
    have hzero : g.position.x = 0 := by
      simpa [hlen] using (hclosed.last g (by simp [hglyphs])).resolve_left hnone
    split
    next hhalf =>
      rw [← hlen]
      apply nearest_len h
      intro g' hg'
      obtain rfl : g' = g := by simpa [hglyphs] using hg'
      rw [hzero, abs_of_nonneg (by linarith), abs_of_nonpos (by linarith)]
      linarith
    next hhalf =>
      rw [← hindex]
      apply nearest_glyph h hg
      · intro g' hg'
        obtain rfl : g' = g := by simpa [hglyphs] using hg'
        exact le_rfl
      · rw [hzero, abs_of_nonpos (by linarith), abs_of_nonneg (by linarith)]
        linarith
  next hlen =>
    apply nearest_len h
    intro g hg
    have hlast : layout.glyphs.getLast (ne_nil_of_mem hg) ∈ layout.glyphs.getLast? := by
      rw [getLast?_eq_some_getLast (ne_nil_of_mem hg)]
      rfl
    have hbefore := (hclosed.last _ hlast).resolve_left hnone
    rw [if_neg hlen] at hbefore
    have hle := h.le_last hlast hg
    rw [abs_of_nonneg (by linarith), abs_of_nonpos (by linarith)]
    linarith

/-- From the first glyph on, up to the width or a glyph that stands at it. -/
theorem nearest_between (h : layout.Increasing) {before after : List (ShapedGlyph K)}
    {p g : ShapedGlyph K} (hglyphs : layout.glyphs = before ++ p :: g :: after)
    (hp : p.position.x < x) (hx : x ≤ g.position.x) (hwidth : g.position.x ≤ layout.width) :
    layout.Nearest x (layout.closestIndexForX x) := by
  have hsorted := h.x
  rw [hglyphs, pairwise_append, pairwise_cons, pairwise_cons] at hsorted
  obtain ⟨-, ⟨-, hafter, -⟩, hbefore⟩ := hsorted
  have hbefore' : ∀ b ∈ before, b.position.x < p.position.x := fun b hb =>
    hbefore b hb p (by simp)
  have hdist : ∀ d : K, d ≤ x - p.position.x → d ≤ g.position.x - x →
      (∀ b ∈ layout.glyphs, d ≤ |b.position.x - x|) ∧ d ≤ |layout.width - x| := by
    intro d hdp hdg
    refine ⟨?_, ?_⟩
    · intro b hb
      rw [hglyphs, mem_append, mem_cons, mem_cons] at hb
      rcases hb with hb | rfl | rfl | hb
      · have hlt := hbefore' b hb
        exact le_abs.mpr (.inr (by linarith))
      · exact le_abs.mpr (.inr (by linarith))
      · exact le_abs.mpr (.inl hdg)
      · have hlt := hafter b hb
        exact le_abs.mpr (.inl (by linarith))
    · exact le_abs.mpr (.inl (by linarith))
  rw [closestIndexForX_between hglyphs (fun b hb => (hbefore' b hb).trans hp) hp hx]
  split
  next hnear =>
    have hg : |g.position.x - x| = g.position.x - x := abs_of_nonneg (by linarith)
    obtain ⟨hall, hend⟩ := hdist (g.position.x - x) hnear.le le_rfl
    rw [← hg] at hall hend
    exact nearest_glyph h (by simp [hglyphs]) hall hend
  next hnear =>
    have hg : |p.position.x - x| = x - p.position.x := by
      rw [abs_of_nonpos (by linarith)]
      ring
    obtain ⟨hall, hend⟩ := hdist (x - p.position.x) le_rfl (not_lt.mp hnear)
    rw [← hg] at hall hend
    exact nearest_glyph h (by simp [hglyphs]) hall hend

theorem ClosedByGlyph.nearest (hclosed : layout.ClosedByGlyph) (h : layout.Increasing)
    (hx : 0 ≤ x) (hwidth : x ≤ layout.width) : layout.Nearest x (layout.closestIndexForX x) := by
  obtain ⟨before, after, hglyphs, hbefore, hafter⟩ := exists_split_of_sorted (fun g : ShapedGlyph K => g.position.x) h.x x
  cases after with
  | nil =>
    apply nearest_past h hclosed hx hwidth
    intro g hg
    rw [hglyphs, append_nil] at hg
    exact hbefore g hg
  | cons g after =>
    have hgx := hafter g (by simp)
    -- a glyph from the place on is no further than the one at the width
    have hgw : g.position.x ≤ layout.width := by
      have hmem : g ∈ layout.glyphs := by simp [hglyphs]
      have hlast := getLast?_eq_some_getLast (ne_nil_of_mem hmem)
      have hle := h.le_last hlast hmem
      rcases hclosed.last _ hlast with ⟨end', hend', hx'⟩ | hlast'
      · rw [hglyphs, mem_append, mem_cons] at hend'
        rcases hend' with hend' | rfl | hend'
        · have hlt := hbefore end' hend'
          linarith
        · exact hx'.le
        · have hsorted := h.x
          rw [hglyphs, pairwise_append, pairwise_cons] at hsorted
          have hlt := hsorted.2.1.1 end' hend'
          linarith
      · split at hlast' <;> linarith
    rcases eq_nil_or_concat before with rfl | ⟨before, p, rfl⟩
    · rw [nil_append] at hglyphs
      have hzero : g.index = 0 := hclosed.first g (by simp [hglyphs]) (hx.trans hgx)
      have hindex : layout.closestIndexForX x = g.index := by
        rw [closestIndexForX_first hglyphs hgx, hzero]
        exact ite_self 0
      rw [hindex]
      have hsorted := h.x
      rw [hglyphs, pairwise_cons] at hsorted
      have habs : |g.position.x - x| = g.position.x - x := abs_of_nonneg (by linarith)
      apply nearest_glyph h (by simp [hglyphs])
      · intro b hb
        rw [hglyphs, mem_cons] at hb
        rcases hb with rfl | hb
        · exact le_rfl
        · have hlt := hsorted.1 b hb
          rw [habs]
          exact le_abs.mpr (.inl (by linarith))
      · rw [habs]
        exact le_abs.mpr (.inl (by linarith))
    · rw [concat_eq_append, append_assoc, singleton_append] at hglyphs
      exact nearest_between h hglyphs (hbefore p (by simp)) hgx hgw

section

variable (h : layout.Increasing)
include h

/-- A line whose closest indices are all nearest has a glyph at its width, or none of its glyphs
reaches it. -/
theorem lt_width_of_nearest
    (hnear : layout.Nearest layout.width (layout.closestIndexForX layout.width))
    (hnone : ¬ ∃ g ∈ layout.glyphs, g.position.x = layout.width) :
    ∀ g ∈ layout.glyphs, g.position.x < layout.width := by
  -- the index looked up at the width is the end of the text
  have hlen : layout.closestIndexForX layout.width = layout.len := by
    obtain ⟨hstop, hle⟩ := hnear
    have hzero := hle layout.len (.inr rfl)
    rw [h.xForIndex_len, sub_self, abs_zero] at hzero
    rcases hstop with ⟨g, hg, hindex⟩ | hstop
    · rw [← hindex, h.xForIndex_glyph hg] at hzero
      have heq := abs_eq_zero.mp (le_antisymm hzero (abs_nonneg _))
      exact absurd ⟨g, hg, sub_eq_zero.mp heq⟩ hnone
    · exact hstop
  obtain ⟨before, after, hglyphs, hbefore, hafter⟩ := 
    exists_split_of_sorted (fun g : ShapedGlyph K => g.position.x) h.x layout.width
  cases after with
  | nil =>
    rw [append_nil] at hglyphs
    rw [hglyphs]
    exact hbefore
  | cons g after =>
    have hgx := hafter g (by simp)
    have hg := h.index_lt g (by simp [hglyphs])
    rcases eq_nil_or_concat before with rfl | ⟨before, p, rfl⟩
    · rw [closestIndexForX_first hglyphs hgx] at hlen
      split at hlen <;> omega
    · rw [concat_eq_append, append_assoc, singleton_append] at hglyphs
      have hp := h.index_lt p (by simp [hglyphs])
      rw [closestIndexForX_between hglyphs (fun b hb => hbefore b (by simp [hb]))
        (hbefore p (by simp)) hgx] at hlen
      split at hlen <;> omega

theorem last_le_of_nearest (hlen : layout.len ≠ 1) {last : ShapedGlyph K}
    (hlast : last ∈ layout.glyphs.getLast?) (hlt : last.position.x < layout.width)
    (hnear : ∀ x, 0 ≤ x → x ≤ layout.width → layout.Nearest x (layout.closestIndexForX x)) :
    last.position.x ≤ -layout.width := by
  have hmem : last ∈ layout.glyphs := mem_of_getLast? hlast
  -- at a place past the last glyph the end of the text is looked up
  have hpast : ∀ x, 0 ≤ x → x ≤ layout.width → last.position.x < x →
      layout.width - x ≤ x - last.position.x := by
    intro x hx hxw hlx
    have hle := (hnear x hx hxw).2 last.index (.inl ⟨last, hmem, rfl⟩)
    rw [closestIndexForX_past (fun g hg => (h.le_last hlast hg).trans_lt hlx), if_neg hlen,
      h.xForIndex_len, h.xForIndex_glyph hmem, abs_of_nonneg (by linarith),
      abs_of_nonpos (by linarith)] at hle
    linarith
  rcases lt_or_ge last.position.x 0 with hneg | hpos
  · have hle := hpast 0 le_rfl
    by_contra hcontra
    have hle' := hle (by linarith) hneg
    linarith
  · have hle := hpast ((3 * last.position.x + layout.width) / 4) (by linarith) (by linarith)
      (by linarith)
    linarith

/-- The only glyph of one byte starts the line. -/
theorem only_eq_zero_of_nearest (hlen : layout.len = 1) {g : ShapedGlyph K} (hg : g ∈ layout.glyphs)
    (hwidth : 0 ≤ layout.width) (hlt : g.position.x < layout.width)
    (hnear : ∀ x, 0 ≤ x → x ≤ layout.width → layout.Nearest x (layout.closestIndexForX x)) :
    g.position.x = 0 := by
  obtain ⟨hglyphs, hindex⟩ := h.eq_singleton hlen hg
  have hpast : ∀ x, g.position.x < x → ∀ b ∈ layout.glyphs, b.position.x < x := by
    intro x hx b hb
    obtain rfl : b = g := by simpa [hglyphs] using hb
    exact hx
  rcases lt_trichotomy g.position.x 0 with hneg | hzero | hpos
  · -- halfway the glyph is looked up, but the end is nearer
    have hle := (hnear (layout.width / 2) (by linarith) (by linarith)).2 layout.len (.inr rfl)
    have hclosest : layout.closestIndexForX (layout.width / 2) = g.index := by
      rw [closestIndexForX_past (hpast _ (by linarith)), if_pos hlen, if_neg (lt_irrefl _), hindex]
    rw [hclosest, h.xForIndex_glyph hg, h.xForIndex_len, abs_of_nonpos (by linarith),
      abs_of_nonneg (by linarith)] at hle
    linarith
  · exact hzero
  · -- just before the middle of the glyph and the width the end is looked up
    obtain ⟨x, hmax, hmid⟩ := exists_between
      (max_lt (show layout.width / 2 < (g.position.x + layout.width) / 2 by linarith)
        (show g.position.x < (g.position.x + layout.width) / 2 by linarith))
    obtain ⟨hhalf, hgx⟩ := max_lt_iff.mp hmax
    have hle := (hnear x (by linarith) (by linarith)).2 g.index (.inl ⟨g, hg, rfl⟩)
    rw [closestIndexForX_past (hpast _ hgx), if_pos hlen, if_pos hhalf, ← hlen, h.xForIndex_len,
      h.xForIndex_glyph hg, abs_of_nonneg (by linarith), abs_of_nonpos (by linarith)] at hle
    linarith

theorem closedByGlyph_of_nearest (hwidth : 0 ≤ layout.width)
    (hnear : ∀ x, 0 ≤ x → x ≤ layout.width → layout.Nearest x (layout.closestIndexForX x)) :
    layout.ClosedByGlyph where
  empty := by
    intro hnil hlen
    have hstop := (hnear 0 le_rfl hwidth).1
    rw [closestIndexForX_past (by simp [hnil]), if_pos hlen, if_neg (by linarith)] at hstop
    simp [Stop, hnil, hlen] at hstop
  first := by
    intro g hg hx
    obtain ⟨after, hglyphs⟩ := head?_eq_some_iff.mp hg
    have hstop := (hnear 0 le_rfl hwidth).1
    rw [closestIndexForX_first hglyphs hx, if_neg (by linarith)] at hstop
    rcases hstop with ⟨g', hg', hindex⟩ | hlen
    · have hhead := h.head_index hg' hindex
      rw [hhead] at hg
      obtain rfl : g' = g := by simpa using hg
      exact hindex
    · have hlt := h.index_lt g (by simp [hglyphs])
      omega
  last := by
    intro last hlast
    by_cases hat : ∃ glyph ∈ layout.glyphs, glyph.position.x = layout.width
    · exact .inl hat
    · right
      have hmem : last ∈ layout.glyphs := mem_of_getLast? hlast
      have hlt := lt_width_of_nearest h (hnear _ hwidth le_rfl) hat last hmem
      split
      next hlen => exact only_eq_zero_of_nearest h hlen hmem hwidth hlt hnear
      next hlen => exact last_le_of_nearest h hlen hlast hlt hnear

theorem nearest_iff_closedByGlyph :
    (∀ x, 0 ≤ x → x ≤ layout.width → layout.Nearest x (layout.closestIndexForX x)) ↔
      (0 ≤ layout.width → layout.ClosedByGlyph) := by
  constructor
  · intro hnear hwidth
    exact closedByGlyph_of_nearest h hwidth hnear
  · intro hclosed x hx hxw
    exact (hclosed (hx.trans hxw)).nearest h hx hxw

end

end Nearest

end LineLayout

end GpuiFast
