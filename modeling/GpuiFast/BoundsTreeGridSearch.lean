import GpuiFast.BoundsTreeGridHolds

namespace GpuiFast

open List

variable {K : Type*} [Field K] [LinearOrder K] [IsStrictOrderedRing K] [FloorRing K]

namespace Span

variable {s : Span K} {cell cells : ℕ}

omit [IsStrictOrderedRing K] [FloorRing K] in
lemma covers_iff : s.covers cell cells = true ↔
    (s.start : WithBot K) ≤ cellStart cell ∧ cellEnd cell cells ≤ (s.stop : WithTop K) := by
  simp [covers]

omit [IsStrictOrderedRing K] [FloorRing K] in
lemma enters_iff : s.enters cell cells = true ↔
    (s.start : WithTop K) < cellEnd cell cells ∧ cellStart cell < (s.stop : WithBot K) := by
  simp [enters]

omit [IsStrictOrderedRing K] [FloorRing K] in
lemma overlaps_of_covers_enters {t : Span K} (hs : s.covers cell cells = true)
    (ht : t.enters cell cells = true) : s.start < t.stop ∧ t.start < s.stop := by
  rw [covers_iff] at hs
  rw [enters_iff] at ht
  exact ⟨WithBot.coe_lt_coe.mp (hs.1.trans_lt ht.2), WithTop.coe_lt_coe.mp (ht.1.trans_le hs.2)⟩

lemma common_cell {a b a' b' : K} (hcells : 0 < cells) (hs : a < b) (ht : a' < b') (h : a < b')
    (h' : a' < b) :
    ∃ cell, ((Span.new a b cells).firstCell ≤ cell ∧ cell ≤ (Span.new a b cells).lastCell) ∧
      ((Span.new a' b' cells).firstCell ≤ cell ∧ cell ≤ (Span.new a' b' cells).lastCell) ∧
      (Span.new a' b' cells).enters cell cells = true := by
  refine ⟨cellAt (max a a') cells, ⟨cellAt_mono (le_max_left _ _) _,
    cellAt_mono (max_le hs.le h'.le) _⟩, ⟨cellAt_mono (le_max_right _ _) _,
    cellAt_mono (max_le h.le ht.le) _⟩, ?_⟩
  rw [enters_iff]
  constructor
  · exact (WithTop.coe_le_coe.mpr (le_max_right a a')).trans_lt (lt_cellEnd_cellAt _ hcells)
  · exact (cellStart_cellAt_le _ _).trans_lt (WithBot.coe_lt_coe.mpr (max_lt h ht))

end Span

namespace Grid

variable {b : Bounds K} {g : Grid K} {query : Bounds K} {n : ℕ} {l : List (Bounds K × ℕ)}

omit [IsStrictOrderedRing K] [FloorRing K] in
lemma hasArea_iff : hasArea b = true ↔ 0 < b.size.width ∧ 0 < b.size.height := by
  simp [hasArea]

variable {q : Bounds K}

omit [IsStrictOrderedRing K] in
lemma intersects_of_covers_enters {row column : ℕ} (hb : g.coversCell b row column = true)
    (hq : g.entersCell q row column = true) : b.intersects q = true := by
  simp only [coversCell, Bool.and_eq_true] at hb
  simp only [entersCell, Bool.and_eq_true] at hq
  rw [Bounds.intersects_iff]
  exact ⟨Span.overlaps_of_covers_enters hb.2 hq.2, Span.overlaps_of_covers_enters hb.1 hq.1⟩

lemma common_cell (hb : hasArea b = true) (hq : hasArea q = true) (h : b.intersects q = true) :
    ∃ rc ∈ g.spanCells q, g.reaches rc.1 rc.2 b = true ∧ g.entersCell q rc.1 rc.2 = true := by
  rw [Bounds.intersects_iff] at h
  have hb' := hasArea_iff.mp hb
  have hq' := hasArea_iff.mp hq
  obtain ⟨column, hbc, hqc, hec⟩ := Span.common_cell g.columns_pos
    (lt_add_of_pos_right b.origin.x hb'.1) (lt_add_of_pos_right q.origin.x hq'.1) h.1.1 h.1.2
  obtain ⟨row, hbr, hqr, her⟩ := Span.common_cell g.rows_pos
    (lt_add_of_pos_right b.origin.y hb'.2) (lt_add_of_pos_right q.origin.y hq'.2) h.2.1 h.2.2
  refine ⟨(row, column), mem_spanCells.mpr ⟨hqr, hqc⟩, ?_, ?_⟩
  · simp only [reaches, hb, Bool.true_and, decide_eq_true_eq]
    exact mem_spanCells.mpr ⟨hbr, hbc⟩
  · simp only [entersCell, Bool.and_eq_true]
    exact ⟨her, hec⟩

omit [IsStrictOrderedRing K] [FloorRing K] in
lemma searchList_le_iff {entries : List (Entry K)} {head : Option ℕ} {es : List (Entry K)}
    (hlinked : ArenaList.Linked Entry.next entries head es) (hrest : RestBounded es) (fuel : ℕ)
    (hfuel : es.length ≤ fuel) (m : ℕ) :
    searchList entries query fuel head m ≤ n ↔
      m ≤ n ∧ ∀ e ∈ es, e.bounds.intersects query = true → e.order ≤ n := by
  induction hlinked generalizing fuel m with
  | nil => cases fuel <;> simp [searchList]
  | @cons ix e es here _ _ ih =>
    cases fuel with
    | zero => simp at hfuel
    | succ fuel =>
      simp only [searchList, Option.bind_some, here]
      split_ifs with hstop hraise
      · constructor
        · exact fun hm => ⟨hm, fun e' he' _ => (hrest.1 e' he').trans (hstop.trans hm)⟩
        · exact And.left
      · simp only [Bool.and_eq_true, decide_eq_true_eq] at hraise
        rw [ih hrest.2 fuel (by simpa using hfuel)]
        simp only [mem_cons, forall_eq_or_imp, hraise.2, true_imp_iff]
        constructor
        · exact fun h => ⟨hraise.1.le.trans h.1, h.1, h.2⟩
        · exact fun h => ⟨h.2.1, h.2.2⟩
      · rw [ih hrest.2 fuel (by simpa using hfuel)]
        simp only [mem_cons, forall_eq_or_imp]
        simp only [Bool.and_eq_true, decide_eq_true_eq, not_and] at hraise
        constructor
        · intro h
          refine ⟨h.1, fun hi => ?_, h.2⟩
          by_contra hlt
          exact hraise (by omega) hi
        · exact fun h => ⟨h.1, h.2.2⟩

omit [IsStrictOrderedRing K] in
lemma searchCell_le_iff {m : ℕ} {rc : ℕ × ℕ} (h : g.CellHolds l rc.1 rc.2) :
    g.searchCell query m rc ≤ n ↔ m ≤ n ∧ ∀ e ∈ l, g.reaches rc.1 rc.2 e.1 = true →
      (if g.coversCell e.1 rc.1 rc.2 then g.entersCell query rc.1 rc.2
        else e.1.intersects query) = true → e.2 ≤ n := by
  obtain ⟨es, hlinked, hrest, hmem⟩ := h.list
  have hlist : (∀ e ∈ es, e.bounds.intersects query = true → e.order ≤ n) ↔
      ∀ e ∈ l, g.reaches rc.1 rc.2 e.1 = true → g.coversCell e.1 rc.1 rc.2 = false →
        e.1.intersects query = true → e.2 ≤ n := by
    constructor
    · intro hes e he hre hco hi
      obtain ⟨e', he', rfl⟩ := mem_map.mp ((hmem e).mpr ⟨he, hre, hco⟩)
      exact hes e' he' hi
    · intro hl e he hi
      obtain ⟨hel, hre, hco⟩ := (hmem (e.bounds, e.order)).mp (mem_map_of_mem he)
      exact hl _ hel hre hco hi
  unfold searchCell
  simp only
  split_ifs with hskip hcover
  · -- The cell's greatest ordering bounds everything in it.
    rw [h.max] at hskip
    constructor
    · exact fun hm => ⟨hm, fun e he hre _ => (le_maxOver he hre).trans (hskip.trans hm)⟩
    · exact And.left
  · simp only [Bool.and_eq_true, decide_eq_true_eq] at hcover
    rw [searchList_le_iff hlinked hrest _ hlinked.length_le, hlist, h.cover, maxOver_le_iff]
    rw [h.cover] at hcover
    constructor
    · rintro ⟨hcov, hlst⟩
      refine ⟨hcover.1.le.trans (maxOver_le_iff.mpr hcov), fun e he hre hi => ?_⟩
      cases hco : g.coversCell e.1 rc.1 rc.2
      · exact hlst e he hre hco (by simpa [hco] using hi)
      · exact hcov e he (by simp [hre, hco])
    · rintro ⟨-, hall⟩
      refine ⟨fun e he hp => ?_, fun e he hre hco hi => hall e he hre (by simp [hco, hi])⟩
      simp only [Bool.and_eq_true] at hp
      exact hall e he hp.1 (by simp [hp.2, hcover.2])
  · rw [searchList_le_iff hlinked hrest _ hlinked.length_le, hlist]
    simp only [Bool.and_eq_true, decide_eq_true_eq, not_and] at hcover
    constructor
    · rintro ⟨hm, hlst⟩
      refine ⟨hm, fun e he hre hi => ?_⟩
      cases hco : g.coversCell e.1 rc.1 rc.2
      · exact hlst e he hre hco (by simpa [hco] using hi)
      · have hle : (g.cell rc.1 rc.2).cover ≤ m := by
          by_contra hlt
          exact hcover (by omega) (by simpa [hco] using hi)
        rw [h.cover] at hle
        exact (le_maxOver he (by simp [hre, hco])).trans (hle.trans hm)
    · rintro ⟨hm, hall⟩
      exact ⟨hm, fun e he hre hco hi => hall e he hre (by simp [hco, hi])⟩

omit [IsStrictOrderedRing K] in
lemma foldl_searchCell_le_iff (cs : List (ℕ × ℕ)) (hcs : ∀ rc ∈ cs, g.CellHolds l rc.1 rc.2) (m : ℕ) :
    cs.foldl (g.searchCell query) m ≤ n ↔ m ≤ n ∧ ∀ rc ∈ cs, ∀ e ∈ l,
      g.reaches rc.1 rc.2 e.1 = true → (if g.coversCell e.1 rc.1 rc.2 then
        g.entersCell query rc.1 rc.2 else e.1.intersects query) = true → e.2 ≤ n := by
  induction cs generalizing m with
  | nil => simp
  | cons rc cs ih =>
    rw [foldl_cons, ih (fun rc' h => hcs rc' (mem_cons_of_mem _ h)),
      searchCell_le_iff (hcs rc mem_cons_self), forall_mem_cons, and_assoc]

theorem maxIntersecting_eq (h : g.Holds l) (hq : hasArea query = true) :
    g.maxIntersecting query = maxOver (·.intersects query) l := by
  apply eq_maxOver
  intro n
  have hcs : ∀ rc ∈ g.spanCells query, g.CellHolds l rc.1 rc.2 := fun rc hrc =>
    h.cells rc.1 (lt_of_mem_spanCells hrc).1 rc.2 (lt_of_mem_spanCells hrc).2
  rw [maxIntersecting, foldl_searchCell_le_iff _ hcs, h.degenerate, maxOver_le_iff]
  constructor
  · rintro ⟨hdeg, hcells⟩ e he hi
    cases harea : hasArea e.1 with
    | false => exact hdeg e (by simp [he, harea]) hi
    | true =>
      obtain ⟨rc, hrc, hre, hen⟩ := common_cell (g := g) harea hq hi
      exact hcells rc hrc e he hre (by split <;> assumption)
  · intro hall
    refine ⟨fun e he hi => hall e (mem_filter.mp he).1 hi, fun rc _ e he hre hif => ?_⟩
    split at hif
    · next hco => exact hall e he (intersects_of_covers_enters hco hif)
    · exact hall e he hif

end Grid

end GpuiFast
