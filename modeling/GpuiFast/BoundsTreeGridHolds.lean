import GpuiFast.BoundsTreeGrid

namespace GpuiFast

open List

variable {K : Type*} [Field K] [LinearOrder K] [FloorRing K]

section Cells
variable [IsStrictOrderedRing K]

omit [LinearOrder K] [FloorRing K] [IsStrictOrderedRing K] in
lemma cellSize_cast : ((CELL_SIZE : ℕ) : K) = 64 := by simp [CELL_SIZE]

variable {q : K}

omit [IsStrictOrderedRing K] in
lemma truncate_mono {p : K} (h : p ≤ q) : truncate p ≤ truncate q := by
  unfold truncate
  split_ifs with hp hq hq
  · exact Int.floor_le_floor h
  · exact absurd (hp.trans h) hq
  · have hp0 : ⌈p⌉ ≤ 0 := Int.ceil_le.mpr (by simpa using (not_le.mp hp).le)
    exact hp0.trans (Int.floor_nonneg.mpr hq)
  · exact Int.ceil_le_ceil h

lemma cellAt_mono {p : K} (h : p ≤ q) (cells : ℕ) : cellAt p cells ≤ cellAt q cells := by
  have hscale : p * (1 / CELL_SIZE) ≤ q * (1 / CELL_SIZE) := by
    apply mul_le_mul_of_nonneg_right h
    rw [cellSize_cast]
    positivity
  have := truncate_mono hscale
  unfold cellAt
  omega

variable (p : K)

omit [IsStrictOrderedRing K] in
lemma cellAt_lt {cells : ℕ} (h : 0 < cells) : cellAt p cells < cells := by
  unfold cellAt
  omega

lemma cellStart_cellAt_le (cells : ℕ) : cellStart (cellAt p cells) ≤ (p : WithBot K) := by
  unfold cellStart
  split_ifs with h0
  · exact bot_le
  · rw [WithBot.coe_le_coe]
    have hle : (cellAt p cells : ℤ) ≤ truncate (p * (1 / CELL_SIZE)) := by
      unfold cellAt at h0 ⊢
      omega
    have hpos : (1 : ℤ) ≤ cellAt p cells := by omega
    have hq : 0 ≤ p * (1 / CELL_SIZE) := by
      by_contra hneg
      have : ⌈p * (1 / (CELL_SIZE : K))⌉ ≤ 0 :=
        Int.ceil_le.mpr (by simpa using (not_le.mp hneg).le)
      simp only [truncate, hneg, if_false] at hle
      omega
    simp only [truncate, hq, if_true] at hle
    have hfl := Int.le_floor.mp hle
    rw [cellSize_cast] at hfl ⊢
    push_cast at hfl
    linarith

lemma lt_cellEnd_cellAt {cells : ℕ} (h : 0 < cells) :
    (p : WithTop K) < cellEnd (cellAt p cells) cells := by
  unfold cellEnd
  split_ifs with hlast
  · exact WithTop.coe_lt_top p
  · rw [WithTop.coe_lt_coe]
    have hle : truncate (p * (1 / CELL_SIZE)) ≤ cellAt p cells := by
      unfold cellAt at hlast ⊢
      omega
    rw [cellSize_cast]
    by_cases hq : 0 ≤ p * (1 / CELL_SIZE)
    · simp only [truncate, hq, if_true] at hle
      have hlt : p * (1 / (CELL_SIZE : K)) < (cellAt p cells : ℤ) + 1 := by
        have := Int.lt_floor_add_one (p * (1 / (CELL_SIZE : K)))
        have hcast : (⌊p * (1 / (CELL_SIZE : K))⌋ : K) ≤ ((cellAt p cells : ℤ) : K) := by
          exact_mod_cast hle
        linarith
      rw [cellSize_cast] at hlt
      push_cast at hlt
      linarith
    · rw [cellSize_cast] at hq
      have hc : (0 : K) ≤ cellAt p cells := Nat.cast_nonneg _
      linarith [not_le.mp hq]

end Cells

namespace Grid

variable {g : Grid K} {b : Bounds K} {row column row' column' : ℕ} {l : List (Bounds K × ℕ)} {o : ℕ}

@[simp] lemma mem_spanCells :
    (row, column) ∈ g.spanCells b ↔
      ((g.spanY b).firstCell ≤ row ∧ row ≤ (g.spanY b).lastCell) ∧
        ((g.spanX b).firstCell ≤ column ∧ column ≤ (g.spanX b).lastCell) := by
  simp only [spanCells, mem_flatMap, mem_map, Ico.mem, Prod.mk.injEq]
  constructor
  · rintro ⟨r, hr, c, hc, rfl, rfl⟩
    omega
  · rintro ⟨hr, hc⟩
    exact ⟨row, by omega, column, by omega, rfl, rfl⟩

lemma spanCells_nodup (g : Grid K) (b : Bounds K) : (g.spanCells b).Nodup := by
  unfold spanCells
  rw [nodup_flatMap]
  refine ⟨fun row _ => (Ico.nodup _ _).map fun c c' h => (Prod.mk.inj h).2, ?_⟩
  refine (Ico.nodup _ _).imp ?_
  intro r r' hne
  rw [Function.onFun, disjoint_left]
  rintro ⟨row, column⟩ h h'
  obtain ⟨c, -, hc⟩ := mem_map.mp h
  obtain ⟨c', -, hc'⟩ := mem_map.mp h'
  exact hne ((Prod.mk.inj hc).1.trans (Prod.mk.inj hc').1.symm)

lemma lt_of_mem_spanCells {rc : ℕ × ℕ} (h : rc ∈ g.spanCells b) :
    rc.1 < g.rows ∧ rc.2 < g.columns := by
  obtain ⟨row, column⟩ := rc
  rw [mem_spanCells] at h
  exact ⟨h.1.2.trans_lt (cellAt_lt _ g.rows_pos), h.2.2.trans_lt (cellAt_lt _ g.columns_pos)⟩

def reaches (g : Grid K) (row column : ℕ) (b : Bounds K) : Bool :=
  hasArea b && decide ((row, column) ∈ g.spanCells b)

/-- Every entry's `restMax` bounds the orderings from it on. -/
def RestBounded : List (Entry K) → Prop
  | [] => True
  | e :: l => (∀ e' ∈ e :: l, e'.order ≤ e.restMax) ∧ RestBounded l

/-- The cell at `row` and `column` stands for the bounds of `l` that reach it: those
covering it by their greatest ordering, the others by its list. -/
structure CellHolds (g : Grid K) (l : List (Bounds K × ℕ)) (row column : ℕ) : Prop where
  list : ∃ es, ArenaList.Linked Entry.next g.entries (g.cell row column).head es ∧
    RestBounded es ∧ ∀ e : Bounds K × ℕ, e ∈ es.map (fun e => (e.bounds, e.order)) ↔
      e ∈ l ∧ g.reaches row column e.1 = true ∧ g.coversCell e.1 row column = false
  cover : (g.cell row column).cover =
    maxOver (fun b => g.reaches row column b && g.coversCell b row column) l
  max : (g.cell row column).max = maxOver (g.reaches row column) l

/-- The grid stands for the bounds of `l`. -/
structure Holds (g : Grid K) (l : List (Bounds K × ℕ)) : Prop where
  degenerate : g.degenerate = l.filter fun e => !hasArea e.1
  cells : ∀ row < g.rows, ∀ column < g.columns, g.CellHolds l row column

omit [Field K] [LinearOrder K] [FloorRing K] in
lemma index_inj (hc : column < g.columns) (hc' : column' < g.columns)
    (h : row * g.columns + column = row' * g.columns + column') :
    row = row' ∧ column = column' := by
  have hrow : row = row' := by
    have hdiv := congrArg (· / g.columns) h
    simpa only [Nat.mul_comm _ g.columns, Nat.mul_add_div g.columns_pos, Nat.div_eq_of_lt hc,
      Nat.div_eq_of_lt hc', Nat.add_zero] using hdiv
  subst hrow
  exact ⟨rfl, by omega⟩

omit [Field K] [LinearOrder K] [FloorRing K] in
lemma index_lt (hr : row < g.rows) (hc : column < g.columns) :
    row * g.columns + column < g.cells.length := by
  rw [g.cells_length]
  calc row * g.columns + column < row * g.columns + g.columns := by omega
    _ = g.columns * (row + 1) := by ring
    _ ≤ g.columns * g.rows := Nat.mul_le_mul_left _ hr

omit [Field K] [LinearOrder K] [FloorRing K] in
@[simp] lemma file_columns (g : Grid K) (b : Bounds K) (o : ℕ) (cov : Bool) (row column : ℕ) :
    (g.file b o cov row column).columns = g.columns := by
  cases cov <;> rfl

omit [Field K] [LinearOrder K] [FloorRing K] in
@[simp] lemma file_rows (g : Grid K) (b : Bounds K) (o : ℕ) (cov : Bool) (row column : ℕ) :
    (g.file b o cov row column).rows = g.rows := by
  cases cov <;> rfl

omit [Field K] [LinearOrder K] [FloorRing K] in
@[simp] lemma file_degenerate (g : Grid K) (b : Bounds K) (o : ℕ) (cov : Bool) (row column : ℕ) :
    (g.file b o cov row column).degenerate = g.degenerate := by
  cases cov <;> rfl

variable {g' : Grid K}

lemma reaches_congr (hc : g'.columns = g.columns) (hr : g'.rows = g.rows) (row column : ℕ) :
    g'.reaches row column = g.reaches row column := by
  funext b
  have hspan : g'.spanCells b = g.spanCells b := by simp only [spanCells, spanX, spanY, hc, hr]
  rw [reaches, reaches, hspan]

lemma coversCell_congr (hc : g'.columns = g.columns) (hr : g'.rows = g.rows) (b : Bounds K)
    (row column : ℕ) : g'.coversCell b row column = g.coversCell b row column := by
  simp only [coversCell, spanX, spanY, hc, hr]

omit [Field K] [LinearOrder K] [FloorRing K] in
lemma cell_set {c : Cell} (hr : row < g.rows) (hc : column < g.columns) (hc' : column' < g.columns) :
    (g.cells.set (row * g.columns + column) c).getD (row' * g.columns + column') Cell.EMPTY =
      if row = row' ∧ column = column' then c else g.cell row' column' := by
  have hlt := index_lt hr hc
  by_cases h : row = row' ∧ column = column'
  · obtain ⟨rfl, rfl⟩ := h
    simp [getD_eq_getElem?_getD, hlt]
  · have hne : row * g.columns + column ≠ row' * g.columns + column' :=
      fun he => h (index_inj hc hc' he)
    simp [h, cell, getD_eq_getElem?_getD, getElem?_set_ne hne]

lemma CellHolds.file_other {cov : Bool} (h : g.CellHolds l row' column') (hr : row < g.rows)
    (hc : column < g.columns) (hc' : column' < g.columns) (hne : ¬(row = row' ∧ column = column')) :
    (g.file b o cov row column).CellHolds l row' column' := by
  have hcell : (g.file b o cov row column).cell row' column' = g.cell row' column' := by
    cases cov
    · exact (cell_set hr hc hc').trans (if_neg hne)
    · exact (cell_set hr hc hc').trans (if_neg hne)
  have hreach := reaches_congr (file_columns g b o cov row column) (file_rows g b o cov row column)
    row' column'
  have hcov := fun b' => coversCell_congr (file_columns g b o cov row column)
    (file_rows g b o cov row column) b' row' column'
  obtain ⟨es, hlinked, hrest, hmem⟩ := h.list
  refine ⟨⟨es, ?_, hrest, ?_⟩, ?_, ?_⟩
  · rw [hcell]
    cases cov
    · exact hlinked.grow _
    · exact hlinked
  · simpa only [hreach, hcov] using hmem
  · simpa only [hcell, hreach, hcov] using h.cover
  · simpa only [hcell, hreach] using h.max

lemma CellHolds.skip (h : g.CellHolds l row column) (hb : g.reaches row column b = false) :
    g.CellHolds (l ++ [(b, o)]) row column := by
  obtain ⟨es, hlinked, hrest, hmem⟩ := h.list
  refine ⟨⟨es, hlinked, hrest, fun e => ?_⟩, ?_, ?_⟩
  · rw [hmem, mem_append, mem_singleton]
    constructor
    · exact fun he => ⟨.inl he.1, he.2⟩
    · rintro ⟨he | rfl, hreach, hcov⟩
      · exact ⟨he, hreach, hcov⟩
      · simp [hb] at hreach
  · simpa [maxOver_concat, hb] using h.cover
  · simpa [maxOver_concat, hb] using h.max

omit [Field K] [LinearOrder K] [FloorRing K] in
lemma restBounded_push {head : Option ℕ} {es : List (Entry K)}
    (hlinked : ArenaList.Linked Entry.next g.entries head es) (hrest : RestBounded es) :
    RestBounded (⟨b, o, (match head.bind (g.entries[·]?) with
      | some next => max next.restMax o
      | none => o), head⟩ :: es) := by
  refine ⟨?_, hrest⟩
  cases hlinked with
  | nil => simp
  | @cons ix e l here older rest =>
    simp only [Option.bind_some, here, mem_cons, forall_eq_or_imp]
    have hle := hrest.1
    simp only [mem_cons, forall_eq_or_imp] at hle
    exact ⟨le_max_right _ _, le_max_of_le_left hle.1, fun e' he' => le_max_of_le_left (hle.2 e' he')⟩

lemma CellHolds.file_self (h : g.CellHolds l row column) (hr : row < g.rows)
    (hc : column < g.columns) (hb : g.reaches row column b = true) :
    (g.file b o (g.coversCell b row column) row column).CellHolds (l ++ [(b, o)]) row column := by
  have hreach := reaches_congr (file_columns g b o (g.coversCell b row column) row column)
    (file_rows g b o (g.coversCell b row column) row column) row column
  have hcov := fun b' => coversCell_congr
    (file_columns g b o (g.coversCell b row column) row column)
    (file_rows g b o (g.coversCell b row column) row column) b' row column
  obtain ⟨es, hlinked, hrest, hmem⟩ := h.list
  cases hcovers : g.coversCell b row column with
  | true =>
    rw [hcovers] at hreach hcov
    have hcell : (g.file b o true row column).cell row column =
        { g.cell row column with
          cover := Max.max (g.cell row column).cover o
          max := Max.max (g.cell row column).max o } :=
      (cell_set hr hc hc).trans (if_pos ⟨rfl, rfl⟩)
    refine ⟨⟨es, ?_, hrest, fun e => ?_⟩, ?_, ?_⟩
    · rw [hcell]
      exact hlinked
    · rw [hmem, hreach, hcov, mem_append, mem_singleton]
      constructor
      · exact fun he => ⟨.inl he.1, he.2⟩
      · rintro ⟨he | rfl, hre, hco⟩
        · exact ⟨he, hre, hco⟩
        · simp [hcovers] at hco
    · rw [hcell, hreach]
      simp only [hcov]
      rw [maxOver_concat, if_pos (by simp [hb, hcovers]), h.cover]
    · rw [hcell, hreach, maxOver_concat, if_pos hb, h.max]
  | false =>
    rw [hcovers] at hreach hcov
    have hcell : (g.file b o false row column).cell row column =
        { g.cell row column with
          head := some g.entries.length
          max := Max.max (g.cell row column).max o } :=
      (cell_set hr hc hc).trans (if_pos ⟨rfl, rfl⟩)
    refine ⟨⟨_, ?_, restBounded_push (b := b) (o := o) hlinked hrest, fun e => ?_⟩, ?_, ?_⟩
    · rw [hcell]
      exact hlinked.push rfl
    · rw [map_cons, mem_cons, hmem, hreach, hcov, mem_append, mem_singleton]
      constructor
      · rintro (rfl | he)
        · exact ⟨.inr rfl, hb, hcovers⟩
        · exact ⟨.inl he.1, he.2⟩
      · rintro ⟨he | rfl, hre, hco⟩
        · exact .inr ⟨he, hre, hco⟩
        · exact .inl rfl
    · rw [hcell, hreach]
      simp only [hcov]
      rw [maxOver_concat, if_neg (by simp [hcovers]), h.cover]
    · rw [hcell, hreach, maxOver_concat, if_pos hb, h.max]

lemma cellHolds_foldl_file (g₀ : Grid K) (cs : List (ℕ × ℕ)) (hnodup : cs.Nodup)
    (hcs : ∀ rc ∈ cs, rc.1 < g₀.rows ∧ rc.2 < g₀.columns ∧ g₀.reaches rc.1 rc.2 b = true)
    (g : Grid K) (hcol : g.columns = g₀.columns) (hrow : g.rows = g₀.rows)
    (hcells : ∀ row < g.rows, ∀ column < g.columns,
      g.CellHolds (if (row, column) ∈ cs then l else l ++ [(b, o)]) row column) :
    let g' := cs.foldl (fun g' rc => g'.file b o (g₀.coversCell b rc.1 rc.2) rc.1 rc.2) g
    g'.degenerate = g.degenerate ∧ g'.columns = g.columns ∧ g'.rows = g.rows ∧
      ∀ row < g'.rows, ∀ column < g'.columns, g'.CellHolds (l ++ [(b, o)]) row column := by
  induction cs generalizing g with
  | nil => exact ⟨rfl, rfl, rfl, by simpa using hcells⟩
  | cons rc cs ih =>
    obtain ⟨hnot, hnodup⟩ := nodup_cons.mp hnodup
    obtain ⟨hr, hc, hreach⟩ := hcs rc mem_cons_self
    rw [← hrow] at hr
    rw [← hcol] at hc
    rw [← reaches_congr hcol hrow] at hreach
    have hnext := ih hnodup (fun rc' h => hcs rc' (mem_cons_of_mem _ h))
      (g.file b o (g₀.coversCell b rc.1 rc.2) rc.1 rc.2) (by simpa using hcol)
      (by simpa using hrow) ?_
    · simpa only [foldl_cons, file_degenerate, file_columns, file_rows] using hnext
    · intro row hrow' column hcol'
      rw [file_rows] at hrow'
      rw [file_columns] at hcol'
      have hcell := hcells row hrow' column hcol'
      by_cases he : rc.1 = row ∧ rc.2 = column
      · obtain ⟨rfl, rfl⟩ := he
        rw [if_pos mem_cons_self] at hcell
        rw [if_neg hnot, ← coversCell_congr hcol hrow]
        exact hcell.file_self hr hc hreach
      · have hmem : (row, column) ∈ rc :: cs ↔ (row, column) ∈ cs := by
          rw [mem_cons, or_iff_right]
          rintro rfl
          exact he ⟨rfl, rfl⟩
        rw [if_congr hmem rfl rfl] at hcell
        exact hcell.file_other hr hc hcol' he

theorem Holds.add (h : g.Holds l) (b : Bounds K) (o : ℕ) : (g.add b o).Holds (l ++ [(b, o)]) := by
  unfold Grid.add
  split_ifs with harea
  · obtain ⟨hdeg, hcol, hrow, hcells⟩ := cellHolds_foldl_file g (l := l) (b := b) (o := o)
      (g.spanCells b) (g.spanCells_nodup b)
      (fun rc hrc => ⟨(lt_of_mem_spanCells hrc).1, (lt_of_mem_spanCells hrc).2,
        by simpa [reaches, harea] using hrc⟩) g rfl rfl
      (fun row hr column hc => by
        split_ifs with hmem
        · exact h.cells row hr column hc
        · exact (h.cells row hr column hc).skip (by simpa [reaches, harea] using hmem))
    exact ⟨by simp [hdeg, h.degenerate, harea], hcells⟩
  · refine ⟨by simp [h.degenerate, harea], fun row hr column hc => ?_⟩
    have hskip := (h.cells row hr column hc).skip (b := b) (o := o) (by simp [reaches, harea])
    exact ⟨hskip.list, hskip.cover, hskip.max⟩

lemma holds_nil (hcells : ∀ row column, g.cell row column = Cell.EMPTY) (hdeg : g.degenerate = []) :
    g.Holds [] := by
  refine ⟨by simp [hdeg], fun row _ column _ => ⟨⟨[], ?_, trivial, by simp⟩, ?_, ?_⟩⟩
  · rw [hcells]
    exact .nil
  · rw [hcells]
    rfl
  · rw [hcells]
    rfl

lemma holds_clear (g : Grid K) : g.clear.Holds [] :=
  holds_nil (fun row column => by
    simp only [cell, clear, getD_eq_getElem?_getD, getElem?_map]
    cases g.cells[row * g.columns + column]? <;> rfl) rfl

lemma holds_resize (columns rows : ℕ) (hc : 0 < columns) (hr : 0 < rows) :
    (resize columns rows hc hr : Grid K).Holds [] :=
  holds_nil (fun row column => by
    simp only [cell, resize, getD_eq_getElem?_getD, getElem?_replicate]
    split <;> rfl) rfl

end Grid

end GpuiFast
