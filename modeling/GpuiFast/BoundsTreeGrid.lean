import GpuiFast.Geometry
import GpuiFast.OrderScan
import GpuiFast.ArenaList

namespace GpuiFast

variable {K : Type*} [Field K] [LinearOrder K]

def CELL_SIZE : ℕ := 64

def MAX_CELLS_PER_AXIS : ℕ := 256

section Cells
variable [FloorRing K]

/-- `as isize`: toward zero. -/
def truncate (q : K) : ℤ := if 0 ≤ q then ⌊q⌋ else ⌈q⌉

def cellAt (coordinate : K) (cells : ℕ) : ℕ :=
  (max 0 (min (truncate (coordinate * (1 / CELL_SIZE))) ((cells : ℤ) - 1))).toNat

end Cells

def cellStart (cell : ℕ) : WithBot K :=
  if cell = 0 then ⊥ else ((cell * CELL_SIZE : K) : WithBot K)

/-- So does the last. -/
def cellEnd (cell cells : ℕ) : WithTop K :=
  if cell + 1 = cells then ⊤ else (((cell + 1) * CELL_SIZE : K) : WithTop K)

/-- A bounds' extent along one axis, as the grid sees it. -/
structure Span (K : Type*) where
  start : K
  stop : K
  firstCell : ℕ
  lastCell : ℕ

namespace Span

def new [FloorRing K] (start stop : K) (cells : ℕ) : Span K :=
  ⟨start, stop, cellAt start cells, cellAt stop cells⟩

/-- Whether the span reaches into the interior of `cell`. -/
def enters (s : Span K) (cell cells : ℕ) : Bool :=
  decide ((s.start : WithTop K) < cellEnd cell cells) && decide (cellStart cell < (s.stop : WithBot K))

/-- Whether the span covers all of `cell`. -/
def covers (s : Span K) (cell cells : ℕ) : Bool :=
  decide ((s.start : WithBot K) ≤ cellStart cell) && decide (cellEnd cell cells ≤ (s.stop : WithTop K))

end Span

structure Cell where
  head : Option ℕ
  cover : ℕ
  /-- The greatest ordering among all the cell's bounds. -/
  max : ℕ

def Cell.EMPTY : Cell := ⟨none, 0, 0⟩

structure Entry (K : Type*) where
  bounds : Bounds K
  order : ℕ
  /-- At least the ordering of this entry and of every one after it in its list. -/
  restMax : ℕ
  next : Option ℕ

/-- Cells are kept row by row. -/
structure Grid (K : Type*) where
  columns : ℕ
  rows : ℕ
  cells : List Cell
  entries : List (Entry K)
  degenerate : List (Bounds K × ℕ)
  columns_pos : 0 < columns
  rows_pos : 0 < rows
  cells_length : cells.length = columns * rows

namespace Grid

def clear (g : Grid K) : Grid K :=
  { g with
    cells := g.cells.map fun _ => Cell.EMPTY
    entries := []
    degenerate := []
    cells_length := by simp [g.cells_length] }

/-- Whether bounds have a positive width and height, which is what it takes to be
kept in cells; exact origins are always numbers. -/
def hasArea (b : Bounds K) : Bool := decide (b.size.width > 0) && decide (b.size.height > 0)

section Spans
variable [FloorRing K]

def spanX (g : Grid K) (b : Bounds K) : Span K := .new b.origin.x b.bottomRight.x g.columns

def spanY (g : Grid K) (b : Bounds K) : Span K := .new b.origin.y b.bottomRight.y g.rows

/-- The cells `bounds` spans as `(row, column)`, in the order the loops visit them. -/
def spanCells (g : Grid K) (b : Bounds K) : List (ℕ × ℕ) :=
  (List.Ico (g.spanY b).firstCell ((g.spanY b).lastCell + 1)).flatMap fun row =>
    (List.Ico (g.spanX b).firstCell ((g.spanX b).lastCell + 1)).map fun column => (row, column)

def needed (stop : K) : ℕ :=
  (max 1 (min ⌈stop / CELL_SIZE⌉ (MAX_CELLS_PER_AXIS : ℤ))).toNat

/-- The columns and rows it takes to hold `bounds` without keeping it in the last
column or row, if more than the grid has. -/
def needs (g : Grid K) (b : Bounds K) : Option (ℕ × ℕ) :=
  if b.bottomRight.x ≤ g.columns * CELL_SIZE ∧ b.bottomRight.y ≤ g.rows * CELL_SIZE then none
  else
    let columns := max (needed b.bottomRight.x) g.columns
    let rows := max (needed b.bottomRight.y) g.rows
    if columns > g.columns ∨ rows > g.rows then some (columns, rows) else none

end Spans

def resize (columns rows : ℕ) (hc : 0 < columns) (hr : 0 < rows) : Grid K where
  columns := columns
  rows := rows
  cells := List.replicate (columns * rows) Cell.EMPTY
  entries := []
  degenerate := []
  columns_pos := hc
  rows_pos := hr
  cells_length := by simp

def cell (g : Grid K) (row column : ℕ) : Cell :=
  g.cells.getD (row * g.columns + column) Cell.EMPTY

/-- The body of `add`'s loops: files `bounds` under one cell, as covering it or in
its list. -/
def file (g : Grid K) (b : Bounds K) (order : ℕ) (covering : Bool) (row column : ℕ) : Grid K :=
  let cell := g.cell row column
  if covering then
    { g with
      cells := g.cells.set (row * g.columns + column)
        { cell with cover := max cell.cover order, max := max cell.max order }
      cells_length := by simp [g.cells_length] }
  else
    let restMax := match cell.head.bind (g.entries[·]?) with
      | some next => max next.restMax order
      | none => order
    { g with
      cells := g.cells.set (row * g.columns + column)
        { cell with head := some g.entries.length, max := max cell.max order }
      entries := g.entries ++ [⟨b, order, restMax, cell.head⟩]
      cells_length := by simp [g.cells_length] }

section Operations
variable [FloorRing K]

def coversCell (g : Grid K) (b : Bounds K) (row column : ℕ) : Bool :=
  (g.spanY b).covers row g.rows && (g.spanX b).covers column g.columns

def entersCell (g : Grid K) (b : Bounds K) (row column : ℕ) : Bool :=
  (g.spanY b).enters row g.rows && (g.spanX b).enters column g.columns

def add (g : Grid K) (b : Bounds K) (order : ℕ) : Grid K :=
  if hasArea b then
    (g.spanCells b).foldl
      (fun g' rc => g'.file b order (g.coversCell b rc.1 rc.2) rc.1 rc.2) g
  else { g with degenerate := g.degenerate ++ [(b, order)] }

/-- Follows a cell's list from `ix`, stopping once the rest cannot raise the result.
The list never holds more entries than `fuel`, the length of the arena. -/
def searchList (entries : List (Entry K)) (query : Bounds K) : ℕ → Option ℕ → ℕ → ℕ
  | 0, _, greatest => greatest
  | fuel + 1, ix, greatest =>
    match ix.bind (entries[·]?) with
    | none => greatest
    | some entry =>
      if entry.restMax ≤ greatest then greatest
      else searchList entries query fuel entry.next
        (if entry.order > greatest && entry.bounds.intersects query then entry.order else greatest)

/-- The body of `maxIntersecting`'s loops. -/
def searchCell (g : Grid K) (query : Bounds K) (greatest : ℕ) (rc : ℕ × ℕ) : ℕ :=
  let cell := g.cell rc.1 rc.2
  if cell.max ≤ greatest then greatest
  else
    let greatest :=
      if cell.cover > greatest && g.entersCell query rc.1 rc.2 then cell.cover else greatest
    searchList g.entries query g.entries.length cell.head greatest

/-- The greatest ordering among the bounds that intersect `query`, which has an area. -/
def maxIntersecting (g : Grid K) (query : Bounds K) : ℕ :=
  (g.spanCells query).foldl (g.searchCell query) (maxOver (·.intersects query) g.degenerate)

end Operations
end Grid

end GpuiFast
