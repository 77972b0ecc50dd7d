import GpuiFast.BoundsTreeGridSearch

/-! Hands out orderings for bounds inserted one after another. While a frame repeats the
last one its orderings are replayed; once that would cost more than a grid of cells,
the grid is built from what was inserted so far. -/

namespace GpuiFast

variable {K : Type*} [Field K] [LinearOrder K] [FloorRing K]

/-- How many bounds a replay may compare against before the grid is built. -/
def REPLAY_SEARCH_BUDGET : ℕ := 2 ^ 15

/-- How many columns and rows of cells `ChangedBounds` marks. -/
def CHANGED_CELLS : ℕ := 64

/-- The bounds that changed while a tree is replayed, with the cells of a coarse grid
each reaches into marked, one row a word. -/
structure ChangedBounds (K : Type*) where
  bounds : List (Bounds K)
  rows : Fin CHANGED_CELLS → BitVec CHANGED_CELLS
  unmarked : Bool

namespace ChangedBounds

def empty : ChangedBounds K := ⟨[], fun _ => 0, false⟩

/-- The first and last column, and the first and last row, of the cells spanned. -/
def cells (b : Bounds K) : Option (ℕ × ℕ × ℕ × ℕ) :=
  if b.bottomRight.x ≥ b.origin.x ∧ b.bottomRight.y ≥ b.origin.y then
    some (cellAt b.origin.x CHANGED_CELLS, cellAt b.bottomRight.x CHANGED_CELLS,
      cellAt b.origin.y CHANGED_CELLS, cellAt b.bottomRight.y CHANGED_CELLS)
  else none

/-- The bits of the columns `first..=last`. -/
def columns (first last : ℕ) : BitVec CHANGED_CELLS :=
  (BitVec.allOnes CHANGED_CELLS >>> (CHANGED_CELLS - 1 - last)) &&&
    (BitVec.allOnes CHANGED_CELLS <<< first)

def push (c : ChangedBounds K) (b : Bounds K) : ChangedBounds K :=
  match cells b with
  | some (left, right, top, bottom) =>
    { c with
      rows := fun row =>
        if top ≤ row ∧ row ≤ bottom then c.rows row ||| columns left right else c.rows row
      bounds := c.bounds ++ [b] }
  | none => { c with unmarked := true, bounds := c.bounds ++ [b] }

/-- False only when `b` meets no changed bounds. -/
def mightMeet (c : ChangedBounds K) (b : Bounds K) : Bool :=
  if c.bounds.isEmpty then false
  else if c.unmarked then true
  else match cells b with
    | some (left, right, top, bottom) =>
      (List.finRange CHANGED_CELLS).any fun row =>
        decide (top ≤ row ∧ row ≤ bottom) && (c.rows row &&& columns left right != 0)
    | none => true

end ChangedBounds

structure BoundsTree (K : Type*) where
  grid : Grid K
  max : Option (Bounds K × ℕ)
  recorded : List (Bounds K × ℕ)
  /-- What `recorded` held when the tree was cleared. -/
  previous : List (Bounds K × ℕ)
  replaying : Bool
  /-- While replaying, every bounds whose entry differs from the one in the same
  position in `previous`, in both its old and its new form. -/
  changed : ChangedBounds K
  replaySearchBudget : ℕ

namespace BoundsTree

def default : BoundsTree K where
  grid := .resize 1 1 Nat.one_pos Nat.one_pos
  max := none
  recorded := []
  previous := []
  replaying := false
  changed := .empty
  replaySearchBudget := REPLAY_SEARCH_BUDGET

def clear (t : BoundsTree K) : BoundsTree K where
  grid := t.grid.clear
  max := none
  recorded := []
  previous := t.recorded
  replaying := true
  changed := .empty
  replaySearchBudget := REPLAY_SEARCH_BUDGET

/-- `checked_sub`. -/
def checkedSub (a b : ℕ) : Option ℕ := if b ≤ a then some (a - b) else none

/-- The second half of `replay`: the ordering worked out from what was inserted so
far, the bounds joining the changed ones if they differ from last time. -/
def replaySearch (t : BoundsTree K) (b : Bounds K) : BoundsTree K × Option ℕ :=
  match checkedSub t.replaySearchBudget t.recorded.length with
  | none => (t, none)
  | some budget =>
    let ordering := maxOver (·.intersects b) t.recorded + 1
    let changed := match t.previous[t.recorded.length]? with
      | some (previousBounds, previousOrdering) =>
        if previousBounds ≠ b then (t.changed.push previousBounds).push b
        else if previousOrdering ≠ ordering then t.changed.push b
        else t.changed
      | none => t.changed.push b
    ({ t with replaySearchBudget := budget, changed := changed }, some ordering)

/-- The ordering `b` is given while the tree is being replayed, or `none` once
finding it without the grid would cost more than building it. -/
def replay (t : BoundsTree K) (b : Bounds K) : BoundsTree K × Option ℕ :=
  match t.previous[t.recorded.length]? with
  | some (previousBounds, ordering) =>
    if previousBounds = b then
      if t.changed.mightMeet b then
        match checkedSub t.replaySearchBudget t.changed.bounds.length with
        | none => (t, none)
        | some budget =>
          let t := { t with replaySearchBudget := budget }
          if t.changed.bounds.any (·.intersects b) then t.replaySearch b else (t, some ordering)
      else (t, some ordering)
    else t.replaySearch b
  | none => t.replaySearch b

/-- `max`, raised to new bounds if their ordering is greater. -/
def raiseMax (greatest : Option (Bounds K × ℕ)) (e : Bounds K × ℕ) : Option (Bounds K × ℕ) :=
  if greatest.all (·.2 < e.2) then some e else greatest

variable {g : Grid K}

lemma needs_pos {b : Bounds K} {columns rows : ℕ} (h : g.needs b = some (columns, rows)) :
    0 < columns ∧ 0 < rows := by
  unfold Grid.needs at h
  have := g.columns_pos
  have := g.rows_pos
  simp only at h
  split_ifs at h
  simp only [Option.some.injEq, Prod.mk.injEq] at h
  exact ⟨by omega, by omega⟩

/-- Adds `b` to the grid, growing it first if `b` reaches past it. -/
def add (t : BoundsTree K) (b : Bounds K) (ordering : ℕ) : BoundsTree K :=
  let grid :=
    if Grid.hasArea b then
      match h : t.grid.needs b with
      | some (columns, rows) =>
        t.recorded.foldl (fun g e => g.add e.1 e.2)
          (.resize columns rows (needs_pos h).1 (needs_pos h).2)
      | none => t.grid
    else t.grid
  { t with grid := grid.add b ordering, max := raiseMax t.max (b, ordering) }

/-- `size`, widened to what the grid needs to hold one more recorded bounds. -/
def widen (g : Grid K) (size : ℕ × ℕ) (e : Bounds K × ℕ) : ℕ × ℕ :=
  if Grid.hasArea e.1 then
    match g.needs e.1 with
    | some (columns, rows) => (Max.max size.1 columns, Max.max size.2 rows)
    | none => size
  else size

/-- The size `buildFromRecorded` gives the grid. -/
def sizeFor (t : BoundsTree K) : ℕ × ℕ :=
  t.recorded.foldl (widen t.grid) (t.grid.columns, t.grid.rows)

lemma widen_pos {size : ℕ × ℕ} (h : 0 < size.1 ∧ 0 < size.2) (e : Bounds K × ℕ) :
    0 < (widen g size e).1 ∧ 0 < (widen g size e).2 := by
  unfold widen
  split
  · split
    · exact ⟨lt_max_of_lt_left h.1, lt_max_of_lt_left h.2⟩
    · exact h
  · exact h

lemma sizeFor_pos (t : BoundsTree K) : 0 < t.sizeFor.1 ∧ 0 < t.sizeFor.2 := by
  unfold sizeFor
  apply List.foldlRecOn (motive := fun size : ℕ × ℕ => 0 < size.1 ∧ 0 < size.2)
  · exact ⟨t.grid.columns_pos, t.grid.rows_pos⟩
  · exact fun size h e _ => widen_pos h e

def buildFromRecorded (t : BoundsTree K) : BoundsTree K :=
  let grid :=
    if t.sizeFor ≠ (t.grid.columns, t.grid.rows) then
      .resize t.sizeFor.1 t.sizeFor.2 t.sizeFor_pos.1 t.sizeFor_pos.2
    else t.grid
  { t with
    grid := t.recorded.foldl (fun g e => g.add e.1 e.2) grid
    max := t.recorded.foldl raiseMax t.max }

def findMaxOrdering (t : BoundsTree K) (query : Bounds K) : ℕ :=
  let search :=
    if Grid.hasArea query then t.grid.maxIntersecting query
    else maxOver (·.intersects query) t.recorded
  match t.max with
  | some (maxBounds, max) => if query.intersects maxBounds then max else search
  | none => search

/-- What `insert` does once the tree is not replayed. -/
def insertBuilt (t : BoundsTree K) (b : Bounds K) : BoundsTree K × ℕ :=
  let ordering := t.findMaxOrdering b + 1
  let t := t.add b ordering
  ({ t with recorded := t.recorded ++ [(b, ordering)] }, ordering)

def insert (t : BoundsTree K) (b : Bounds K) : BoundsTree K × ℕ :=
  if t.replaying then
    match t.replay b with
    | (t, some ordering) => ({ t with recorded := t.recorded ++ [(b, ordering)] }, ordering)
    | (t, none) => insertBuilt (buildFromRecorded { t with replaying := false }) b
  else insertBuilt t b

end BoundsTree

end GpuiFast
