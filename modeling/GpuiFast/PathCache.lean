import GpuiFast.KeyMap
import Mathlib

/-! Tessellated shapes kept from one build to the next, in slots linked from the newest drawn to the
oldest. A shape heavier than the limit has a place of its own. What the source panics on, a link to
a slot no shape is in, has no result. -/

namespace GpuiFast

abbrev PathKey := List UInt32

structure PathSlot (P : Type*) where
  key : PathKey
  path : P
  bytes : ℕ
  newer : Option ℕ
  older : Option ℕ

structure KeptPaths (P : Type*) where
  slots : List (Option (PathSlot P))
  /-- The slots no shape is in, the last left first. -/
  vacant : List ℕ
  index : KeyMap PathKey ℕ
  newest : Option ℕ
  oldest : Option ℕ
  /-- The weight of the shapes in `slots`. -/
  bytes : ℕ
  heavy : Option (PathKey × P)
  limit : ℕ
  shapes : ℕ

variable {P : Type*}

def pathWeight (capacity : P → ℕ) (key : PathKey) (path : P) : ℕ := 4 * key.length + 32 * capacity path

namespace KeptPaths

def new (limit shapes : ℕ) : KeptPaths P := ⟨[], [], .empty, none, none, 0, none, limit, shapes⟩

def slot (kept : KeptPaths P) (place : ℕ) : Option (PathSlot P) := kept.slots[place]?.join

/-- `slot_mut`: changes the shape in a slot. -/
def modifySlot (kept : KeptPaths P) (place : ℕ) (f : PathSlot P → PathSlot P) :
    Option (KeptPaths P) :=
  (kept.slot place).map (fun slot => { kept with slots := kept.slots.set place (some (f slot)) })

def unlink (kept : KeptPaths P) (place : ℕ) : Option (KeptPaths P) :=
  match kept.slot place with
  | none => none
  | some slot =>
    let unlinked := match slot.newer with
      | none => some { kept with newest := slot.older }
      | some newer => kept.modifySlot newer (fun s => { s with older := slot.older })
    unlinked.bind (fun kept =>
      match slot.older with
      | none => some { kept with oldest := slot.newer }
      | some older => kept.modifySlot older (fun s => { s with newer := slot.newer }))

def linkNewest (kept : KeptPaths P) (place : ℕ) : Option (KeptPaths P) :=
  let before := kept.newest
  (kept.modifySlot place (fun s => { s with newer := none, older := before })).bind (fun kept =>
    let linked := match before with
      | none => some { kept with oldest := some place }
      | some before => kept.modifySlot before (fun s => { s with newer := some place })
    linked.map (fun kept => { kept with newest := some place }))

/-- The cache after looking `key` up, and the path kept under it. -/
def get (kept : KeptPaths P) (key : PathKey) : Option (KeptPaths P × Option P) :=
  match kept.index.get? key with
  | some place =>
    let moved := if kept.newest ≠ some place then
      (kept.unlink place).bind (·.linkNewest place) else some kept
    moved.bind (fun kept => (kept.slot place).map (fun slot => (kept, some slot.path)))
  | none =>
    match kept.heavy with
    | some (heavy, path) => some (kept, if heavy = key then some path else none)
    | none => some (kept, none)

def letGoOfOldest (kept : KeptPaths P) : Option (KeptPaths P) :=
  kept.oldest.bind (fun place =>
    (kept.unlink place).bind (fun kept =>
      (kept.slot place).map (fun slot =>
        { kept with
          slots := kept.slots.set place none
          index := kept.index.filter (fun key _ => key ≠ slot.key)
          bytes := kept.bytes - slot.bytes
          vacant := place :: kept.vacant })))

/-- The loop of `insert` that makes room for `bytes` more; `fuel` bounds its steps. -/
def makeRoom (bytes : ℕ) : (fuel : ℕ) → KeptPaths P → Option (KeptPaths P)
  | 0, _ => none
  | fuel + 1, kept =>
    if kept.limit < kept.bytes + bytes ∨ kept.shapes ≤ kept.index.size then
      kept.letGoOfOldest.bind (makeRoom bytes fuel)
    else some kept

def occupy (kept : KeptPaths P) (slot : PathSlot P) : KeptPaths P × ℕ :=
  match kept.vacant with
  | place :: vacant =>
    ({ kept with slots := kept.slots.set place (some slot), vacant := vacant }, place)
  | [] => ({ kept with slots := kept.slots ++ [some slot] }, kept.slots.length)

def insert (capacity : P → ℕ) (kept : KeptPaths P) (key : PathKey) (path : P) :
    Option (KeptPaths P) :=
  let bytes := pathWeight capacity key path
  if kept.limit < bytes then some { kept with heavy := some (key, path) }
  else
    (makeRoom bytes (kept.index.size + 1) kept).bind (fun kept =>
      let placed := kept.occupy ⟨key, path, bytes, none, none⟩
      let kept := { placed.1 with index := placed.1.index.insert key placed.2 }
      (kept.linkNewest placed.2).map (fun kept => { kept with bytes := kept.bytes + bytes }))

def draw (capacity : P → ℕ) (kept : KeptPaths P) (key : PathKey) (path : P) :
    Option (KeptPaths P × Bool) :=
  (kept.get key).bind (fun found =>
    match found.2 with
    | some _ => some (found.1, true)
    | none => (found.1.insert capacity key path).map (fun kept => (kept, false)))

def drawAll (capacity : P → ℕ) (kept : KeptPaths P) : List (PathKey × P) → Option (KeptPaths P)
  | [] => some kept
  | shape :: shapes =>
    (kept.draw capacity shape.1 shape.2).bind (fun drawn => drawAll capacity drawn.1 shapes)

end KeptPaths

end GpuiFast
