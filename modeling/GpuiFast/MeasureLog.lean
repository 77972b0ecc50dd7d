import GpuiFast.LayoutRetention

/-! What Taffy measured of a node since the node was last dirtied is logged, and a new measurement
closure that gives every logged size again is taken without dirtying the node. One key is followed
here: the node retained under it, the nodes made for further elements that resolve to it in a
frame, and the logs their closures write. What a node's style converts to, and the fingerprint of
the request, are given with each request. -/

namespace GpuiFast

variable {γ ζ τ μ : Type*} [DecidableEq γ] [DecidableEq ζ] [DecidableEq τ]

structure MeasureLog (γ ζ : Type*) where
  entries : List (γ × ζ)
  overflowed : Bool

def MEASURE_LOG_CAPACITY : ℕ := 16

namespace MeasureLog

def empty : MeasureLog γ ζ := ⟨[], false⟩

def record (log : MeasureLog γ ζ) (c : γ) (size : ζ) : MeasureLog γ ζ :=
  if log.overflowed then log
  else if log.entries.any (fun entry => entry.1 = c) then
    { log with entries := log.entries.eraseP (fun entry => entry.1 = c) ++ [(c, size)] }
  else if log.entries.length = MEASURE_LOG_CAPACITY then ⟨[], true⟩
  else { log with entries := log.entries ++ [(c, size)] }

def vouches (log : MeasureLog γ ζ) : Bool := !log.overflowed && !log.entries.isEmpty

end MeasureLog

abbrev Closure (γ ζ : Type*) := ℕ → γ → ζ

/-- Asks `measure` under each entry's constraint from moment `t` on, up to the first size that
differs: the answers, and whether every one stands. -/
def replay (measure : Closure γ ζ) : ℕ → List (γ × ζ) → List (γ × ζ) × Bool
  | _, [] => ([], true)
  | t, (c, size) :: entries =>
    if measure t c = size then
      let rest := replay measure (t + 1) entries
      ((c, size) :: rest.1, rest.2)
    else ([(c, measure t c)], false)

structure Leaf (γ ζ : Type*) where
  measure : Closure γ ζ
  logs : List ℕ

abbrev ScaleFactor := UInt32

structure MeasuredNode (γ ζ τ μ : Type*) where
  leaf : Option (Leaf γ ζ)
  style : τ
  /-- The sizes taken from the closure since the node was last dirtied, each with the scale factor
  it was converted to device pixels under. -/
  held : γ → Option (ζ × ScaleFactor)
  styleFingerprint : UInt64
  measured : Bool
  measurement : Option μ
  measureLog : Option ℕ
  claimed : Bool

inductive Adopted where
  | no
  | measurement
  | node

structure Accepted (γ ζ : Type*) where
  answers : List (γ × ζ)
  held : γ → Option (ζ × ScaleFactor)
  scaleFactor : ScaleFactor

structure MeasureEngine (γ ζ τ μ : Type*) where
  node : Option (MeasuredNode γ ζ τ μ)
  twins : List (Leaf γ ζ)
  /-- The logs the node's new closure is to be checked against before a layout is computed. -/
  pendingReplays : List ℕ
  logs : ℕ → MeasureLog γ ζ
  nextLog : ℕ
  /-- How many times a closure was asked. -/
  clock : ℕ
  scaleFactor : ScaleFactor
  accepted : List (Accepted γ ζ)

namespace MeasuredNode

def markDirty (node : MeasuredNode γ ζ τ μ) : MeasuredNode γ ζ τ μ :=
  { node with held := fun _ => none }

def applyRequestedStyle (node : MeasuredNode γ ζ τ μ) (fingerprint : UInt64) (style : τ) :
    MeasuredNode γ ζ τ μ :=
  if node.styleFingerprint = fingerprint then node
  else if node.style = style then { node with styleFingerprint := fingerprint }
  else { node with styleFingerprint := fingerprint, style := style }.markDirty

end MeasuredNode

namespace MeasureEngine

def new (scaleFactor : ScaleFactor) : MeasureEngine γ ζ τ μ :=
  ⟨none, [], [], fun _ => .empty, 0, 0, scaleFactor, []⟩

/-- The logs after a closure that records into `ids` gave `size` under `c`. -/
def recordInto (logs : ℕ → MeasureLog γ ζ) (ids : List ℕ) (c : γ) (size : ζ) : ℕ → MeasureLog γ ζ :=
  fun l => if l ∈ ids then (logs l).record c size else logs l

def newLog (e : MeasureEngine γ ζ τ μ) : MeasureEngine γ ζ τ μ :=
  { e with logs := Function.update e.logs e.nextLog .empty, nextLog := e.nextLog + 1 }

def accept (e : MeasureEngine γ ζ τ μ) (a : Accepted γ ζ) : MeasureEngine γ ζ τ μ :=
  { e with accepted := e.accepted ++ [a] }

def vouching (e : MeasureEngine γ ζ τ μ) : Option ℕ :=
  (e.node.bind (·.measureLog)).filter (fun l => (e.logs l).vouches)

/-- Gives a closure to the node the key's claim comes to, or to a node of its own. A reused node is
left `clean` to be checked later, or dirtied. Says whether the node is the retained one. -/
def giveMeasure (e : MeasureEngine γ ζ τ μ) (fingerprint : UInt64) (style : τ) (leaf : Leaf γ ζ)
    (log : ℕ) (clean : Bool) : MeasureEngine γ ζ τ μ × Bool :=
  match e.node with
  | none =>
    ({ e with
      node := some
        { leaf := some leaf
          style := style
          held := fun _ => none
          styleFingerprint := fingerprint
          measured := true
          measurement := none
          measureLog := some log
          claimed := true } }, true)
  | some node =>
    if node.claimed then ({ e with twins := e.twins ++ [leaf] }, false)
    else
      -- a measured node has no children to take away, and any other one is dirtied
      let node := node.applyRequestedStyle fingerprint style
      let node := if clean then node else node.markDirty
      ({ e with
        pendingReplays := if clean then e.pendingReplays ++ [log] else e.pendingReplays
        node := some { node with
          leaf := some leaf
          measured := true
          measurement := none
          measureLog := some log
          claimed := true } }, true)

/-- Requests a measured node, checking a reused node's new closure against its log only when
`checked`. The closure records into `ids` already. -/
def requestMeasuredNode (e : MeasureEngine γ ζ τ μ) (fingerprint : UInt64) (style : τ)
    (measure : Closure γ ζ) (ids : List ℕ) (checked : Bool) : MeasureEngine γ ζ τ μ × Bool :=
  -- the log is looked up before the claim, whatever the claim comes to
  match if checked then e.vouching else none with
  | some l => e.giveMeasure fingerprint style ⟨measure, ids ++ [l]⟩ l true
  | none => e.newLog.giveMeasure fingerprint style ⟨measure, ids ++ [e.nextLog]⟩ e.nextLog false

def requestRetainedMeasuredLayout (e : MeasureEngine γ ζ τ μ) (fingerprint : UInt64) (style : τ)
    (measure : Closure γ ζ) : MeasureEngine γ ζ τ μ :=
  (e.requestMeasuredNode fingerprint style measure [] true).1

def measureAfresh (e : MeasureEngine γ ζ τ μ) (fingerprint : UInt64) (style : τ) (state : μ)
    (measure : Closure γ ζ) : MeasureEngine γ ζ τ μ :=
  let log := e.nextLog
  let r := e.newLog.requestMeasuredNode fingerprint style measure [log] false
  if r.2 then
    { r.1 with node := r.1.node.map (fun node =>
        { node with measurement := some state, measureLog := some log }) }
  else r.1

def carry (e : MeasureEngine γ ζ τ μ) (node : MeasuredNode γ ζ τ μ) (state : μ)
    (measure : Closure γ ζ) : MeasureEngine γ ζ τ μ :=
  let log := node.measureLog.getD e.nextLog
  let e := if node.measureLog.isSome then e else e.newLog
  { e with node := some { node with
      claimed := true, leaf := some ⟨measure, [log]⟩, measurement := some state,
      measureLog := some log } }

def keepOr (e : MeasureEngine γ ζ τ μ) (node : MeasuredNode γ ζ τ μ) (fingerprint : UInt64)
    (style : τ) (state : μ) (measure : Closure γ ζ) (kept : MeasureEngine γ ζ τ μ) :
    MeasureEngine γ ζ τ μ :=
  if node.leaf.isSome then kept
  else MeasureEngine.measureAfresh { e with node := some { node with claimed := true } }
    fingerprint style state measure

def requestRetainedCarriedMeasuredLayout (e : MeasureEngine γ ζ τ μ) (fingerprint : UInt64)
    (style : τ) (state : μ) (adopt : μ → Adopted) (measure : Closure γ ζ) : MeasureEngine γ ζ τ μ :=
  match e.node with
  | none => e.measureAfresh fingerprint style state measure
  | some node =>
    if ¬ node.claimed ∧ node.measured ∧ node.styleFingerprint = fingerprint then
      match (node.measurement.map adopt).getD .no with
      | .node => e.keepOr node fingerprint style state measure
          { e with node := some { node with claimed := true } }
      | .measurement => e.keepOr node fingerprint style state measure (e.carry node state measure)
      | .no =>
        match node.measureLog with
        | none => e.measureAfresh fingerprint style state measure
        | some l =>
          if (e.logs l).vouches then
            let r := replay measure e.clock (e.logs l).entries
            let e := { e with clock := e.clock + r.1.length }
            if r.2 then
              e.keepOr node fingerprint style state measure
                ((e.carry node state measure).accept ⟨r.1, node.held, e.scaleFactor⟩)
            else e.measureAfresh fingerprint style state measure
          else e.measureAfresh fingerprint style state measure
    else e.measureAfresh fingerprint style state measure

/-- Requests a node that does not measure itself. Taffy holds no measurement of it, whatever its
children are. -/
def requestRetainedLayout (e : MeasureEngine γ ζ τ μ) (fingerprint : UInt64) (style : τ) :
    MeasureEngine γ ζ τ μ :=
  match e.node with
  | none =>
    { e with node := some ⟨none, style, fun _ => none, fingerprint, false, none, none, true⟩ }
  | some node =>
    if node.claimed then e
    else
      let node := { node.applyRequestedStyle fingerprint style with claimed := true }
      { e with node := some <|
        if node.measured then
          { node with leaf := none, measured := false, measurement := none, measureLog := none }.markDirty
        else node }

def replayPending (e : MeasureEngine γ ζ τ μ) (l : ℕ) : MeasureEngine γ ζ τ μ :=
  match e.node with
  | none => e
  | some node =>
    match node.leaf with
    | none => e
    | some leaf =>
      let r := replay leaf.measure e.clock (e.logs l).entries
      let e := { e with
        clock := e.clock + r.1.length
        logs := r.1.foldl (fun logs (a : γ × ζ) => recordInto logs leaf.logs a.1 a.2) e.logs }
      if r.2 then e.accept ⟨r.1, node.held, e.scaleFactor⟩
      else { e with node := some node.markDirty }

def replayPendingMeasures (e : MeasureEngine γ ζ τ μ) : MeasureEngine γ ζ τ μ :=
  { e.pendingReplays.foldl replayPending e with pendingReplays := [] }

def ask (e : MeasureEngine γ ζ τ μ) (leaf : Leaf γ ζ) (c : γ) : MeasureEngine γ ζ τ μ :=
  { e with
    clock := e.clock + 1
    logs := recordInto e.logs leaf.logs c (leaf.measure e.clock c) }

def measure (e : MeasureEngine γ ζ τ μ) (c : γ) : MeasureEngine γ ζ τ μ :=
  match e.node with
  | none => e
  | some node =>
    match node.leaf with
    | none => e
    | some leaf =>
      { e.ask leaf c with node := some { node with
          held := Function.update node.held c (some (leaf.measure e.clock c, e.scaleFactor)) } }

def settle (e : MeasureEngine γ ζ τ μ) (c : γ) : MeasureEngine γ ζ τ μ :=
  match e.node.bind (·.leaf) with
  | none => e
  | some leaf => e.ask leaf c

def measureTwin (e : MeasureEngine γ ζ τ μ) (i : ℕ) (c : γ) : MeasureEngine γ ζ τ μ :=
  match e.twins[i]? with
  | none => e
  | some leaf => e.ask leaf c

def endFrame (e : MeasureEngine γ ζ τ μ) (lingers : Bool) : MeasureEngine γ ζ τ μ :=
  let node := if e.pendingReplays.isEmpty then e.node else e.node.map MeasuredNode.markDirty
  { e with
    pendingReplays := []
    twins := []
    node := (node.filter (fun n => n.claimed || lingers)).map (fun n => { n with claimed := false }) }

inductive Event (γ ζ τ μ : Type*) where
  | setScaleFactor (scaleFactor : ScaleFactor)
  | requestMeasured (fingerprint : UInt64) (style : τ) (measure : Closure γ ζ)
  | requestCarried (fingerprint : UInt64) (style : τ) (state : μ) (adopt : μ → Adopted)
      (measure : Closure γ ζ)
  | requestLayout (fingerprint : UInt64) (style : τ)
  /-- `keep_retained`, and what undoes it. -/
  | keep (claimed : Bool)
  | replayPendingMeasures
  /-- A layout that is computed measures the node, or a twin of it, after the replays. -/
  | measure (c : γ)
  | measureTwin (i : ℕ) (c : γ)
  | settle (c : γ)
  /-- Anything else that dirties the node. -/
  | markDirty
  | endFrame (lingers : Bool)

/-- One step; what cannot happen now changes nothing. -/
def step (e : MeasureEngine γ ζ τ μ) : Event γ ζ τ μ → MeasureEngine γ ζ τ μ
  | .setScaleFactor s => { e with scaleFactor := s }
  | .requestMeasured fingerprint style measure =>
    e.requestRetainedMeasuredLayout fingerprint style measure
  | .requestCarried fingerprint style state adopt measure =>
    e.requestRetainedCarriedMeasuredLayout fingerprint style state adopt measure
  | .requestLayout fingerprint style => e.requestRetainedLayout fingerprint style
  | .keep claimed => { e with node := e.node.map (fun n => { n with claimed := claimed }) }
  | .replayPendingMeasures => e.replayPendingMeasures
  | .measure c => if e.pendingReplays.isEmpty then e.measure c else e
  | .measureTwin i c => if e.pendingReplays.isEmpty then e.measureTwin i c else e
  | .settle c => if e.pendingReplays.isEmpty then e.settle c else e
  | .markDirty => { e with node := e.node.map MeasuredNode.markDirty }
  | .endFrame lingers => e.endFrame lingers

def run (scaleFactor : ScaleFactor) (events : List (Event γ ζ τ μ)) : MeasureEngine γ ζ τ μ :=
  events.foldl step (new scaleFactor)

end MeasureEngine

/-- Whether a closure that was taken answered, under every constraint Taffy holds a size for, with
that size, at the scale factor the size was taken under. -/
def Accepted.Agrees (a : Accepted γ ζ) : Prop :=
  ∀ c size scaleFactor, a.held c = some (size, scaleFactor) →
    (c, size) ∈ a.answers ∧ scaleFactor = a.scaleFactor

end GpuiFast
