import GpuiFast.TouchGestureRuns

/-! In exact arithmetic, the steps of a pan and of its fling telescope: whatever was predicted, they sum
to how far the finger went, and the fling to its distance. A step does not lead back from the last
raw movement along the axis; for the first step past the slop that is all the movement so far. -/

namespace GpuiFast

open List

/-- Touch arithmetic that is that of an ordered field, with a square root of squares. Lengths, the
speed at release and its limit are left open. -/
class ExactTouchFloat (F : Type) [Field F] [LinearOrder F] extends TouchFloat F where
  zero_eq : zero = 0
  add_eq : ∀ a b, add a b = a + b
  sub_eq : ∀ a b, sub a b = a - b
  mul_eq : ∀ a b, mul a b = a * b
  div_eq : ∀ a b, div a b = a / b
  neg_eq : ∀ a, neg a = -a
  abs_eq : ∀ a, abs a = |a|
  sqrt_mul_self : ∀ a, sqrt (a * a) = |a|
  min_eq : ∀ a b, min a b = Min.min a b
  max_eq : ∀ a b, max a b = Max.max a b
  eq_eq : ∀ a b, eq a b = decide (a = b)
  lt_eq : ∀ a b, lt a b = decide (a < b)
  le_eq : ∀ a b, le a b = decide (a ≤ b)

structure FlingPhysics (F : Type) [Field F] [LinearOrder F] where
  duration : F → ℕ
  curve : F → ℕ → F
  stopped : ∀ speed, speed ≤ 0 → duration speed = 0
  nonneg : ∀ speed elapsed, 0 < speed → 0 ≤ curve speed elapsed
  monotone : ∀ speed, 0 < speed → Monotone (curve speed)

namespace FlingPhysics

variable {F : Type} [Field F] [LinearOrder F]

def flingDistance (physics : FlingPhysics F) (speed : F) (elapsed : ℕ) : F :=
  if physics.duration speed = 0 then 0
  else physics.curve speed (min elapsed (physics.duration speed))

lemma flingDistance_le (physics : FlingPhysics F) (speed : F) (elapsed : ℕ) :
    physics.flingDistance speed elapsed ≤ physics.flingDistance speed (physics.duration speed) := by
  unfold flingDistance
  split
  · exact le_refl _
  · rename_i hduration
    have hspeed : 0 < speed := by
      by_contra hspeed
      exact hduration (physics.stopped speed (not_lt.mp hspeed))
    apply physics.monotone speed hspeed
    simp

lemma flingDistance_of_ended (physics : FlingPhysics F) {speed : F} {elapsed : ℕ}
    (h : physics.duration speed ≤ elapsed) :
    physics.flingDistance speed elapsed = physics.flingDistance speed (physics.duration speed) := by
  unfold flingDistance
  rw [min_eq_right h, min_self]

lemma flingDistance_nonneg (physics : FlingPhysics F) (speed : F) (elapsed : ℕ) :
    0 ≤ physics.flingDistance speed elapsed := by
  unfold flingDistance
  split
  · exact le_refl _
  · rename_i hduration
    apply physics.nonneg
    by_contra hspeed
    exact hduration (physics.stopped speed (not_lt.mp hspeed))

noncomputable def exponential (decay : ℝ) (hpos : 0 < decay) (hlt : decay < 1) :
    FlingPhysics ℝ where
  duration speed :=
    if speed ≤ 10 then 0 else (round (Real.log (10 / speed) / Real.log decay * 1000000)).toNat
  curve speed elapsed :=
    speed / 1000 * (decay ^ ((elapsed : ℝ) / 1000000) - 1) / Real.log decay
  stopped speed h := if_pos (by linarith)
  nonneg speed elapsed h := by
    have hdecay : decay ^ ((elapsed : ℝ) / 1000000) ≤ 1 :=
      Real.rpow_le_one hpos.le hlt.le (by positivity)
    apply div_nonneg_of_nonpos
    · apply mul_nonpos_of_nonneg_of_nonpos (by positivity)
      linarith
    · exact (Real.log_neg hpos hlt).le
  monotone speed h a b hab := by
    have hle : (a : ℝ) / 1000000 ≤ (b : ℝ) / 1000000 := by gcongr
    have hdecay := Real.rpow_le_rpow_of_exponent_ge hpos hlt.le hle
    dsimp only
    rw [div_le_div_right_of_neg (Real.log_neg hpos hlt)]
    gcongr

end FlingPhysics

section Axis

variable {F : Type}

def along : TouchAxis → Point F → F
  | .vertical, p => p.y
  | .horizontal, p => p.x

variable [Field F]

def onAxis : TouchAxis → F → Point F
  | .vertical, v => ⟨0, v⟩
  | .horizontal, v => ⟨v, 0⟩

@[simp] lemma along_onAxis (axis : TouchAxis) (v : F) : along axis (onAxis axis v) = v := by
  cases axis <;> rfl

lemma onAxis_zero (axis : TouchAxis) : onAxis axis (0 : F) = ⟨0, 0⟩ := by
  cases axis <;> rfl

variable [LinearOrder F] [ExactTouchFloat F]

open ExactTouchFloat

lemma originPoint_eq (axis : TouchAxis) : (originPoint : Point F) = onAxis axis 0 := by
  rw [onAxis_zero, originPoint, zero_eq]

lemma lockDeltaToAxis_eq (delta : Point F) (axis : TouchAxis) :
    lockDeltaToAxis delta axis = onAxis axis (along axis delta) := by
  cases axis <;> simp [lockDeltaToAxis, onAxis, along, zero_eq]

lemma along_subPoint (axis : TouchAxis) (p q : Point F) :
    along axis (subPoint p q) = along axis p - along axis q := by
  cases axis <;> simp [along, subPoint, sub_eq]

lemma movementsOppose_onAxis (axis : TouchAxis) (v : F) (p : Point F) :
    movementsOppose (onAxis axis v) p = decide (v * along axis p < 0) := by
  unfold movementsOppose
  rw [lt_eq, add_eq, mul_eq, mul_eq, zero_eq, decide_eq_decide]
  cases axis <;> simp [onAxis, along]

lemma eqPoint_onAxis (axis : TouchAxis) (v : F) :
    eqPoint (onAxis axis v) originPoint = decide (v = 0) := by
  cases axis <;> simp [eqPoint, originPoint, onAxis, eq_eq, zero_eq]

end Axis

def scrollDeltas {F : Type} (recognized : List (RecognizedTouchGesture F)) : List (Point F) :=
  recognized.filterMap (fun gesture =>
    match gesture with
    | .scroll _ delta _ => some delta
    | _ => none)

namespace TouchOp

variable {F : Type}

def closes (id : ℕ) : TouchOp F → Bool
  | event e _ => e.id = id && (e.phase = .ended || e.phase = .cancelled)
  | _ => false

def rawPosition (id : ℕ) (last : Point F) : TouchOp F → Point F
  | event e _ => if e.phase = .moved ∧ e.id = id then e.position else last
  | _ => last

/-- The raw movement that steps are held against: all of it until the pan has begun, and from then on
the last one along the axis. -/
def movement [Field F] [LinearOrder F] [TouchFloat F] (axis : TouchAxis) (id : ℕ)
    (start last : Point F) (begun : Bool) (before : Point F) (op : TouchOp F) : Point F :=
  let moved := subPoint (op.rawPosition id last) (if begun then last else start)
  if begun ∧ along axis moved = 0 then before else moved

end TouchOp

namespace TouchGestureRecognizer

variable {F : Type} [TouchFloat F]

def final (r : TouchGestureRecognizer F) (ops : List (TouchOp F)) : TouchGestureRecognizer F :=
  ops.foldl (fun r op => (r.step op).1) r

def recognizes (r : TouchGestureRecognizer F) :
    List (TouchOp F) → List (RecognizedTouchGesture F)
  | [] => []
  | op :: ops => (r.step op).2 ++ (r.step op).1.recognizes ops

end TouchGestureRecognizer

/-- A pan of one touch: it starts when no other touch is recognized, and whatever else happens, it
is panning when it is released. -/
structure TouchPan (F : Type) [Field F] [LinearOrder F] [ExactTouchFloat F] where
  physics : FlingPhysics F
  before : TouchGestureRecognizer F
  start : TouchEvent F
  startedAt : ℕ
  ops : List (TouchOp F)
  release : TouchEvent F
  releasedAt : ℕ
  axis : TouchAxis
  flingDuration : before.tuning.flingDuration = physics.duration
  flingDistance : before.tuning.flingDistance = physics.flingDistance
  idle : before.state = .idle
  started : start.phase = .started
  goesOn : ∀ op ∈ ops, op.closes start.id = false
  panning : ∃ touch, ((before.handleEventAt start startedAt).1.final ops).state =
    .panning touch axis
  released : release.phase = .ended
  sameTouch : release.id = start.id

namespace TouchPan

variable {F : Type} [Field F] [LinearOrder F] [ExactTouchFloat F]

def begun (pan : TouchPan F) : TouchGestureRecognizer F :=
  (pan.before.handleEventAt pan.start pan.startedAt).1

def deltasOf (pan : TouchPan F) (ops : List (TouchOp F)) : List (Point F) :=
  scrollDeltas ((pan.before.handleEventAt pan.start pan.startedAt).2 ++ pan.begun.recognizes ops)

def after (pan : TouchPan F) : TouchGestureRecognizer F :=
  ((pan.begun.final pan.ops).handleEventAt pan.release pan.releasedAt).1

def deltas (pan : TouchPan F) : List (Point F) :=
  pan.deltasOf pan.ops ++
    scrollDeltas ((pan.begun.final pan.ops).handleEventAt pan.release pan.releasedAt).2

def travel (pan : TouchPan F) : F :=
  along pan.axis pan.release.position - along pan.axis pan.start.position

def momentumDeltas (pan : TouchPan F) (times : List ℕ) : List (Point F) :=
  scrollDeltas (pan.after.recognizes (times.map .tickMomentum))

def rawAfter (pan : TouchPan F) (ops : List (TouchOp F)) : Point F :=
  ops.foldl (TouchOp.rawPosition pan.start.id) pan.start.position

/-- The movement after operations, the newest first. -/
def movementAfter (pan : TouchPan F) : List (TouchOp F) → Point F
  | [] => originPoint
  | op :: done =>
    op.movement pan.axis pan.start.id pan.start.position (pan.rawAfter done.reverse)
      (!(pan.deltasOf done.reverse).isEmpty) (pan.movementAfter done)

/-- The steps of a pan are along its axis, none before the release opposes the movement it is held
against, and they sum to how far the finger went; with all steps of its fling, they sum to that and
the distance of the fling. -/
structure Travels (pan : TouchPan F) : Prop where
  axis : ∀ delta ∈ pan.deltas, delta = onAxis pan.axis (along pan.axis delta)
  forward : ∀ done op rest, pan.ops = done ++ op :: rest →
    ∀ delta ∈ scrollDeltas ((pan.begun.final done).step op).2,
      movementsOppose delta (pan.movementAfter (op :: done.reverse)) = false
  unflung : pan.after.momentum = none → (pan.deltas.map (along pan.axis)).sum = pan.travel
  flung : ∀ momentum, pan.after.momentum = some momentum →
    (momentum.direction = onAxis pan.axis 1 ∨ momentum.direction = onAxis pan.axis (-1)) ∧
    ∀ times : List ℕ, (pan.after.final (times.map .tickMomentum)).momentum = none →
      (∀ delta ∈ pan.momentumDeltas times, delta = onAxis pan.axis (along pan.axis delta)) ∧
      ((pan.deltas ++ pan.momentumDeltas times).map (along pan.axis)).sum = pan.travel +
        along pan.axis momentum.direction *
          pan.physics.flingDistance momentum.speed momentum.duration

end TouchPan

section Steps

variable {F : Type} [Field F] [LinearOrder F] [ExactTouchFloat F]

open ExactTouchFloat TouchGestureRecognizer

def GoesTo (axis : TouchAxis) (deltas : List (Point F)) (start position : Point F) : Prop :=
  ∃ steps : List F, deltas = steps.map (onAxis axis) ∧
    steps.sum = along axis position - along axis start

omit [LinearOrder F] [ExactTouchFloat F] in
lemma GoesTo.step {axis : TouchAxis} {deltas : List (Point F)} {start position next : Point F}
    (h : GoesTo axis deltas start position) (v : F)
    (hv : v = along axis next - along axis position) :
    GoesTo axis (deltas ++ [onAxis axis v]) start next := by
  obtain ⟨steps, rfl, hsum⟩ := h
  refine ⟨steps ++ [v], by simp, ?_⟩
  rw [List.sum_append, List.sum_singleton, hsum, hv]
  ring

structure PanStep (touch : ActiveTouch F) (axis : TouchAxis) (event : TouchEvent F)
    (result : TouchGestureState F × List (RecognizedTouchGesture F)) (movement : Point F) :
    Prop where
  step : ∃ touch' v, result.1 = .panning touch' axis ∧
    scrollDeltas result.2 = [onAxis axis v] ∧ touch'.id = touch.id ∧
    touch'.startPosition = touch.startPosition ∧ touch'.lastPosition = event.position ∧
    v = along axis touch'.emittedPosition - along axis touch.emittedPosition ∧
    along axis touch'.lastMovement = along axis movement ∧
    movementsOppose (onAxis axis v) movement = false

lemma not_oppose_self [IsStrictOrderedRing F] (axis : TouchAxis) (p : Point F) :
    movementsOppose (onAxis axis (along axis p)) p = false := by
  rw [movementsOppose_onAxis, decide_eq_false_iff_not, not_lt]
  exact mul_self_nonneg _

lemma movementsOppose_lock (axis : TouchAxis) (v : F) (p : Point F) :
    movementsOppose (onAxis axis v) (onAxis axis (along axis p)) =
      movementsOppose (onAxis axis v) p := by
  rw [movementsOppose_onAxis, movementsOppose_onAxis, along_onAxis]

lemma startPan_step [IsStrictOrderedRing F] {touch : ActiveTouch F} {event : TouchEvent F}
    (hemitted : touch.emittedPosition = touch.startPosition)
    (hlast : touch.lastPosition = event.position) :
    ∃ axis, PanStep touch axis event
      (startPan touch event (subPoint event.position touch.startPosition))
      (subPoint event.position touch.startPosition) := by
  refine ⟨dominantAxis (subPoint event.position touch.startPosition), ?_⟩
  unfold startPan
  dsimp only
  generalize dominantAxis (subPoint event.position touch.startPosition) = axis
  simp only [lockDeltaToAxis_eq, movementsOppose_lock]
  cases hoppose : movementsOppose (onAxis axis (along axis (subPoint
      (event.predictedPosition.getD event.position) touch.startPosition)))
      (subPoint event.position touch.startPosition) with
  | true =>
    refine ⟨_, _, rfl, rfl, rfl, rfl, hlast, ?_, along_onAxis axis _, not_oppose_self axis _⟩
    rw [along_subPoint, hemitted]
    rfl
  | false =>
    refine ⟨_, _, rfl, rfl, rfl, rfl, hlast, ?_, along_onAxis axis _, hoppose⟩
    rw [along_subPoint, hemitted]
    rfl

lemma movePan_step {touch : ActiveTouch F} {axis : TouchAxis} {before : Point F}
    (hbefore : along axis touch.lastMovement = along axis before) (event : TouchEvent F) (now : ℕ) :
    PanStep touch axis event (movePan touch axis event now)
      (if along axis (subPoint event.position touch.lastPosition) = 0 then before
        else subPoint event.position touch.lastPosition) := by
  set moved := subPoint event.position touch.lastPosition with hmoved
  have hkept : along axis (if eqPoint (onAxis axis (along axis moved)) originPoint then
        touch.lastMovement else onAxis axis (along axis moved)) =
      along axis (if along axis moved = 0 then before else moved) := by
    rw [eqPoint_onAxis]
    by_cases hzero : along axis moved = 0
    · rw [if_pos (decide_eq_true hzero), if_pos hzero, hbefore]
    · rw [if_neg (by simpa using hzero), if_neg hzero, along_onAxis]
  have hoppose : ∀ v, movementsOppose (onAxis axis v)
      (if eqPoint (onAxis axis (along axis moved)) originPoint then touch.lastMovement
        else onAxis axis (along axis moved)) =
      movementsOppose (onAxis axis v) (if along axis moved = 0 then before else moved) := by
    intro v
    rw [movementsOppose_onAxis, movementsOppose_onAxis, hkept]
  generalize (if along axis moved = 0 then before else moved) = kept at hkept hoppose ⊢
  unfold movePan
  dsimp only
  simp only [lockDeltaToAxis_eq, ← hmoved, hoppose]
  split
  · split
    · refine ⟨_, 0, rfl, ?_, rfl, rfl, rfl, (sub_self _).symm, hkept, ?_⟩
      · rw [originPoint_eq axis]
        rfl
      · rw [movementsOppose_onAxis, zero_mul]
        simp
    · rename_i hforward
      refine ⟨_, _, rfl, rfl, rfl, rfl, rfl, along_subPoint _ _ _, hkept, ?_⟩
      simpa using hforward
  · rename_i hforward
    refine ⟨_, _, rfl, rfl, rfl, rfl, rfl, along_subPoint _ _ _, hkept, ?_⟩
    simpa using hforward

/-- What is recognized of a touch that started at a position, is at another one, moved last by some
movement, and has scrolled by some deltas. -/
def Underway (a : TouchAxis) (id : ℕ) (start last movement : Point F) (deltas : List (Point F)) :
    TouchGestureState F → Prop
  | .idle => False
  | .pending touch _ _ _ => touch.id = id ∧ touch.startPosition = start ∧
    touch.lastPosition = last ∧ touch.emittedPosition = start ∧ deltas = []
  | .caught touch => touch.id = id ∧ touch.startPosition = start ∧ touch.lastPosition = last ∧
    last = start ∧ deltas ≠ [] ∧ along a touch.lastMovement = along a movement ∧
    ∀ axis, GoesTo axis deltas start touch.emittedPosition
  | .panning touch axis => touch.id = id ∧ touch.startPosition = start ∧
    touch.lastPosition = last ∧ deltas ≠ [] ∧ along a touch.lastMovement = along a movement ∧
    axis = a ∧ GoesTo axis deltas start touch.emittedPosition
  | .longPressing touch => touch.id = id
  | .touchDragging touch => touch.id = id

/-- A touch that stays where it is keeps its movement. -/
lemma Underway.still {a : TouchAxis} {id : ℕ} {start last movement : Point F}
    {deltas : List (Point F)} {state : TouchGestureState F} {op : TouchOp F}
    (h : Underway a id start last movement deltas state) (hraw : op.rawPosition id last = last) :
    Underway a id start (op.rawPosition id last)
      (op.movement a id start last (!deltas.isEmpty) movement) deltas state := by
  have hkept : deltas ≠ [] → op.movement a id start last (!deltas.isEmpty) movement = movement := by
    intro hdeltas
    rw [TouchOp.movement, hraw]
    refine if_pos ⟨by simpa using hdeltas, ?_⟩
    rw [along_subPoint, if_pos (by simpa using hdeltas), sub_self]
  rw [hraw]
  cases state with
  | caught touch =>
    obtain ⟨hid, hstart, hlast, hlast', hdeltas, hmovement, hgoes⟩ := h
    exact ⟨hid, hstart, hlast, hlast', hdeltas, by rw [hkept hdeltas, hmovement], hgoes⟩
  | panning touch axis =>
    obtain ⟨hid, hstart, hlast, hdeltas, hmovement, haxis, hgoes⟩ := h
    exact ⟨hid, hstart, hlast, hdeltas, by rw [hkept hdeltas, hmovement], haxis, hgoes⟩
  | _ => exact h

structure GoesOn (r : TouchGestureRecognizer F) (a : TouchAxis) (id : ℕ)
    (start last movement : Point F) (deltas : List (Point F)) (op : TouchOp F) : Prop where
  momentum : (r.step op).1.momentum = none
  tuning : (r.step op).1.tuning = r.tuning
  underway : Underway a id start (op.rawPosition id last)
    (op.movement a id start last (!deltas.isEmpty) movement)
    (deltas ++ scrollDeltas (r.step op).2) (r.step op).1.state
  forward : ∀ delta ∈ scrollDeltas (r.step op).2, movementsOppose delta
    (op.movement a id start last (!deltas.isEmpty) movement) = false

variable {a : TouchAxis} {movement : Point F}

lemma goesOn_quiet {r : TouchGestureRecognizer F} {id : ℕ} {start last : Point F}
    {deltas : List (Point F)} {op : TouchOp F} {state : TouchGestureState F}
    {recognized : List (RecognizedTouchGesture F)}
    (hstep : r.step op = ({ r with state := state }, recognized)) (hmomentum : r.momentum = none)
    (hquiet : scrollDeltas recognized = [])
    (hunderway : Underway a id start (op.rawPosition id last)
      (op.movement a id start last (!deltas.isEmpty) movement) deltas state) :
    GoesOn r a id start last movement deltas op := by
  refine ⟨?_, ?_, ?_, ?_⟩
  · rw [hstep]
    exact hmomentum
  · rw [hstep]
  · rw [hstep, hquiet, append_nil]
    exact hunderway
  · rw [hstep, hquiet]
    simp

lemma goesOn_pan {r : TouchGestureRecognizer F} {id : ℕ} {start last moved : Point F}
    {deltas : List (Point F)} {event : TouchEvent F} {now : ℕ} {touch : ActiveTouch F}
    {result : TouchGestureState F × List (RecognizedTouchGesture F)}
    (hstep : r.step (.event event now) = ({ r with state := result.1 }, result.2))
    (hmomentum : r.momentum = none) (hid : touch.id = id) (hstart : touch.startPosition = start)
    (hraw : (TouchOp.event event now).rawPosition id last = event.position)
    (hgoes : GoesTo a deltas start touch.emittedPosition) (hpan : PanStep touch a event result moved)
    (hmoved : (TouchOp.event event now).movement a id start last (!deltas.isEmpty) movement = moved) :
    GoesOn r a id start last movement deltas (.event event now) := by
  obtain ⟨touch', v, hstate, hdeltas, hid', hstart', hlast', hv, hmovement, hoppose⟩ := hpan.step
  refine ⟨?_, ?_, ?_, ?_⟩
  · rw [hstep]
    exact hmomentum
  · rw [hstep]
  · rw [hstep, hdeltas, hraw, hmoved]
    change Underway a id start _ _ _ result.1
    rw [hstate]
    exact ⟨hid'.trans hid, hstart'.trans hstart, hlast', by simp, hmovement, rfl, hgoes.step v hv⟩
  · rw [hstep, hdeltas, hmoved]
    simpa using hoppose

omit [LinearOrder F] [ExactTouchFloat F] in
lemma Underway.id {id : ℕ} {start last : Point F} {deltas : List (Point F)}
    {state : TouchGestureState F} (h : Underway a id start last movement deltas state) :
    ∃ touch : ActiveTouch F, touch.id = id ∧ (state = .caught touch ∨ state = .longPressing touch ∨
      state = .touchDragging touch ∨ (∃ axis, state = .panning touch axis) ∨
      ∃ deadline longPress touchDrag, state = .pending touch deadline longPress touchDrag) := by
  cases state with
  | idle => exact h.elim
  | pending touch deadline longPress touchDrag =>
    exact ⟨touch, h.1, by simp⟩
  | caught touch => exact ⟨touch, h.1, by simp⟩
  | panning touch axis => exact ⟨touch, h.1, by simp⟩
  | longPressing touch => exact ⟨touch, h, by simp⟩
  | touchDragging touch => exact ⟨touch, h, by simp⟩

lemma touchMoved_other {r : TouchGestureRecognizer F} {id : ℕ} {start last : Point F}
    {deltas : List (Point F)} {event : TouchEvent F} (now : ℕ) (hne : event.id ≠ id)
    (hunderway : Underway a id start last movement deltas r.state) :
    r.touchMoved event now = (r.state, []) := by
  obtain ⟨touch, rfl, hstate⟩ := hunderway.id
  have hif : ¬ touch.id = event.id := fun h => hne h.symm
  unfold touchMoved
  rcases hstate with hs | hs | hs | ⟨axis, hs⟩ | ⟨deadline, longPress, touchDrag, hs⟩ <;>
    simp only [hs, if_neg hif]

lemma movement_begun {op : TouchOp F} {id : ℕ} {start last position : Point F}
    {deltas : List (Point F)} (hraw : op.rawPosition id last = position) (hdeltas : deltas ≠ []) :
    op.movement a id start last (!deltas.isEmpty) movement =
      if along a (subPoint position last) = 0 then movement else subPoint position last := by
  have hbegun : (!deltas.isEmpty) = true := by simpa using hdeltas
  rw [TouchOp.movement, hraw, hbegun]
  simp

lemma goesOn_moved [IsStrictOrderedRing F] {r : TouchGestureRecognizer F} {id : ℕ}
    {start last : Point F} {deltas : List (Point F)} {event : TouchEvent F} (now : ℕ)
    (hphase : event.phase = .moved) (hmomentum : r.momentum = none)
    (haxis : ∀ touch axis, (r.step (.event event now)).1.state = .panning touch axis → axis = a)
    (hunderway : Underway a id start last movement deltas r.state) :
    GoesOn r a id start last movement deltas (.event event now) := by
  have hstep : r.step (.event event now) =
      ({ r with state := (r.touchMoved event now).1 }, (r.touchMoved event now).2) := by
    simp only [step, handleEventAt, hphase]
  by_cases hid : event.id = id
  · subst hid
    have hraw : (TouchOp.event event now).rawPosition event.id last = event.position := by
      simp [TouchOp.rawPosition, hphase]
    cases hs : r.state with
    | idle =>
      rw [hs] at hunderway
      exact hunderway.elim
    | pending touch deadline longPress touchDrag =>
      rw [hs] at hunderway
      obtain ⟨hid, hstart, hlast, hemitted, rfl⟩ := hunderway
      set touch' : ActiveTouch F := { touch with
        velocityTracker := touch.velocityTracker.push now event.position
        lastPosition := event.position }
      by_cases hlong : TouchFloat.longer (subPoint event.position touch.startPosition)
        r.tuning.touchSlop
      · have hmoved : r.touchMoved event now =
            startPan touch' event (subPoint event.position touch'.startPosition) := by
          simp only [touchMoved, hs, if_pos hid, hlong, if_true]
          rfl
        rw [hmoved] at hstep
        obtain ⟨axis, hpan⟩ := @startPan_step F _ _ _ _ touch' event (hemitted.trans hstart.symm) rfl
        have hid' : touch'.id = event.id := hid
        have hstart' : touch'.startPosition = start := hstart
        have hgoes : ∀ axis, GoesTo axis [] start touch'.emittedPosition := by
          intro axis
          refine ⟨[], rfl, ?_⟩
          rw [show touch'.emittedPosition = start from hemitted]
          simp
        obtain ⟨touch'', _, hpanning, _⟩ := hpan.step
        obtain rfl := haxis touch'' axis (by rw [hstep]; exact hpanning)
        apply goesOn_pan hstep hmomentum hid' hstart' hraw (hgoes axis) hpan
        rw [TouchOp.movement, hraw, hstart', if_neg (by simp)]
        rfl
      · have hmoved : r.touchMoved event now =
            (.pending touch' deadline longPress touchDrag, []) := by
          simp only [touchMoved, hs, if_pos hid]
          rw [if_neg (by simpa using hlong)]
        rw [hmoved] at hstep
        apply goesOn_quiet hstep hmomentum rfl
        rw [hraw]
        exact ⟨hid, hstart, rfl, hemitted, rfl⟩
    | caught touch =>
      rw [hs] at hunderway
      obtain ⟨hid, hstart, hlast, hlast', hdeltas, hmovement, hgoes⟩ := hunderway
      by_cases hstill : eqPoint (subPoint event.position touch.startPosition) originPoint
      · have hmoved : r.touchMoved event now = (.caught touch, []) := by
          simp only [touchMoved, hs, if_pos hid, hstill, if_true]
        rw [hmoved] at hstep
        apply goesOn_quiet hstep hmomentum rfl
        have hsame : event.position = last := by
          have hstill' := hstill
          simp only [eqPoint, subPoint, originPoint, ExactTouchFloat.eq_eq, ExactTouchFloat.sub_eq,
            ExactTouchFloat.zero_eq, Bool.and_eq_true, decide_eq_true_eq, sub_eq_zero] at hstill'
          rw [hlast', ← hstart]
          cases hposition : event.position
          cases hposition' : touch.startPosition
          rw [hposition, hposition'] at hstill'
          simpa using hstill'
        exact Underway.still ⟨hid, hstart, hlast, hlast', hdeltas, hmovement, hgoes⟩
          (hraw.trans hsame)
      · have hmoved : r.touchMoved event now = movePan touch
            (dominantAxis (subPoint event.position touch.startPosition)) event now := by
          simp only [touchMoved, hs, if_pos hid]
          rw [if_neg hstill]
        rw [hmoved] at hstep
        have hself : along (dominantAxis (subPoint event.position touch.startPosition))
            touch.lastMovement = along (dominantAxis (subPoint event.position touch.startPosition))
              touch.lastMovement := rfl
        obtain ⟨touch', _, hpanning, _⟩ := (movePan_step hself event now).step
        obtain rfl := haxis touch' _ (by rw [hstep]; exact hpanning)
        apply goesOn_pan hstep hmomentum hid hstart hraw (hgoes _) (movePan_step hmovement event now)
        rw [hlast]
        exact movement_begun hraw hdeltas
    | panning touch axis =>
      rw [hs] at hunderway
      obtain ⟨hid, hstart, hlast, hdeltas, hmovement, rfl, hgoes⟩ := hunderway
      have hmoved : r.touchMoved event now = movePan touch axis event now := by
        simp only [touchMoved, hs, if_pos hid]
      rw [hmoved] at hstep
      apply goesOn_pan hstep hmomentum hid hstart hraw hgoes (movePan_step hmovement event now)
      rw [hlast]
      exact movement_begun hraw hdeltas
    | longPressing touch =>
      rw [hs] at hunderway
      have hid : touch.id = event.id := hunderway
      simp only [touchMoved, hs, if_pos hid] at hstep
      exact goesOn_quiet hstep hmomentum rfl hid
    | touchDragging touch =>
      rw [hs] at hunderway
      have hid : touch.id = event.id := hunderway
      simp only [touchMoved, hs, if_pos hid] at hstep
      exact goesOn_quiet hstep hmomentum rfl hid
  · rw [touchMoved_other now hid hunderway] at hstep
    exact goesOn_quiet hstep hmomentum rfl (hunderway.still (by simp [TouchOp.rawPosition, hid]))

lemma step_other {r : TouchGestureRecognizer F} {id : ℕ} {start last : Point F}
    {deltas : List (Point F)} {event : TouchEvent F} (now : ℕ) (hphase : event.phase ≠ .moved)
    (hcloses : (TouchOp.event event now).closes id = false) (hmomentum : r.momentum = none)
    (hunderway : Underway a id start last movement deltas r.state) :
    r.step (.event event now) = ({ r with state := r.state }, []) := by
  obtain ⟨touch, rfl, hstate⟩ := hunderway.id
  have hopen : event.phase ≠ .started → ¬ touch.id = event.id := by
    intro hstarted hid
    cases hevent : event.phase <;> simp [TouchOp.closes, hevent, hid] at hcloses hphase hstarted
  cases r with
  | mk tuning state momentum lastTap =>
    simp only at hmomentum hstate
    subst hmomentum
    cases hevent : event.phase with
    | moved => exact absurd hevent hphase
    | started =>
      rcases hstate with rfl | rfl | rfl | ⟨axis, rfl⟩ | ⟨deadline, longPress, touchDrag, rfl⟩ <;>
        simp only [step, handleEventAt, hevent, touchStarted, catchFling]
    | ended =>
      have hif := hopen (by simp [hevent])
      rcases hstate with rfl | rfl | rfl | ⟨axis, rfl⟩ | ⟨deadline, longPress, touchDrag, rfl⟩ <;>
        simp only [step, handleEventAt, hevent, touchEnded, if_neg hif]
    | cancelled =>
      have hif := hopen (by simp [hevent])
      rcases hstate with rfl | rfl | rfl | ⟨axis, rfl⟩ | ⟨deadline, longPress, touchDrag, rfl⟩ <;>
        simp only [step, handleEventAt, hevent, touchCancelled, if_neg hif]

lemma goesOn [IsStrictOrderedRing F] {r : TouchGestureRecognizer F} {id : ℕ}
    {start last : Point F} {deltas : List (Point F)} (op : TouchOp F)
    (hcloses : op.closes id = false) (hmomentum : r.momentum = none)
    (haxis : ∀ touch axis, (r.step op).1.state = .panning touch axis → axis = a)
    (hunderway : Underway a id start last movement deltas r.state) :
    GoesOn r a id start last movement deltas op := by
  cases op with
  | event event now =>
    by_cases hphase : event.phase = .moved
    · exact goesOn_moved now hphase hmomentum haxis hunderway
    · exact goesOn_quiet (step_other now hphase hcloses hmomentum hunderway) hmomentum rfl
        (hunderway.still (by simp [TouchOp.rawPosition, hphase]))
  | offerLongPress touchId =>
    have hstep : ∃ state recognized,
        r.step (.offerLongPress touchId) = ({ r with state := state }, recognized) ∧
          scrollDeltas recognized = [] ∧ Underway a id start last movement deltas state := by
      simp only [step, offerLongPress]
      split
      · rename_i hs
        split
        · exact ⟨_, _, rfl, rfl, hunderway⟩
        · rw [hs] at hunderway
          exact ⟨_, _, rfl, rfl, hunderway⟩
      · exact ⟨_, _, rfl, rfl, hunderway⟩
    obtain ⟨state, recognized, hstep, hquiet, hunderway'⟩ := hstep
    exact goesOn_quiet hstep hmomentum hquiet (hunderway'.still rfl)
  | resolveLongPress claimed =>
    have hstep : ∃ state, r.step (.resolveLongPress claimed) = ({ r with state := state }, []) ∧
        Underway a id start last movement deltas state := by
      simp only [step, resolveLongPress]
      split
      · split
        · rename_i hs
          rw [hs] at hunderway
          exact ⟨_, rfl, hunderway.1⟩
        · exact ⟨_, rfl, hunderway⟩
      · exact ⟨_, rfl, hunderway⟩
    obtain ⟨state, hstep, hunderway'⟩ := hstep
    exact goesOn_quiet hstep hmomentum rfl (hunderway'.still rfl)
  | offerTouchDrag touchId =>
    have hstep : ∃ state recognized,
        r.step (.offerTouchDrag touchId) = ({ r with state := state }, recognized) ∧
          scrollDeltas recognized = [] ∧ Underway a id start last movement deltas state := by
      simp only [step, offerTouchDrag]
      split
      · rename_i hs
        split
        · exact ⟨_, _, rfl, rfl, hunderway⟩
        · rw [hs] at hunderway
          exact ⟨_, _, rfl, rfl, hunderway⟩
      · exact ⟨_, _, rfl, rfl, hunderway⟩
    obtain ⟨state, recognized, hstep, hquiet, hunderway'⟩ := hstep
    exact goesOn_quiet hstep hmomentum hquiet (hunderway'.still rfl)
  | resolveTouchDrag claimed =>
    have hstep : ∃ state, r.step (.resolveTouchDrag claimed) = ({ r with state := state }, []) ∧
        Underway a id start last movement deltas state := by
      simp only [step, resolveTouchDrag]
      split
      · split
        · rename_i hs
          rw [hs] at hunderway
          exact ⟨_, rfl, hunderway.1⟩
        · exact ⟨_, rfl, hunderway⟩
      · exact ⟨_, rfl, hunderway⟩
    obtain ⟨state, hstep, hunderway'⟩ := hstep
    exact goesOn_quiet hstep hmomentum rfl (hunderway'.still rfl)
  | tickMomentum now =>
    have hstep : r.step (.tickMomentum now) = ({ r with state := r.state }, []) := by
      simp only [step, tickMomentumAt, hmomentum, Option.toList_none]
    exact goesOn_quiet hstep hmomentum rfl (hunderway.still rfl)

omit [LinearOrder F] [ExactTouchFloat F] [Field F] in
lemma recognizes_concat [TouchFloat F] (ops : List (TouchOp F)) (op : TouchOp F)
    (r : TouchGestureRecognizer F) :
    r.recognizes (ops ++ [op]) = r.recognizes ops ++ ((r.final ops).step op).2 := by
  induction ops generalizing r with
  | nil => exact append_nil _
  | cons head ops ih =>
    rw [cons_append, recognizes, ih, recognizes, append_assoc]
    rfl

omit [LinearOrder F] [ExactTouchFloat F] [Field F] in
lemma scrollDeltas_append (recognized recognized' : List (RecognizedTouchGesture F)) :
    scrollDeltas (recognized ++ recognized') =
      scrollDeltas recognized ++ scrollDeltas recognized' := filterMap_append

omit [Field F] [LinearOrder F] [ExactTouchFloat F] in
lemma watches_open {op : TouchOp F} {id : ℕ} (h : op.closes id = false) :
    op.watches (some id) = some id := by
  cases op with
  | event e now =>
    rw [TouchOp.watches]
    cases hphase : e.phase with
    | started => rfl
    | moved => rfl
    | ended | cancelled =>
      refine if_neg (fun hid => ?_)
      simp [TouchOp.closes, hphase, ← Option.some.inj hid] at h
  | _ => rfl

lemma final_touchId (ops : List (TouchOp F)) {r : TouchGestureRecognizer F} {id : ℕ}
    (hopen : ∀ op ∈ ops, op.closes id = false) (hid : r.state.touchId = some id) :
    (r.final ops).state.touchId = some id := by
  induction ops generalizing r with
  | nil => exact hid
  | cons op ops ih =>
    refine ih (fun op' hop' => hopen op' (mem_cons_of_mem _ hop')) ?_
    rw [step_touchId, hid, watches_open (hopen op mem_cons_self)]

lemma step_panning {r : TouchGestureRecognizer F} {touch : ActiveTouch F} {axis : TouchAxis}
    (hs : r.state = .panning touch axis) {op : TouchOp F} (hopen : op.closes touch.id = false) :
    ∃ touch', (r.step op).1.state = .panning touch' axis := by
  cases op with
  | event e now =>
    rw [step, handleEventAt]
    have hother : e.phase = .ended ∨ e.phase = .cancelled → ¬ touch.id = e.id := by
      rintro (hphase | hphase) hid <;> simp [TouchOp.closes, hphase, hid] at hopen
    cases hphase : e.phase with
    | started =>
      simp only [touchStarted, hs]
      exact ⟨touch, rfl⟩
    | moved =>
      simp only [touchMoved, hs]
      split
      · exact ⟨_, rfl⟩
      · exact ⟨touch, rfl⟩
    | ended =>
      simp only [touchEnded, hs, if_neg (hother (.inl hphase))]
      exact ⟨touch, rfl⟩
    | cancelled =>
      simp only [touchCancelled, hs, if_neg (hother (.inr hphase))]
      exact ⟨touch, rfl⟩
  | offerLongPress id | offerTouchDrag id =>
    simp only [step, offerLongPress, offerTouchDrag, hs]
    exact ⟨touch, rfl⟩
  | resolveLongPress claimed | resolveTouchDrag claimed =>
    simp only [step, resolveLongPress, resolveTouchDrag, hs, ite_self]
    exact ⟨touch, rfl⟩
  | tickMomentum now =>
    simp only [step, tickMomentumAt]
    split
    · exact ⟨touch, hs⟩
    · split <;> exact ⟨touch, hs⟩

lemma final_panning (ops : List (TouchOp F)) {r : TouchGestureRecognizer F} {id : ℕ}
    {touch : ActiveTouch F} {axis : TouchAxis} (hopen : ∀ op ∈ ops, op.closes id = false)
    (hid : r.state.touchId = some id) (hs : r.state = .panning touch axis) :
    ∃ touch', (r.final ops).state = .panning touch' axis := by
  induction ops generalizing r touch with
  | nil => exact ⟨touch, hs⟩
  | cons op ops ih =>
    have hsame : touch.id = id := by
      rw [hs] at hid
      exact Option.some.inj hid
    obtain ⟨touch', hstep⟩ := step_panning hs (hsame ▸ hopen op mem_cons_self)
    refine ih (fun op' hop' => hopen op' (mem_cons_of_mem _ hop')) ?_ hstep
    rw [step_touchId, hid, watches_open (hopen op mem_cons_self)]

structure Launches (physics : FlingPhysics F) (axis : TouchAxis) (v : F)
    (result : Option (Momentum F) × Point F) : Prop where
  unflung : result.1 = none → result.2 = onAxis axis v
  flung : ∀ momentum, result.1 = some momentum →
    (momentum.direction = onAxis axis 1 ∨ momentum.direction = onAxis axis (-1)) ∧
      momentum.duration = physics.duration momentum.speed ∧
      momentum.emittedDistance ≤ physics.flingDistance momentum.speed momentum.duration ∧
      result.2 = onAxis axis (v + along axis momentum.direction * momentum.emittedDistance)

lemma div_onAxis_x (axis : TouchAxis) (v w : F) :
    TouchFloat.div (onAxis axis v).x w = (onAxis axis (v / w)).x := by
  cases axis <;> simp [onAxis, div_eq]

lemma div_onAxis_y (axis : TouchAxis) (v w : F) :
    TouchFloat.div (onAxis axis v).y w = (onAxis axis (v / w)).y := by
  cases axis <;> simp [onAxis, div_eq]

lemma onAxis_dot (axis : TouchAxis) (v w : F) :
    TouchFloat.add (TouchFloat.mul (onAxis axis v).x (onAxis axis w).x)
      (TouchFloat.mul (onAxis axis v).y (onAxis axis w).y) = v * w := by
  cases axis <;> simp [onAxis, add_eq, mul_eq]

lemma onAxis_add_mul (axis : TouchAxis) (v w o : F) :
    (⟨TouchFloat.add (onAxis axis v).x (TouchFloat.mul (onAxis axis w).x o),
      TouchFloat.add (onAxis axis v).y (TouchFloat.mul (onAxis axis w).y o)⟩ : Point F) =
      onAxis axis (v + w * o) := by
  cases axis <;> simp [onAxis, add_eq, mul_eq]

lemma releasePan_launches [IsStrictOrderedRing F] {physics : FlingPhysics F}
    {r : TouchGestureRecognizer F} (hduration : r.tuning.flingDuration = physics.duration)
    (hdistance : r.tuning.flingDistance = physics.flingDistance) (touch : ActiveTouch F)
    (axis : TouchAxis) (event : TouchEvent F) (now : ℕ) :
    Launches physics axis (along axis event.position - along axis touch.emittedPosition)
      (r.releasePan touch axis event now) := by
  unfold releasePan
  simp only [lockDeltaToAxis_eq, along_subPoint, hduration, hdistance, onAxis_dot, div_onAxis_x,
    div_onAxis_y, onAxis_add_mul, sqrt_mul_self, min_eq, neg_eq, zero_eq, lt_eq, le_eq]
  generalize along axis (if touch.velocityTracker.latestSampleTime.all
    (fun latest => decide (now - latest > velocityAssumeStoppedGap)) then originPoint
    else TouchFloat.velocity touch.velocityTracker) = w
  generalize along axis event.position - along axis touch.emittedPosition = v
  generalize hspeed : min |w| (TouchFloat.maxFlingVelocity : F) = speed
  by_cases hfast : r.tuning.minFlingVelocity ≤ |w|
  · rw [if_pos (by simpa using hfast)]
    by_cases hcoasts : physics.duration speed = 0
    · rw [if_pos hcoasts]
      exact ⟨fun _ => rfl, by simp⟩
    · rw [if_neg hcoasts]
      refine ⟨by simp, ?_⟩
      intro momentum hmomentum
      simp only [Option.some.injEq] at hmomentum
      subst hmomentum
      have hpos : 0 < |w| := by
        have : 0 < speed := by
          by_contra hstopped
          exact hcoasts (physics.stopped speed (not_lt.mp hstopped))
        exact lt_of_lt_of_le this (hspeed ▸ min_le_left _ _)
      have hw : w ≠ 0 := abs_pos.mp hpos
      refine ⟨?_, rfl, ?_, ?_⟩
      · rcases lt_or_gt_of_ne hw with hneg | hpositive
        · right
          rw [abs_of_neg hneg, div_neg, div_self hw]
        · left
          rw [abs_of_pos hpositive, div_self hw]
      · dsimp only
        split
        · rename_i hahead
          simp only [Bool.and_eq_true, decide_eq_true_eq] at hahead
          exact hahead.2.le
        · exact physics.flingDistance_nonneg _ _
      · dsimp only
        rw [along_onAxis]
        split
        · rfl
        · rw [mul_zero, add_zero]
  · rw [if_neg (by simpa using hfast)]
    exact ⟨fun _ => rfl, by simp⟩

lemma tickMomentum_none (times : List ℕ) {r : TouchGestureRecognizer F} (h : r.momentum = none) :
    r.recognizes (times.map .tickMomentum) = [] := by
  induction times generalizing r with
  | nil => rfl
  | cons now times ih =>
    have hstep : r.step (.tickMomentum now) = (r, []) := by
      simp only [step, tickMomentumAt, h, Option.toList_none]
    rw [map_cons, recognizes, hstep, ih h]
    rfl

lemma mul_onAxis (axis : TouchAxis) (d v : F) :
    (⟨TouchFloat.mul (onAxis axis d).x v, TouchFloat.mul (onAxis axis d).y v⟩ : Point F) =
      onAxis axis (d * v) := by
  cases axis <;> simp [onAxis, mul_eq]

lemma tickMomentum_sum [IsStrictOrderedRing F] {physics : FlingPhysics F} {axis : TouchAxis}
    {d : F} (times : List ℕ) {r : TouchGestureRecognizer F} {momentum : Momentum F}
    (hdistance : r.tuning.flingDistance = physics.flingDistance)
    (hmomentum : r.momentum = some momentum) (hdirection : momentum.direction = onAxis axis d)
    (hduration : momentum.duration = physics.duration momentum.speed)
    (hemitted : momentum.emittedDistance ≤ physics.flingDistance momentum.speed momentum.duration)
    (hended : (r.final (times.map .tickMomentum)).momentum = none) :
    ∃ steps : List F,
      scrollDeltas (r.recognizes (times.map .tickMomentum)) = steps.map (onAxis axis) ∧
        steps.sum = d * (physics.flingDistance momentum.speed momentum.duration -
          momentum.emittedDistance) := by
  induction times generalizing r momentum with
  | nil =>
    rw [map_nil, final, foldl_nil, hmomentum] at hended
    exact absurd hended (by simp)
  | cons now times ih =>
    have hle := physics.flingDistance_le momentum.speed (now - momentum.startedAt)
    rw [← hduration] at hle
    set total := physics.flingDistance momentum.speed momentum.duration
    set distance := physics.flingDistance momentum.speed (now - momentum.startedAt) with hd
    set next : Momentum F :=
      { momentum with emittedDistance := max momentum.emittedDistance distance } with hnext
    have hstep : r.step (.tickMomentum now) =
        if now - momentum.startedAt ≥ momentum.duration then
          ({ r with momentum := none }, [.scroll momentum.position
            (onAxis axis (d * max (distance - momentum.emittedDistance) 0)) .ended])
        else
          ({ r with momentum := some next }, [.scroll momentum.position
            (onAxis axis (d * max (distance - momentum.emittedDistance) 0)) .moved]) := by
      simp only [step, tickMomentumAt, hmomentum, hdistance, hdirection, mul_onAxis, max_eq, sub_eq,
        zero_eq, ← hd, hnext]
      split <;> rfl
    have hmax : max momentum.emittedDistance distance =
        momentum.emittedDistance + max (distance - momentum.emittedDistance) 0 := by
      rw [max_comm, ← max_add_add_left]
      simp
    rw [map_cons] at hended ⊢
    rw [final, foldl_cons] at hended
    rw [recognizes]
    by_cases hlast : now - momentum.startedAt ≥ momentum.duration
    · rw [if_pos hlast] at hstep
      rw [hstep, tickMomentum_none times rfl, append_nil]
      have htotal : distance = total := by
        rw [hd, physics.flingDistance_of_ended (by rw [← hduration]; exact hlast), ← hduration]
      refine ⟨[d * max (distance - momentum.emittedDistance) 0], rfl, ?_⟩
      rw [List.sum_singleton, htotal, max_eq_left (sub_nonneg.mpr hemitted)]
    · rw [if_neg hlast] at hstep
      rw [hstep] at hended ⊢
      obtain ⟨steps, hsteps, hsum⟩ := @ih { r with momentum := some next } next
        hdistance rfl hdirection hduration (max_le hemitted hle) hended
      refine ⟨d * max (distance - momentum.emittedDistance) 0 :: steps, ?_, ?_⟩
      · rw [scrollDeltas_append, hsteps]
        rfl
      · rw [sum_cons, hsum]
        change _ + d * (total - max momentum.emittedDistance distance) = _
        rw [hmax]
        ring

lemma begun_underway (pan : TouchPan F) : pan.begun.momentum = none ∧
    pan.begun.tuning = pan.before.tuning ∧
      Underway pan.axis pan.start.id pan.start.position pan.start.position (pan.movementAfter [])
        (pan.deltasOf []) pan.begun.state := by
  have hhandle : pan.before.handleEventAt pan.start pan.startedAt =
      pan.before.touchStarted pan.start pan.startedAt := by
    simp only [handleEventAt, pan.started]
  unfold TouchPan.deltasOf TouchPan.begun
  rw [hhandle]
  cases hmomentum : pan.before.momentum with
  | none =>
    simp only [touchStarted, pan.idle, catchFling, hmomentum]
    exact ⟨rfl, rfl, rfl, rfl, rfl, rfl, rfl⟩
  | some momentum =>
    simp only [touchStarted, pan.idle, catchFling, hmomentum]
    refine ⟨rfl, rfl, rfl, rfl, rfl, rfl, by simp [scrollDeltas, recognizes], rfl, ?_⟩
    intro axis
    refine ⟨[0, 0], ?_, by simp⟩
    rw [map_cons, map_singleton, ← originPoint_eq]
    rfl

lemma panning_axis (pan : TouchPan F) {done rest : List (TouchOp F)} (hops : pan.ops = done ++ rest)
    {touch : ActiveTouch F} {axis : TouchAxis}
    (hs : (pan.begun.final done).state = .panning touch axis) : axis = pan.axis := by
  have hbegun : pan.begun.state.touchId = some pan.start.id := by
    obtain ⟨-, -, hunderway⟩ := begun_underway pan
    obtain ⟨touch, hid, hstate⟩ := hunderway.id
    rw [← hid]
    rcases hstate with hs | hs | hs | ⟨_, hs⟩ | ⟨_, _, _, hs⟩ <;> rw [hs] <;> rfl
  have hopen := pan.goesOn
  obtain ⟨last, hlast⟩ := pan.panning
  change (pan.begun.final pan.ops).state = _ at hlast
  rw [hops] at hopen hlast
  obtain ⟨touch', hpanning⟩ := final_panning rest
    (fun op hop => hopen op (mem_append_right _ hop))
    (final_touchId done (fun op hop => hopen op (mem_append_left _ hop)) hbegun) hs
  rw [final, foldl_append] at hlast
  have hsame : TouchGestureState.panning touch' axis = .panning last pan.axis :=
    hpanning.symm.trans hlast
  injection hsame

lemma pan_underway [IsStrictOrderedRing F] (pan : TouchPan F) (done : List (TouchOp F)) :
    ∀ rest, pan.ops = done ++ rest → (pan.begun.final done).momentum = none ∧
      (pan.begun.final done).tuning = pan.before.tuning ∧
        Underway pan.axis pan.start.id pan.start.position (pan.rawAfter done)
          (pan.movementAfter done.reverse) (pan.deltasOf done) (pan.begun.final done).state := by
  induction done using reverseRecOn with
  | nil => exact fun _ _ => begun_underway pan
  | append_singleton done op ih =>
    intro rest hops
    rw [append_assoc] at hops
    obtain ⟨hmomentum, htuning, hunderway⟩ := ih _ hops
    have hfinal : pan.begun.final (done ++ [op]) = ((pan.begun.final done).step op).1 := by
      rw [final, foldl_append]
      rfl
    have hopen : op.closes pan.start.id = false := pan.goesOn op (by rw [hops]; simp)
    have hops' : pan.ops = (done ++ [op]) ++ rest := by simpa using hops
    have hstep := goesOn op hopen hmomentum
      (fun touch axis hs => panning_axis pan hops' (hfinal ▸ hs)) hunderway
    have hdeltas : pan.deltasOf (done ++ [op]) =
        pan.deltasOf done ++ scrollDeltas ((pan.begun.final done).step op).2 := by
      rw [TouchPan.deltasOf, TouchPan.deltasOf, recognizes_concat, ← append_assoc,
        scrollDeltas_append]
    rw [hfinal, hdeltas, TouchPan.rawAfter, foldl_append, reverse_append]
    refine ⟨hstep.momentum, hstep.tuning.trans htuning, ?_⟩
    rw [reverse_singleton, singleton_append, TouchPan.movementAfter, reverse_reverse]
    exact hstep.underway

end Steps

open TouchGestureRecognizer

/-- Touch arithmetic in rational numbers, with the speed between the first and the last sample. -/
instance : ExactTouchFloat ℚ where
  zero := 0
  add a b := a + b
  sub a b := a - b
  mul a b := a * b
  div a b := a / b
  neg a := -a
  abs a := |a|
  sqrt := Rat.sqrt
  min a b := min a b
  max a b := max a b
  eq a b := decide (a = b)
  lt a b := decide (a < b)
  le a b := decide (a ≤ b)
  longer p d := decide (d * d < p.x * p.x + p.y * p.y)
  within p d := decide (p.x * p.x + p.y * p.y ≤ d * d)
  velocity samples :=
    match samples.head?, samples.getLast? with
    | some (t, p), some (t', p') =>
      ⟨(p'.x - p.x) / (t' - t) * 1000000000, (p'.y - p.y) / (t' - t) * 1000000000⟩
    | _, _ => ⟨0, 0⟩
  maxFlingVelocity := 8000
  zero_eq := rfl
  add_eq _ _ := rfl
  sub_eq _ _ := rfl
  mul_eq _ _ := rfl
  div_eq _ _ := rfl
  neg_eq _ := rfl
  abs_eq _ := rfl
  sqrt_mul_self := Rat.sqrt_eq
  min_eq _ _ := rfl
  max_eq _ _ := rfl
  eq_eq _ _ := rfl
  lt_eq _ _ := rfl
  le_eq _ _ := rfl

def steadyPhysics : FlingPhysics ℚ where
  duration speed := if speed ≤ 10 then 0 else 1000000000
  curve speed elapsed := speed * elapsed / 2000000000
  stopped speed h := if_pos (by linarith)
  nonneg speed elapsed h := by positivity
  monotone speed h a b hab := by
    have : (a : ℚ) ≤ b := by exact_mod_cast hab
    dsimp only
    gcongr

def steadyTuning : GestureTuning ℚ where
  touchSlop := 16
  multiTapInterval := 400000000
  multiTapSlop := 16
  longPressDuration := 500000000
  minFlingVelocity := 50
  flingDuration := steadyPhysics.duration
  flingDistance := steadyPhysics.flingDistance

lemma exists_panning {state : TouchGestureState ℚ} {axis : TouchAxis}
    (h : (match state with
      | .panning _ a => decide (a = axis)
      | _ => false) = true) : ∃ touch, state = .panning touch axis := by
  cases state with
  | panning touch a => exact ⟨touch, by rw [of_decide_eq_true h]⟩
  | _ => simp at h

def bentPan : TouchPan ℚ where
  physics := steadyPhysics
  before := { tuning := steadyTuning }
  start := ⟨0, .started, ⟨0, 0⟩, none⟩
  startedAt := 0
  ops := [.event ⟨0, .moved, ⟨0, 14⟩, none⟩ 8000000, .event ⟨0, .moved, ⟨10, 13⟩, none⟩ 16000000]
  release := ⟨0, .ended, ⟨10, 13⟩, none⟩
  releasedAt := 24000000
  axis := .vertical
  flingDuration := rfl
  flingDistance := rfl
  idle := rfl
  started := rfl
  goesOn := by decide
  panning := exists_panning (by with_unfolding_all decide)
  released := rfl
  sameTouch := rfl

end GpuiFast
