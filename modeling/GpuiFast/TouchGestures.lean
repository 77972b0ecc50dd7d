import GpuiFast.Geometry

/-! The recognizer behind raw touch input. It watches one touch at a time and resolves it into a tap, a
pan with its momentum, a long press or a touch drag. Times are nanoseconds. Nothing is assumed of
the floating-point arithmetic. -/

namespace GpuiFast

/-- Floating-point numbers, with the speed a touch is released at and the curve of a fling, which are
computed in them. -/
class TouchFloat (F : Type) where
  zero : F
  add : F → F → F
  sub : F → F → F
  mul : F → F → F
  div : F → F → F
  neg : F → F
  abs : F → F
  sqrt : F → F
  min : F → F → F
  max : F → F → F
  eq : F → F → Bool
  lt : F → F → Bool
  le : F → F → Bool
  longer : Point F → F → Bool
  /-- Whether it is at most that long. -/
  within : Point F → F → Bool
  velocity : List (ℕ × Point F) → Point F
  maxFlingVelocity : F

open TouchFloat

inductive TouchPhase where
  | started
  | moved
  | ended
  | cancelled
  deriving DecidableEq

inductive TouchAxis where
  | vertical
  | horizontal
  deriving DecidableEq

structure TouchEvent (F : Type) where
  id : ℕ
  phase : TouchPhase
  position : Point F
  predictedPosition : Option (Point F)

structure GestureTuning (F : Type) where
  touchSlop : F
  multiTapInterval : ℕ
  multiTapSlop : F
  longPressDuration : ℕ
  minFlingVelocity : F
  flingDuration : F → ℕ
  flingDistance : F → ℕ → F

inductive RecognizedTouchGesture (F : Type) where
  | scroll (position delta : Point F) (phase : TouchPhase)
  | tap (position : Point F) (clickCount : ℕ)
  | touchDrag (phase : TouchPhase) (startPosition position : Point F)
  | longPress (phase : TouchPhase) (startPosition position : Point F)

def velocityMaxSamples : ℕ := 20

def velocityAssumeStoppedGap : ℕ := 40000000

abbrev VelocityTracker (F : Type) := List (ℕ × Point F)

namespace VelocityTracker

variable {F : Type}

def push (samples : VelocityTracker F) (time : ℕ) (position : Point F) : VelocityTracker F :=
  let samples := samples ++ [(time, position)]
  samples.drop (samples.length - velocityMaxSamples)

def latestSampleTime (samples : VelocityTracker F) : Option ℕ := samples.getLast?.map Prod.fst

end VelocityTracker

structure ActiveTouch (F : Type) where
  id : ℕ
  startPosition : Point F
  lastPosition : Point F
  emittedPosition : Point F
  lastMovement : Point F
  velocityTracker : VelocityTracker F

inductive TouchGestureState (F : Type) where
  | idle
  | pending (touch : ActiveTouch F) (deadline : ℕ) (longPressOffered touchDragOffered : Bool)
  | panning (touch : ActiveTouch F) (axis : TouchAxis)
  | caught (touch : ActiveTouch F)
  | longPressing (touch : ActiveTouch F)
  | touchDragging (touch : ActiveTouch F)

structure CompletedTap (F : Type) where
  position : Point F
  time : ℕ
  count : ℕ

structure Momentum (F : Type) where
  position : Point F
  direction : Point F
  speed : F
  startedAt : ℕ
  duration : ℕ
  emittedDistance : F

structure TouchGestureRecognizer (F : Type) where
  tuning : GestureTuning F
  state : TouchGestureState F := .idle
  momentum : Option (Momentum F) := none
  lastTap : Option (CompletedTap F) := none

section

variable {F : Type} [TouchFloat F]

def originPoint : Point F := ⟨zero, zero⟩

def subPoint (p q : Point F) : Point F := ⟨sub p.x q.x, sub p.y q.y⟩

def eqPoint (p q : Point F) : Bool := eq p.x q.x && eq p.y q.y

def dominantAxis (delta : Point F) : TouchAxis :=
  if le (abs delta.x) (abs delta.y) then .vertical else .horizontal

def lockDeltaToAxis (delta : Point F) : TouchAxis → Point F
  | .vertical => ⟨zero, delta.y⟩
  | .horizontal => ⟨delta.x, zero⟩

def movementsOppose (left right : Point F) : Bool :=
  lt (add (mul left.x right.x) (mul left.y right.y)) zero

end

namespace TouchGestureRecognizer

variable {F : Type} [TouchFloat F]

def catchFling (r : TouchGestureRecognizer F) : List (RecognizedTouchGesture F) :=
  match r.momentum with
  | some momentum => [.scroll momentum.position originPoint .ended]
  | none => []

def touchStarted (r : TouchGestureRecognizer F) (event : TouchEvent F) (now : ℕ) :
    TouchGestureRecognizer F × List (RecognizedTouchGesture F) :=
  let recognized := r.catchFling
  let stopped := { r with momentum := none }
  match r.state with
  | .idle =>
    let touch : ActiveTouch F :=
      { id := event.id, startPosition := event.position, lastPosition := event.position
        emittedPosition := event.position, lastMovement := originPoint
        velocityTracker := VelocityTracker.push [] now event.position }
    if r.momentum.isSome then
      -- a touch that catches a fling is a drag from the first pixel
      ({ stopped with state := .caught touch },
        recognized ++ [.scroll touch.startPosition originPoint .started])
    else
      ({ stopped with state := .pending touch (now + r.tuning.longPressDuration) false false },
        recognized)
  | _ => (stopped, recognized)

def startPan (touch : ActiveTouch F) (event : TouchEvent F) (accumulated : Point F) :
    TouchGestureState F × List (RecognizedTouchGesture F) :=
  let target := event.predictedPosition.getD event.position
  let axis := dominantAxis accumulated
  let delta := lockDeltaToAxis (subPoint target touch.startPosition) axis
  let lastMovement := lockDeltaToAxis accumulated axis
  let oppose := movementsOppose delta lastMovement
  let target := if oppose then event.position else target
  let delta := if oppose then lockDeltaToAxis accumulated axis else delta
  (.panning { touch with lastMovement, emittedPosition := target } axis,
    [.scroll touch.startPosition delta .started])

def movePan (touch : ActiveTouch F) (axis : TouchAxis) (event : TouchEvent F) (now : ℕ) :
    TouchGestureState F × List (RecognizedTouchGesture F) :=
  let rawDelta := lockDeltaToAxis (subPoint event.position touch.lastPosition) axis
  let lastMovement := if eqPoint rawDelta originPoint then touch.lastMovement else rawDelta
  let target := event.predictedPosition.getD event.position
  let delta := lockDeltaToAxis (subPoint target touch.emittedPosition) axis
  let rawTarget := lockDeltaToAxis (subPoint event.position touch.emittedPosition) axis
  -- a prediction that leads back is not followed
  let (target, delta) :=
    if movementsOppose delta lastMovement then
      if movementsOppose rawTarget lastMovement then (touch.emittedPosition, originPoint)
      else (event.position, rawTarget)
    else (target, delta)
  (.panning
    { touch with
      lastMovement, lastPosition := event.position, emittedPosition := target
      velocityTracker := touch.velocityTracker.push now event.position } axis,
    [.scroll touch.startPosition delta .moved])

def touchMoved (r : TouchGestureRecognizer F) (event : TouchEvent F) (now : ℕ) :
    TouchGestureState F × List (RecognizedTouchGesture F) :=
  match r.state with
  | .idle => (r.state, [])
  | .pending touch deadline longPressOffered touchDragOffered =>
    if touch.id = event.id then
      let touch :=
        { touch with
          velocityTracker := touch.velocityTracker.push now event.position
          lastPosition := event.position }
      let accumulated := subPoint event.position touch.startPosition
      if longer accumulated r.tuning.touchSlop then startPan touch event accumulated
      else (.pending touch deadline longPressOffered touchDragOffered, [])
    else (r.state, [])
  | .caught touch =>
    if touch.id = event.id then
      let accumulated := subPoint event.position touch.startPosition
      if eqPoint accumulated originPoint then (.caught touch, [])
      -- the first movement picks the axis, and is an ordinary step of the pan
      else movePan touch (dominantAxis accumulated) event now
    else (r.state, [])
  | .panning touch axis =>
    if touch.id = event.id then movePan touch axis event now else (r.state, [])
  | .longPressing touch =>
    if touch.id = event.id then
      (.longPressing { touch with lastPosition := event.position },
        [.longPress .moved touch.startPosition event.position])
    else (r.state, [])
  | .touchDragging touch =>
    if touch.id = event.id then
      (.touchDragging { touch with lastPosition := event.position },
        [.touchDrag .moved touch.startPosition event.position])
    else (r.state, [])

def tapCount (r : TouchGestureRecognizer F) (position : Point F) (now : ℕ) : ℕ :=
  match r.lastTap with
  | some tap =>
    if now - tap.time ≤ r.tuning.multiTapInterval ∧
      within (subPoint position tap.position) r.tuning.multiTapSlop then tap.count + 1 else 1
  | none => 1

def releasePan (r : TouchGestureRecognizer F) (touch : ActiveTouch F) (axis : TouchAxis)
    (event : TouchEvent F) (now : ℕ) : Option (Momentum F) × Point F :=
  let fingerStopped := touch.velocityTracker.latestSampleTime.all (fun latest =>
    now - latest > velocityAssumeStoppedGap)
  let velocity := if fingerStopped then originPoint else TouchFloat.velocity touch.velocityTracker
  let velocity := lockDeltaToAxis velocity axis
  let speed := sqrt (add (mul velocity.x velocity.x) (mul velocity.y velocity.y))
  let releaseDelta := lockDeltaToAxis (subPoint event.position touch.emittedPosition) axis
  if le r.tuning.minFlingVelocity speed then
    let direction : Point F := ⟨div velocity.x speed, div velocity.y speed⟩
    let speed := TouchFloat.min speed maxFlingVelocity
    let duration := r.tuning.flingDuration speed
    if duration = 0 then (none, releaseDelta)
    else
      let totalDistance := r.tuning.flingDistance speed duration
      let overshoot :=
        neg (add (mul releaseDelta.x direction.x) (mul releaseDelta.y direction.y))
      -- what prediction ran ahead is folded into the fling
      let ahead := lt zero overshoot && lt overshoot totalDistance
      let releaseDelta : Point F :=
        if ahead then
          ⟨add releaseDelta.x (mul direction.x overshoot),
            add releaseDelta.y (mul direction.y overshoot)⟩
        else releaseDelta
      (some
        { position := touch.startPosition, direction, speed, startedAt := now, duration
          emittedDistance := if ahead then overshoot else zero }, releaseDelta)
  else (none, releaseDelta)

def touchEnded (r : TouchGestureRecognizer F) (event : TouchEvent F) (now : ℕ) :
    TouchGestureRecognizer F × List (RecognizedTouchGesture F) :=
  match r.state with
  | .idle => (r, [])
  | .pending touch _ _ _ =>
    if touch.id = event.id then
      let count := r.tapCount event.position now
      ({ r with state := .idle, lastTap := some { position := event.position, time := now, count } },
        [.tap event.position count])
    else (r, [])
  | .caught touch =>
    if touch.id = event.id then
      ({ r with state := .idle }, [.scroll touch.startPosition originPoint .ended])
    else (r, [])
  | .panning touch axis =>
    if touch.id = event.id then
      let (momentum, releaseDelta) := r.releasePan touch axis event now
      ({ r with state := .idle, momentum := if momentum.isSome then momentum else r.momentum },
        [.scroll touch.startPosition releaseDelta .ended])
    else (r, [])
  | .longPressing touch =>
    if touch.id = event.id then
      ({ r with state := .idle }, [.longPress .ended touch.startPosition event.position])
    else (r, [])
  | .touchDragging touch =>
    if touch.id = event.id then
      ({ r with state := .idle }, [.touchDrag .ended touch.startPosition event.position])
    else (r, [])

def touchCancelled (r : TouchGestureRecognizer F) (event : TouchEvent F) :
    TouchGestureRecognizer F × List (RecognizedTouchGesture F) :=
  match r.state with
  | .idle => (r, [])
  | .pending touch _ _ _ => if touch.id = event.id then ({ r with state := .idle }, []) else (r, [])
  | .panning touch _ | .caught touch =>
    if touch.id = event.id then
      ({ r with state := .idle }, [.scroll touch.startPosition originPoint .cancelled])
    else (r, [])
  | .longPressing touch =>
    if touch.id = event.id then
      ({ r with state := .idle }, [.longPress .cancelled touch.startPosition event.position])
    else (r, [])
  | .touchDragging touch =>
    if touch.id = event.id then
      ({ r with state := .idle }, [.touchDrag .cancelled touch.startPosition event.position])
    else (r, [])

def handleEventAt (r : TouchGestureRecognizer F) (event : TouchEvent F) (now : ℕ) :
    TouchGestureRecognizer F × List (RecognizedTouchGesture F) :=
  match event.phase with
  | .started => r.touchStarted event now
  | .moved =>
    let (state, recognized) := r.touchMoved event now
    ({ r with state }, recognized)
  | .ended => r.touchEnded event now
  | .cancelled => r.touchCancelled event

def offerLongPress (r : TouchGestureRecognizer F) (id : ℕ) :
    TouchGestureRecognizer F × Option (RecognizedTouchGesture F) :=
  match r.state with
  | .pending touch deadline longPressOffered touchDragOffered =>
    if touch.id ≠ id ∨ longPressOffered then (r, none)
    else
      ({ r with state := .pending touch deadline true touchDragOffered },
        some (.longPress .started touch.startPosition touch.lastPosition))
  | _ => (r, none)

def resolveLongPress (r : TouchGestureRecognizer F) (claimed : Bool) : TouchGestureRecognizer F :=
  if claimed then
    match r.state with
    | .pending touch _ true _ => { r with state := .longPressing touch }
    | _ => r
  else r

def offerTouchDrag (r : TouchGestureRecognizer F) (id : ℕ) :
    TouchGestureRecognizer F × Option (RecognizedTouchGesture F) :=
  match r.state with
  | .pending touch deadline longPressOffered touchDragOffered =>
    if touch.id ≠ id ∨ touchDragOffered then (r, none)
    else
      ({ r with state := .pending touch deadline longPressOffered true },
        some (.touchDrag .started touch.startPosition touch.lastPosition))
  | _ => (r, none)

def resolveTouchDrag (r : TouchGestureRecognizer F) (claimed : Bool) : TouchGestureRecognizer F :=
  if claimed then
    match r.state with
    | .pending touch _ _ true => { r with state := .touchDragging touch }
    | _ => r
  else r

def tickMomentumAt (r : TouchGestureRecognizer F) (now : ℕ) :
    TouchGestureRecognizer F × Option (RecognizedTouchGesture F) :=
  match r.momentum with
  | none => (r, none)
  | some momentum =>
    let elapsed := now - momentum.startedAt
    let distance := r.tuning.flingDistance momentum.speed elapsed
    let step := TouchFloat.max (sub distance momentum.emittedDistance) zero
    let emittedDistance := TouchFloat.max momentum.emittedDistance distance
    let delta : Point F := ⟨mul momentum.direction.x step, mul momentum.direction.y step⟩
    if elapsed ≥ momentum.duration then
      ({ r with momentum := none }, some (.scroll momentum.position delta .ended))
    else
      ({ r with momentum := some { momentum with emittedDistance } },
        some (.scroll momentum.position delta .moved))

end TouchGestureRecognizer

inductive TouchOp (F : Type) where
  | event (event : TouchEvent F) (now : ℕ)
  | offerLongPress (id : ℕ)
  | resolveLongPress (claimed : Bool)
  | offerTouchDrag (id : ℕ)
  | resolveTouchDrag (claimed : Bool)
  | tickMomentum (now : ℕ)

namespace TouchGestureRecognizer

variable {F : Type} [TouchFloat F]

def step (r : TouchGestureRecognizer F) :
    TouchOp F → TouchGestureRecognizer F × List (RecognizedTouchGesture F)
  | .event event now => r.handleEventAt event now
  | .offerLongPress id => ((r.offerLongPress id).1, (r.offerLongPress id).2.toList)
  | .resolveLongPress claimed => (r.resolveLongPress claimed, [])
  | .offerTouchDrag id => ((r.offerTouchDrag id).1, (r.offerTouchDrag id).2.toList)
  | .resolveTouchDrag claimed => (r.resolveTouchDrag claimed, [])
  | .tickMomentum now => ((r.tickMomentumAt now).1, (r.tickMomentumAt now).2.toList)

end TouchGestureRecognizer

end GpuiFast
