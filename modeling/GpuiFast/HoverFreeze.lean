import Mathlib

/-! For a while after a wheel event the frames that are drawn tell hover listeners nothing. A listener
that last heard it is hovered is tracked with the hitbox it was painted with, and a frame drawn
without the freeze tells those the pointer is off. Painting and that release tell by calls deferred
until after the frame; pointer events tell at once. Positions are any type. -/

namespace GpuiFast

inductive HoverListenerMode where
  | inputModalityAware | inputModalityIndependent
  deriving DecidableEq

def HOVER_FREEZE : ℕ := 100

/-- A hover listener by its element's state, which holds whether it was told it is hovered and
whether the element was pressed, with the hitbox it was painted with. -/
structure HoveredListener where
  state : ℕ
  hitbox : ℕ
  mode : HoverListenerMode
  deriving DecidableEq

structure DeferredHover where
  listener : HoveredListener
  isHovered : Bool

/-- What a frame in place holds for hover: the listeners that hear pointer events, its hitboxes, and
those hovered with the pointer at a position. -/
structure HoverFrame (X : Type*) where
  listeners : List HoveredListener
  hitboxes : List ℕ
  hitTest : X → List ℕ

structure HoverWindow (X : Type*) where
  wasHovered : ℕ → Bool
  hasMouseDown : ℕ → Bool
  hovered : List HoveredListener
  deferred : List DeferredHover
  heard : ℕ → List Bool
  renderedFrame : HoverFrame X
  mouseHitTest : List ℕ
  mousePosition : X
  capturedHitbox : Option ℕ
  lastInputWasKeyboard : Bool
  hasActiveDrag : Bool
  enabled : Bool
  lastWheel : Option (ℕ × X)
  now : ℕ
  /-- Whether the last frame was drawn without the freeze. -/
  unfrozen : Bool
  /-- The listeners found hovered in the last frame, and those of its elements under a press. -/
  foundHovered : List ℕ
  foundPressed : List ℕ

/-- A frame to draw: what is painted of it and when, what is kept of the last frame, reused or
composited, and what can be hit in it. -/
structure HoverDraw (X : Type*) where
  painted : List (HoveredListener × ℕ)
  carried : List HoveredListener
  hitboxes : List ℕ
  hitTest : X → List ℕ
  endedAt : ℕ

namespace HoverWindow

variable {X : Type*} [DecidableEq X]

def frozen (w : HoverWindow X) : Bool :=
  w.lastWheel.any (fun wheel => decide (w.now - wheel.1 < HOVER_FREEZE) &&
    decide (wheel.2 = w.mousePosition))

def hidesHover (drawing : Bool) (w : HoverWindow X) : Bool :=
  w.lastInputWasKeyboard || (drawing && w.frozen)

def isHovered (drawing : Bool) (w : HoverWindow X) (listener : HoveredListener) : Bool :=
  decide (w.capturedHitbox = some listener.hitbox) ||
    match listener.mode with
    | .inputModalityAware => !w.hidesHover drawing && w.mouseHitTest.contains listener.hitbox
    | .inputModalityIndependent => w.mouseHitTest.contains listener.hitbox

def noteHovered (hovered : List HoveredListener) (listener : HoveredListener) :
    List HoveredListener :=
  if hovered.any (·.state = listener.state) then
    hovered.map (fun held => if held.state = listener.state then listener else held)
  else hovered ++ [listener]

def update (w : HoverWindow X) (listener : HoveredListener) (isHovered : Bool) : HoverWindow X :=
  if isHovered = w.wasHovered listener.state then w
  else
    { w with
      wasHovered := Function.update w.wasHovered listener.state isHovered
      hovered := if isHovered then noteHovered w.hovered listener
        else w.hovered.filter (·.state ≠ listener.state)
      heard := Function.update w.heard listener.state (isHovered :: w.heard listener.state) }

def paint (w : HoverWindow X) (listener : HoveredListener) : HoverWindow X :=
  let w := if w.wasHovered listener.state then
      { w with hovered := noteHovered w.hovered listener }
    else w
  if w.hasMouseDown listener.state || w.frozen then w
  else
    let hovered := !w.hasActiveDrag && w.isHovered true listener
    { w with
      deferred := if hovered ≠ w.wasHovered listener.state then
          w.deferred ++ [⟨listener, hovered⟩]
        else w.deferred
      foundHovered := if hovered then listener.state :: w.foundHovered else w.foundHovered }

def underPress (w : HoverWindow X) (listener : HoveredListener) : Bool :=
  w.hasMouseDown listener.state && w.renderedFrame.hitboxes.contains listener.hitbox

def stillHovered (w : HoverWindow X) (listener : HoveredListener) : Bool :=
  w.underPress listener || (!w.hasActiveDrag && w.isHovered false listener)

def releaseUnhovered (w : HoverWindow X) : HoverWindow X :=
  if w.frozen then w
  else
    { w with deferred := w.deferred ++
        (w.hovered.filter (fun held => !w.stillHovered held)).map (⟨·, false⟩) }

/-- Notes of a frame what it has of the listeners tracked when it ends. -/
def ended (w : HoverWindow X) : HoverWindow X :=
  { w with
    unfrozen := !w.frozen
    foundPressed := (w.hovered.filter w.underPress).map (·.state)
    foundHovered := w.foundHovered ++
      (w.hovered.filter (fun held => !w.hasActiveDrag && w.isHovered false held)).map (·.state) }

def draw (w : HoverWindow X) (d : HoverDraw X) : HoverWindow X :=
  let next : HoverFrame X :=
    { listeners := d.painted.map (·.1) ++ d.carried.filter (· ∈ w.renderedFrame.listeners)
      hitboxes := d.hitboxes
      hitTest := fun position => (d.hitTest position).filter (· ∈ d.hitboxes) }
  let begun :=
    { w with mouseHitTest := next.hitTest w.mousePosition, foundHovered := [], foundPressed := [] }
  let painted := d.painted.foldl
    (fun w painted => paint { w with now := painted.2 } painted.1) begun
  releaseUnhovered (ended { painted with renderedFrame := next, now := d.endedAt })

inductive HoverEvent (X : Type*) where
  | draw (frame : HoverDraw X)
  | runDeferred
  | point (position : X) (keyboard : Bool) (time : ℕ)
  | wheel
  | hitTest
  | moved (listener : HoveredListener)
  | exited (listener : HoveredListener)
  | press (state : ℕ) (down : Bool)
  | capture (hitbox : Option ℕ)
  | drag (active : Bool)

def step (w : HoverWindow X) : HoverEvent X → HoverWindow X
  | .draw frame => w.draw frame
  | .runDeferred =>
    match w.deferred with
    | [] => w
    | call :: deferred =>
      update { w with deferred := deferred } call.listener call.isHovered
  | .point position keyboard time =>
    { w with mousePosition := position, lastInputWasKeyboard := keyboard, now := time }
  | .wheel => if w.enabled then { w with lastWheel := some (w.now, w.mousePosition) } else w
  | .hitTest => { w with mouseHitTest := w.renderedFrame.hitTest w.mousePosition }
  | .moved listener =>
    if listener ∈ w.renderedFrame.listeners then
      let found := !w.hasActiveDrag && w.isHovered false listener
      let hovered := !w.hasMouseDown listener.state && found
      update
        { w with foundHovered := if found then listener.state :: w.foundHovered
          else w.foundHovered } listener hovered
    else w
  | .exited listener =>
    if listener ∈ w.renderedFrame.listeners then update w listener false else w
  | .press state down => { w with hasMouseDown := Function.update w.hasMouseDown state down }
  | .capture hitbox => { w with capturedHitbox := hitbox }
  | .drag active => { w with hasActiveDrag := active }

def start (position : X) (enabled : Bool) : HoverWindow X where
  wasHovered := fun _ => false
  hasMouseDown := fun _ => false
  hovered := []
  deferred := []
  heard := fun _ => []
  renderedFrame := ⟨[], [], fun _ => []⟩
  mouseHitTest := []
  mousePosition := position
  capturedHitbox := none
  lastInputWasKeyboard := false
  hasActiveDrag := false
  enabled := enabled
  lastWheel := none
  now := 0
  unfrozen := false
  foundHovered := []
  foundPressed := []

def run (w : HoverWindow X) (events : List (HoverEvent X)) : HoverWindow X := events.foldl step w

def Settled (w : HoverWindow X) : List (HoverEvent X) → Prop
  | [] => True
  | event :: events =>
    (∀ frame, event = .draw frame → ∀ call ∈ w.deferred, call.isHovered = false) ∧
      Settled (w.step event) events

end HoverWindow

end GpuiFast
