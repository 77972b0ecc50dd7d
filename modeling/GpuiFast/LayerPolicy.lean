import GpuiFast.Geometry
import GpuiFast.LayerFollow

/-! A container that scrolls on two frames in a row is painted into a layer, which is composited on
frames that only scrolled it and painted again on others. A layer that changes too often, costs too
much or does not fit is demoted: its container does without one for a while that doubles with each
demotion. Of what a look at a container asks of the window only the answers are taken. -/

namespace GpuiFast

namespace ScrollLayer

def PROMOTE_AFTER_SCROLLED_FRAMES : ℕ := 2

def DEMOTE_AFTER_CHANGED_FRAMES : ℕ := 8

/-- How many frames a demoted container must be stable for before it may get a layer again. -/
def REPROMOTE_AFTER_STABLE_FRAMES : ℕ := 60

def MAX_COOLDOWN_DOUBLINGS : ℕ := 5
def RETRY_AFTER_INELIGIBLE_FRAMES : ℕ := 8

/-- A layer not composited for this many frames is dropped. -/
def DROP_AFTER_FRAMES : ℕ := 120

def TILE_BUDGET_BYTES : ℕ := 67108864
def TILE_SIZE : ℕ := 512

def WINDOW : ℕ := 32
def RECENT : ℕ := 6
def REFRESH_SPIKE_FRAMES : ℕ := 120

/-- An estimate of whether rebuilding a layer still saves work, in units of drawing what shows. -/
structure WorkBudget (K : Type*) where
  samples : List K
  total : K
  next : ℕ
  len : ℕ
  frame : Option ℕ
  /-- The frames of the last two refreshes that rebuilt too much, the latest first. -/
  expensiveRefreshes : Option ℕ × Option ℕ

namespace WorkBudget

variable {K : Type*} [Field K] [LinearOrder K]

def FRAME_OVERHEAD : K := 1 / 4
def MAX_REFRESH_WORK : K := 4

def new : WorkBudget K := ⟨List.replicate WINDOW 0, 0, 0, 0, none, none, none⟩

def noteRefresh (budget : WorkBudget K) (frame : ℕ) (work : K) : WorkBudget K :=
  if MAX_REFRESH_WORK < work ∧ budget.expensiveRefreshes.1 ≠ some frame then
    { budget with expensiveRefreshes := (some frame, budget.expensiveRefreshes.1) }
  else budget

def note (budget : WorkBudget K) (frame : ℕ) (work : K) : WorkBudget K :=
  let work := max 0 (min work (WINDOW * 2))
  match budget.frame with
  | none => { budget with frame := some frame }
  | some previous =>
    if previous = frame then
      if 0 < budget.len then
        { budget with
          samples := budget.samples.modify ((budget.next + WINDOW - 1) % WINDOW) (· + work)
          total := budget.total + work }
      else budget
    else
      { budget with
        samples := budget.samples.set budget.next (work + FRAME_OVERHEAD)
        total := budget.total - budget.samples.getD budget.next 0 + (work + FRAME_OVERHEAD)
        next := (budget.next + 1) % WINDOW
        len := min (budget.len + 1) WINDOW
        frame := some frame }

/-- Whether the last frames cost more than drawing directly would have, half of them or more each
costing more. -/
def recentOver (budget : WorkBudget K) : Bool :=
  let recent := (List.range RECENT).map (fun back =>
    budget.samples.getD ((budget.next + WINDOW - (back + 1)) % WINDOW) 0)
  decide (RECENT ≤ budget.len) && decide (RECENT ≤ (recent.filter (1 < ·)).length * 2) &&
    decide ((RECENT : K) < recent.sum)

def overBudget (budget : WorkBudget K) : Bool :=
  let spikes := match budget.expensiveRefreshes with
    | (some latest, some earlier) => decide (latest - earlier ≤ REFRESH_SPIKE_FRAMES)
    | _ => false
  spikes || (decide (budget.len = WINDOW) && decide ((WINDOW : K) ≤ budget.total)) ||
    budget.recentOver

end WorkBudget

/-- Where a container is and what it inherits; `ρ` is what of it no decision looks at. -/
structure LayerContext (K ρ : Type*) where
  bounds : Bounds K
  contentSize : Size K
  contentMask : Bounds K
  scaleFactor : K
  inherited : ρ
  deriving DecidableEq

structure LayerRecord (K : Type*) where
  paintedRegion : Bounds K
  viewport : Bounds K
  scrollOffset : Point K
  hasPaths : Bool
  defersDraws : Bool
  handlesInput : Bool

structure LayerRows where
  list : Bool
  repaintsShownRows : Bool
  itemsChanged : Bool
  rerendered : Bool

structure LayerPolicy (K ρ : Type*) where
  scrolledStreak : ℕ
  /-- Whether the content changed, one bit a frame, the last frame looked at in the lowest. -/
  changeHistory : BitVec 16
  stableSince : ℕ
  demotedUntil : Option ℕ
  retryAt : Option ℕ
  lastScrolledFrame : Option ℕ
  lastSeenFrame : ℕ
  lastOffset : Option (Point K)
  paintedIn : Option (LayerContext K ρ)
  lastDecision : Option Decision
  contentAnchored : Bool
  work : WorkBudget K
  cooldownDoublings : ℕ
  cooldownFrames : ℕ
  lastContentChange : ℕ

structure Layer (K ρ : Type*) where
  record : Option (LayerRecord K)
  policy : LayerPolicy K ρ
  rows : LayerRows
  lastCompositedFrame : ℕ

/-- A look at a container while it prepaints, with what the window answers about it. -/
structure Look (K ρ : Type*) where
  context : LayerContext K ρ
  scrollOffset : Point K
  /-- Whether it was noted to scroll since the last frame. -/
  noted : Bool
  isList : Bool
  changedWithoutLayer : Bool
  ownerAnimating : Bool
  animationFrameRequested : Bool
  scrollOnly : Bool
  ownerRerenderedOnly : Bool

def LayerRows.none : LayerRows := ⟨false, false, false, false⟩

section

variable {K ρ : Type*} [Field K] [LinearOrder K]

def Layer.new (frame : ℕ) : Layer K ρ where
  record := none
  policy :=
    { scrolledStreak := 0, changeHistory := 0, stableSince := 0, demotedUntil := none
      retryAt := none, lastScrolledFrame := none, lastSeenFrame := frame, lastOffset := none
      paintedIn := none, lastDecision := none, contentAnchored := false, work := .new
      cooldownDoublings := 0, cooldownFrames := 0, lastContentChange := 0 }
  rows := .none
  lastCompositedFrame := frame

/-- Whether a scroll moved the content by at least the viewport's extent on an axis. -/
def leaps (source target : Point K) (size : Size K) : Bool :=
  (decide (0 < size.width) && decide (size.width ≤ |target.x - source.x|)) ||
    (decide (0 < size.height) && decide (size.height ≤ |target.y - source.y|))

def LayerRecord.paintedAt (record : LayerRecord K) (scrollOffset : Point K) : Bounds K :=
  record.paintedRegion.translate
    ⟨scrollOffset.x - record.scrollOffset.x, scrollOffset.y - record.scrollOffset.y⟩

def LayerRecord.showsAny (record : LayerRecord K) (scrollOffset : Point K) : Bool :=
  (record.paintedAt scrollOffset).intersects record.viewport

def margin (painted viewport : K) : K := if viewport < painted then viewport / 4 else 0

/-- Whether what a record painted still covers the viewport with a margin, as far as the content
reaches that is taken to begin at the container's origin. -/
def LayerRecord.covers (record : LayerRecord K) (bounds : Bounds K) (contentSize : Size K)
    (scrollOffset : Point K) : Bool :=
  let painted := record.paintedAt scrollOffset
  let viewport := record.viewport
  let marginX := margin record.paintedRegion.size.width viewport.size.width
  let marginY := margin record.paintedRegion.size.height viewport.size.height
  let content : Bounds K :=
    ⟨⟨bounds.origin.x + scrollOffset.x, bounds.origin.y + scrollOffset.y⟩, contentSize⟩
  let wanted := (Bounds.fromCorners
    ⟨viewport.origin.x - marginX, viewport.origin.y - marginY⟩
    ⟨viewport.bottomRight.x + marginX, viewport.bottomRight.y + marginY⟩).intersect content
  if wanted.size.width ≤ 0 ∨ wanted.size.height ≤ 0 then true
  else decide (painted.origin.x ≤ wanted.origin.x) && decide (painted.origin.y ≤ wanted.origin.y) &&
    decide (wanted.bottomRight.x ≤ painted.bottomRight.x) &&
    decide (wanted.bottomRight.y ≤ painted.bottomRight.y)

/-- Whether content can ever be composited: it keeps no paths apart, and the tiles over its viewport
fit the budget. -/
def LayerRecord.fits [FloorRing K] (record : LayerRecord K) (scaleFactor : K) : Bool :=
  let tiles := fun (extent : K) => ⌈extent * scaleFactor / TILE_SIZE⌉.toNat + 1
  !record.hasPaths && decide (tiles record.viewport.size.width * tiles record.viewport.size.height *
    (TILE_SIZE * TILE_SIZE * 4) ≤ TILE_BUDGET_BYTES)

def Layer.eligible (layer : Layer K ρ) (record : LayerRecord K) (look : Look K ρ) : Bool :=
  !record.defersDraws && !record.handlesInput && !layer.policy.contentAnchored &&
    !look.animationFrameRequested

namespace Layer

def noteUnchangedRepaint (layer : Layer K ρ) (frame : ℕ) : Layer K ρ :=
  if layer.policy.lastSeenFrame = frame then
    { layer with
      policy := { layer.policy with changeHistory := layer.policy.changeHistory &&& ~~~1 } }
  else layer

def noteWork (layer : Layer K ρ) (frame : ℕ) (work : K) : Layer K ρ :=
  let noted := layer.policy.work.note frame work
  let refresh := layer.policy.lastSeenFrame = frame ∧
    layer.policy.lastDecision = some .repaint ∧ layer.policy.lastContentChange = frame
  { layer with
    policy := { layer.policy with
      work := if refresh then noted.noteRefresh frame work else noted } }

/-- A container whose background cannot be baked into its tiles does without its layer. -/
def deferUnbaked (layer : Layer K ρ) (frame : ℕ) : Layer K ρ :=
  { layer with
    record := none
    policy := { layer.policy with
      paintedIn := none
      retryAt := some (frame + REPROMOTE_AFTER_STABLE_FRAMES) } }

def finishFrame (layer : Layer K ρ) (frame : ℕ) (anchored : Bool) : Layer K ρ :=
  if layer.record.isSome ∧ layer.policy.lastSeenFrame = frame then
    { layer with
      policy := { layer.policy with
        contentAnchored := match layer.policy.lastDecision with
          | some .repaint => anchored
          | some .composite => layer.policy.contentAnchored || anchored
          | _ => layer.policy.contentAnchored } }
  else layer

def keep (layer : Layer K ρ) (frame : ℕ) : Bool :=
  decide (frame < layer.lastCompositedFrame + DROP_AFTER_FRAMES) ||
    (decide (0 < layer.policy.cooldownDoublings) &&
      decide (frame < layer.policy.lastSeenFrame + DROP_AFTER_FRAMES)) ||
    layer.policy.demotedUntil.any (fun n => decide (frame < n + DROP_AFTER_FRAMES))

end Layer

/-- What is found out about a container before anything is changed. -/
structure Finding where
  decision : Decision
  changed : Bool
  rerendered : Bool
  demote : Bool
  ineligible : Bool
  ownerAnimating : Bool

def Finding.bypass (demote : Bool) : Finding := ⟨.bypass, false, false, demote, false, false⟩

namespace Layer

variable [FloorRing K] [DecidableEq ρ]

def scrolled (layer : Layer K ρ) (look : Look K ρ) : Bool :=
  look.noted && (look.isList || decide (layer.policy.lastOffset ≠ some look.scrollOffset))

def jumped (layer : Layer K ρ) (look : Look K ρ) : Bool :=
  layer.record.any (fun record => !record.showsAny look.scrollOffset)

def streak (layer : Layer K ρ) (frame : ℕ) (look : Look K ρ) : ℕ :=
  let leapt := layer.policy.lastOffset.any
    (fun last => leaps last look.scrollOffset look.context.bounds.size)
  if !layer.scrolled look || leapt then 0
  else if layer.policy.lastScrolledFrame.any (· + 1 = frame) then
    min (layer.policy.scrolledStreak + 1) 255
  else 1

def demotedBefore (layer : Layer K ρ) : Option ℕ :=
  if layer.rows.list then none else layer.policy.demotedUntil

def changedWhileDemoted (layer : Layer K ρ) (look : Look K ρ) : Bool :=
  layer.demotedBefore.isSome && look.changedWithoutLayer

/-- Until when the container is demoted: a change meanwhile asks it to be stable for a while. -/
def demotedNow (layer : Layer K ρ) (frame : ℕ) (look : Look K ρ) : Option ℕ :=
  let until' := if layer.changedWhileDemoted look then
      layer.demotedBefore.map (max · (frame + REPROMOTE_AFTER_STABLE_FRAMES))
    else layer.demotedBefore
  until'.filter (fun n => decide (frame < n))

def find (layer : Layer K ρ) (frame : ℕ) (look : Look K ρ) : Finding :=
  let replayed := layer.rows.list
  let costly := layer.record.isSome && !replayed && layer.policy.work.overBudget
  if (layer.demotedNow frame look).isSome || layer.jumped look then .bypass costly
  else if look.ownerAnimating then { Finding.bypass costly with ownerAnimating := true }
  else
    match layer.record with
    | some record =>
      if !replayed && !record.fits look.context.scaleFactor then .bypass true
      else if !layer.eligible record look then { Finding.bypass costly with ineligible := true }
      else if decide (layer.policy.paintedIn = some look.context) && look.scrollOnly then
        -- What a scroll exposes is no change of the content; a list's layer is extended by it.
        let covered := layer.rows.list ||
          record.covers look.context.bounds look.context.contentSize look.scrollOffset
        { Finding.bypass costly with decision := if covered then .composite else .repaint }
      else if decide (layer.policy.paintedIn = some look.context) && layer.rows.repaintsShownRows &&
          !layer.rows.itemsChanged && look.ownerRerenderedOnly then
        { Finding.bypass costly with decision := .composite, rerendered := true }
      else { Finding.bypass costly with decision := .repaint, changed := true }
    | none =>
      if PROMOTE_AFTER_SCROLLED_FRAMES ≤ layer.streak frame look &&
          layer.policy.retryAt.all (· ≤ frame) then
        { Finding.bypass costly with decision := .repaint }
      else .bypass costly

def countOnes (history : BitVec 16) : ℕ :=
  ((List.range 16).filter (fun k => history.getLsbD k)).length

def historyNow (layer : Layer K ρ) (frame : ℕ) (look : Look K ρ) : BitVec 16 :=
  let elapsed := min (frame - layer.policy.lastSeenFrame) 16
  let history := if elapsed < 16 then layer.policy.changeHistory <<< elapsed else 0
  if (layer.find frame look).changed then history ||| 1 else history

def demotes (layer : Layer K ρ) (frame : ℕ) (look : Look K ρ) : Bool :=
  let found := layer.find frame look
  found.demote || (found.changed && !layer.rows.list &&
    decide (DEMOTE_AFTER_CHANGED_FRAMES ≤ countOnes (layer.historyNow frame look)))

/-- The doublings are forgotten once the content has not changed for as long as they go. -/
def doublingsNow (layer : Layer K ρ) (frame : ℕ) : ℕ :=
  if REPROMOTE_AFTER_STABLE_FRAMES <<< MAX_COOLDOWN_DOUBLINGS ≤
      frame - layer.policy.lastContentChange then 0
  else layer.policy.cooldownDoublings

def decision (layer : Layer K ρ) (frame : ℕ) (look : Look K ρ) : Decision :=
  if layer.demotes frame look then .bypass else (layer.find frame look).decision

def seen (layer : Layer K ρ) (frame : ℕ) (look : Look K ρ) : Layer K ρ :=
  let found := layer.find frame look
  let decided := layer.decision frame look
  { layer with
    rows := { layer.rows with
      rerendered := found.rerendered && decide (decided = .composite) }
    policy := { layer.policy with
      scrolledStreak := layer.streak frame look
      lastScrolledFrame :=
        if layer.scrolled look then some frame else layer.policy.lastScrolledFrame
      lastSeenFrame := frame
      lastOffset := some look.scrollOffset
      lastDecision := some decided
      changeHistory := layer.historyNow frame look
      demotedUntil := layer.demotedNow frame look
      work := if decided = .repaint ∧ layer.record = none then .new else layer.policy.work
      cooldownDoublings := layer.doublingsNow frame
      lastContentChange := if found.changed || layer.changedWhileDemoted look then frame
        else layer.policy.lastContentChange } }

/-- A layer that gives up what it holds, to be kept off for a while. -/
def demoted (layer : Layer K ρ) (frame : ℕ) : Layer K ρ :=
  let cooldownFrames := REPROMOTE_AFTER_STABLE_FRAMES <<< layer.policy.cooldownDoublings
  { layer with
    record := none
    rows := .none
    policy := { layer.policy with
      work := .new
      paintedIn := none
      changeHistory := 0
      scrolledStreak := 0
      stableSince := frame
      cooldownFrames := cooldownFrames
      cooldownDoublings := min (layer.policy.cooldownDoublings + 1) MAX_COOLDOWN_DOUBLINGS
      demotedUntil := some (frame + cooldownFrames) } }

def decide (layer : Layer K ρ) (frame : ℕ) (look : Look K ρ) : Layer K ρ × Decision :=
  let found := layer.find frame look
  let decided := layer.decision frame look
  let seen := layer.seen frame look
  if layer.demotes frame look then (seen.demoted frame, decided)
  else
    let stableSince := if layer.changedWhileDemoted look then frame else seen.policy.stableSince
    if found.ineligible || found.ownerAnimating || layer.jumped look then
      ({ seen with
        record := none
        policy := { seen.policy with
          stableSince := stableSince
          paintedIn := none
          retryAt := if found.ineligible then some (frame + RETRY_AFTER_INELIGIBLE_FRAMES)
            else seen.policy.retryAt } }, decided)
    else
      ({ seen with
        lastCompositedFrame := if decided = .bypass then seen.lastCompositedFrame else frame
        policy := { seen.policy with
          stableSince := stableSince
          paintedIn := if decided = .repaint then some look.context
            else seen.policy.paintedIn } }, decided)

end Layer

end

end ScrollLayer

end GpuiFast
