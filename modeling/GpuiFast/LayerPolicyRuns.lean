import GpuiFast.LayerPolicy

namespace GpuiFast.ScrollLayer

/-- What was found of a container's content, by the frames it was found on. -/
structure PolicyLog where
  /-- The frames the content was found changed on, less those taken back. -/
  changed : List ℕ
  noticed : List ℕ
  demotions : List ℕ
  /-- The frames that demotions, and changes while they last, put the next layer off until. -/
  waits : List ℕ

namespace PolicyLog

def empty : PolicyLog := ⟨[], [], [], []⟩

/-- How long content must not change for its demotions to be forgotten. -/
def FORGET_AFTER_FRAMES : ℕ := REPROMOTE_AFTER_STABLE_FRAMES * 2 ^ MAX_COOLDOWN_DOUBLINGS

/-- Before a frame no change was noticed for long, of the changes from another frame on. -/
def Quiet (log : PolicyLog) (since frame : ℕ) : Prop :=
  ∀ c ∈ 0 :: log.noticed.filter (since ≤ ·), c < frame → c + FORGET_AFTER_FRAMES ≤ frame

instance (log : PolicyLog) (since frame : ℕ) : Decidable (log.Quiet since frame) :=
  inferInstanceAs (Decidable (∀ c ∈ 0 :: log.noticed.filter (since ≤ ·), _))

def standing (log : PolicyLog) (since frame : ℕ) : ℕ :=
  log.demotions.countP (fun f => since ≤ f ∧ ∀ g ≤ frame, f < g → ¬log.Quiet since g)

def wait (log : PolicyLog) (since frame : ℕ) : ℕ :=
  frame + REPROMOTE_AFTER_STABLE_FRAMES * 2 ^ min (log.standing since frame) MAX_COOLDOWN_DOUBLINGS

def takeBack (log : PolicyLog) (frame : ℕ) : PolicyLog :=
  { log with changed := log.changed.filter (· ≠ frame) }

end PolicyLog

section

variable {K ρ : Type*} [Field K] [LinearOrder K] [FloorRing K] [DecidableEq ρ]

/-- The log after a look at a layer made on the frame `since`. -/
def PolicyLog.look (log : PolicyLog) (since frame : ℕ) (layer : Layer K ρ) (look : Look K ρ) :
    PolicyLog where
  changed := if (layer.find frame look).changed then frame :: log.changed else log.changed
  noticed :=
    if (layer.find frame look).changed || layer.changedWhileDemoted look then frame :: log.noticed
    else log.noticed
  demotions := if layer.demotes frame look then frame :: log.demotions else log.demotions
  waits :=
    (if layer.demotes frame look then [log.wait since frame] else []) ++
      (if look.changedWithoutLayer && log.waits.any (frame < ·) then
        [frame + REPROMOTE_AFTER_STABLE_FRAMES] else []) ++ log.waits

inductive Painted (K : Type*) where
  | nothing
  | unbaked
  | record (record : LayerRecord K)

omit [FloorRing K] [DecidableEq ρ] in
/-- Paints the content as decided this frame, if it was looked at. What was to be composited may be
painted again for the input it is about to see. -/
def Layer.paint (layer : Layer K ρ) (frame : ℕ) (painted : Painted K) : Layer K ρ :=
  if layer.policy.lastSeenFrame = frame then
    match layer.policy.lastDecision, painted with
    | some .repaint, .record record => { layer with record := some record }
    | some .composite, .record record => { layer with record := some record }
    | some .repaint, .unbaked => layer.deferUnbaked frame
    | some .composite, .unbaked => layer.deferUnbaked frame
    | _, _ => layer
  else layer

structure PolicyFrame (K ρ : Type*) where
  /-- The look at it, unless it is not drawn, layers are off or it is inside another layer. -/
  look : Option (Look K ρ)
  works : List K
  painted : Painted K
  /-- Whether its layer was painted again and came out as it was. -/
  unchangedRepaint : Bool
  anchored : Bool

structure PolicyRun (K ρ : Type*) where
  frame : ℕ
  entry : Option (Layer K ρ)
  madeOn : ℕ
  log : PolicyLog

namespace PolicyRun

def start : PolicyRun K ρ := ⟨0, none, 0, .empty⟩

def entered (run : PolicyRun K ρ) (look : Look K ρ) : Option (Layer K ρ) :=
  match run.entry with
  | some layer => some layer
  | none => if look.noted then some (Layer.new run.frame) else none

def answer (run : PolicyRun K ρ) (look : Look K ρ) : Decision :=
  match run.entered look with
  | some layer => (layer.decide run.frame look).2
  | none => .bypass

def look (run : PolicyRun K ρ) (look : Look K ρ) : PolicyRun K ρ :=
  match run.entered look with
  | some layer =>
    let madeOn := if run.entry.isSome then run.madeOn else run.frame
    { run with
      entry := some (layer.decide run.frame look).1
      madeOn := madeOn
      log := run.log.look madeOn run.frame layer look }
  | none => run

/-- What a frame does to the entry once the container was looked at. -/
def settle (frame : ℕ) (drawn : PolicyFrame K ρ) (layer : Layer K ρ) : Layer K ρ :=
  let painted := (drawn.works.foldl (·.noteWork frame ·) layer).paint frame drawn.painted
  let noted := if drawn.unchangedRepaint then painted.noteUnchangedRepaint frame else painted
  noted.finishFrame frame drawn.anchored

def draw (run : PolicyRun K ρ) (drawn : PolicyFrame K ρ) : PolicyRun K ρ :=
  let seen := match drawn.look with
    | some look => run.look look
    | none => run
  { seen with
    frame := run.frame + 1
    entry := (seen.entry.map (settle run.frame drawn)).filter (·.keep run.frame)
    log := if drawn.unchangedRepaint then seen.log.takeBack run.frame else seen.log }

def drawAll (frames : List (PolicyFrame K ρ)) : PolicyRun K ρ := frames.foldl draw start

end PolicyRun

end

end GpuiFast.ScrollLayer
