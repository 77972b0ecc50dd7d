import GpuiFast.LayerDemotions
import GpuiFast.TileQuads

/-! A scrolled container paints its layer from its children's bounds, the viewport extended over them;
whether the layer still covers the viewport is judged with the content taken to begin at the
container's own origin. Where the two agree every point the children show was painted. -/

namespace GpuiFast

variable {K : Type*} [Field K] [LinearOrder K]

omit [Field K] in
lemma inCommonSpan_iff {l l' h h' x : K} :
    (max l l' ≤ x ∧ x < max (min h h') (max l l')) ↔ (l ≤ x ∧ x < h) ∧ l' ≤ x ∧ x < h' := by
  rw [max_le_iff, lt_max_iff, lt_min_iff]
  constructor
  · rintro ⟨⟨hl, hl'⟩, ⟨hh, hh'⟩ | hlt⟩
    · exact ⟨⟨hl, hh⟩, hl', hh'⟩
    · exact absurd hlt (not_lt.mpr (max_le hl hl'))
  · rintro ⟨⟨hl, hh⟩, hl', hh'⟩
    exact ⟨⟨hl, hl'⟩, .inl ⟨hh, hh'⟩⟩

variable {a b : Bounds K}

lemma Bounds.hasPoint_intersect {p : Point K} :
    (a.intersect b).HasPoint p ↔ a.HasPoint p ∧ b.HasPoint p := by
  rw [Bounds.HasPoint, Bounds.intersect, Bounds.bottomRight_fromCorners]
  simp only [Bounds.fromCorners, inCommonSpan_iff, Bounds.HasPoint]
  tauto

lemma Bounds.covers_iff (hb : ∃ p, b.HasPoint p) :
    (∀ p, b.HasPoint p → a.HasPoint p) ↔ a.Covers b := by
  obtain ⟨⟨x₀, y₀⟩, ⟨hx, hx'⟩, hy, hy'⟩ := hb
  have hwidth : b.origin.x < b.bottomRight.x := hx.trans_lt hx'
  have hheight : b.origin.y < b.bottomRight.y := hy.trans_lt hy'
  constructor
  · intro hall
    obtain ⟨⟨hleft, -⟩, htop, -⟩ := hall b.origin ⟨⟨le_rfl, hwidth⟩, le_rfl, hheight⟩
    refine ⟨⟨hleft, htop⟩, ?_, ?_⟩
    · by_contra hright
      obtain ⟨⟨-, hlt⟩, -⟩ := hall ⟨max b.origin.x a.bottomRight.x, b.origin.y⟩
        ⟨⟨le_max_left _ _, max_lt hwidth (not_le.mp hright)⟩, le_rfl, hheight⟩
      exact absurd hlt (not_lt.mpr (le_max_right _ _))
    · by_contra hbottom
      obtain ⟨-, -, hlt⟩ := hall ⟨b.origin.x, max b.origin.y a.bottomRight.y⟩
        ⟨⟨le_rfl, hwidth⟩, le_max_left _ _, max_lt hheight (not_le.mp hbottom)⟩
      exact absurd hlt (not_lt.mpr (le_max_right _ _))
  · rintro ⟨⟨hleft, htop⟩, hright, hbottom⟩ p ⟨⟨hl, hr⟩, ht, hb⟩
    exact ⟨⟨hleft.trans hl, hr.trans_le hright⟩, htop.trans ht, hb.trans_le hbottom⟩

namespace ScrollLayer

/-- The children of a scroll container where they lie before it scrolls, and how it overflows. -/
structure DivContent (K : Type*) where
  children : List (Bounds K)
  overflowX : Overflow
  overflowY : Overflow
  deriving DecidableEq

namespace DivContent

variable {K : Type*} [Field K] [LinearOrder K]

def childMin (content : DivContent K) : Option (Point K) :=
  match content.children with
  | [] => none
  | child :: children =>
    some (children.foldl (fun m child => ⟨min m.x child.origin.x, min m.y child.origin.y⟩)
      child.origin)

def childMax (content : DivContent K) : Point K :=
  content.children.foldl
    (fun m child => ⟨max m.x child.bottomRight.x, max m.y child.bottomRight.y⟩) ⟨0, 0⟩

def contentOrigin (content : DivContent K) (bounds : Bounds K) : Point K :=
  content.childMin.getD bounds.origin

def contentSize (content : DivContent K) (bounds : Bounds K) : Size K :=
  match content.childMin with
  | none => bounds.size
  | some childMin => ⟨content.childMax.x - childMin.x, content.childMax.y - childMin.y⟩

end DivContent

section

variable {K ρ : Type*} [Field K] [LinearOrder K]

/-- How far past the viewport a layer paints on each scrolled side, in viewport extents. -/
def OVERSCAN_VIEWPORTS : K := 2

def extend (viewportMin extent contentMin contentExtent : K) : K × K :=
  let viewportMax := viewportMin + extent
  let overscan := extent * OVERSCAN_VIEWPORTS
  let low := min (max (viewportMin - overscan) contentMin) viewportMin
  let high := max (min (viewportMax + overscan) (contentMin + contentExtent)) viewportMax
  (low, high - low)

/-- An axis of the painted region, the viewport's own where the container does not scroll. -/
def paintedAxis (overflow : Overflow) (viewportMin extent contentMin contentExtent : K) : K × K :=
  if overflow = .scroll then extend viewportMin extent contentMin contentExtent
  else (viewportMin, extent)

def paintedRegion (viewport content : Bounds K) (overflowX overflowY : Overflow) : Bounds K :=
  let x := paintedAxis overflowX viewport.origin.x viewport.size.width content.origin.x
    content.size.width
  let y := paintedAxis overflowY viewport.origin.y viewport.size.height content.origin.y
    content.size.height
  ⟨⟨x.1, y.1⟩, ⟨x.2, y.2⟩⟩

/-- A frame of a scroll container, with what painting its content comes to. -/
structure DivFrame (K ρ : Type*) where
  content : DivContent K
  look : Option (Look K ρ)
  /-- Whether what would be composited is painted again for the input it is about to see. -/
  forced : Bool
  baked : Bool
  hasPaths : Bool
  defersDraws : Bool
  handlesInput : Bool
  works : List K
  unchangedRepaint : Bool
  anchored : Bool

def recordAt (frame : DivFrame K ρ) (look : Look K ρ) : LayerRecord K :=
  let origin := frame.content.contentOrigin look.context.bounds
  let content : Bounds K :=
    ⟨⟨origin.x + look.scrollOffset.x, origin.y + look.scrollOffset.y⟩, look.context.contentSize⟩
  { paintedRegion := paintedRegion look.context.contentMask content frame.content.overflowX
      frame.content.overflowY
    viewport := look.context.contentMask
    scrollOffset := look.scrollOffset
    hasPaths := frame.hasPaths
    defersDraws := frame.defersDraws
    handlesInput := frame.handlesInput }

/-- A container over frames, with the content its layer was painted with. -/
structure DivRun (K ρ : Type*) where
  policy : PolicyRun K ρ
  painted : Option (DivContent K)

namespace DivRun

variable [FloorRing K] [DecidableEq ρ]

def start : DivRun K ρ := ⟨.start, none⟩

/-- The look a frame takes: content is only scrolled if it is what the layer was painted with. -/
def looked (run : DivRun K ρ) (frame : DivFrame K ρ) (look : Look K ρ) : Look K ρ :=
  { look with
    context := { look.context with
      contentSize := frame.content.contentSize look.context.bounds }
    scrollOnly := look.scrollOnly && decide (run.painted = some frame.content) }

def answer (run : DivRun K ρ) (frame : DivFrame K ρ) (look : Look K ρ) : Decision :=
  run.policy.answer (run.looked frame look)

def paints (run : DivRun K ρ) (frame : DivFrame K ρ) (look : Look K ρ) : Bool :=
  match run.answer frame look with
  | .repaint => true
  | .composite => frame.forced
  | .bypass => false

def paintedBy (run : DivRun K ρ) (frame : DivFrame K ρ) (look : Look K ρ) : Painted K :=
  if run.paints frame look then
    if frame.baked then .record (recordAt frame (run.looked frame look)) else .unbaked
  else if run.answer frame look = .composite ∧ !frame.baked then .unbaked
  else .nothing

def draw (run : DivRun K ρ) (frame : DivFrame K ρ) : DivRun K ρ :=
  match frame.look with
  | none =>
    { run with
      policy := run.policy.draw
        ⟨none, frame.works, .nothing, frame.unchangedRepaint, frame.anchored⟩ }
  | some look =>
    { policy := run.policy.draw
        ⟨some (run.looked frame look), frame.works, run.paintedBy frame look,
          frame.unchangedRepaint, frame.anchored⟩
      painted := if run.paints frame look && frame.baked then some frame.content
        else run.painted }

def drawAll (frames : List (DivFrame K ρ)) : DivRun K ρ := frames.foldl draw start

end DivRun

end

end ScrollLayer

end GpuiFast
