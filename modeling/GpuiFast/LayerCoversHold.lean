import GpuiFast.LayerCovers

namespace GpuiFast

variable {K ρ : Type*} [Field K] [LinearOrder K]

lemma Bounds.HasPoint.size_pos [IsStrictOrderedRing K] {b : Bounds K} {p : Point K}
    (h : b.HasPoint p) : 0 < b.size.width ∧ 0 < b.size.height := by
  obtain ⟨⟨hleft, hright⟩, htop, hbottom⟩ := h
  have hwidth := hleft.trans_lt hright
  have hheight := htop.trans_lt hbottom
  rw [Bounds.bottomRight_x] at hwidth
  rw [Bounds.bottomRight_y] at hheight
  exact ⟨by linarith, by linarith⟩

namespace ScrollLayer

namespace DivContent

omit [Field K] in
lemma childMin_le {content : DivContent K} {m : Point K} (hmin : content.childMin = some m) :
    ∀ child ∈ content.children, m.x ≤ child.origin.x ∧ m.y ≤ child.origin.y := by
  have hfold : ∀ (children : List (Bounds K)) (start : Point K),
      let least := children.foldl
        (fun m child => ⟨min m.x child.origin.x, min m.y child.origin.y⟩) start
      (least.x ≤ start.x ∧ least.y ≤ start.y) ∧
        ∀ child ∈ children, least.x ≤ child.origin.x ∧ least.y ≤ child.origin.y := by
    intro children
    induction children with
    | nil => exact fun start => ⟨⟨le_rfl, le_rfl⟩, by simp⟩
    | cons child children ih =>
      intro start
      obtain ⟨⟨hx, hy⟩, hrest⟩ :=
        ih ⟨min start.x child.origin.x, min start.y child.origin.y⟩
      refine ⟨⟨hx.trans (min_le_left _ _), hy.trans (min_le_left _ _)⟩, ?_⟩
      intro other hother
      rcases List.mem_cons.mp hother with rfl | hother
      · exact ⟨hx.trans (min_le_right _ _), hy.trans (min_le_right _ _)⟩
      · exact hrest other hother
  intro child hchild
  cases hchildren : content.children with
  | nil =>
    rw [hchildren] at hchild
    cases hchild
  | cons first children =>
    obtain ⟨hfirst, hrest⟩ := hfold children first.origin
    simp only [childMin, hchildren, Option.some.injEq] at hmin
    rw [hmin] at hfirst hrest
    rw [hchildren] at hchild
    rcases List.mem_cons.mp hchild with rfl | hchild
    · exact hfirst
    · exact hrest child hchild

lemma le_childMax {content : DivContent K} : ∀ child ∈ content.children,
    child.bottomRight.x ≤ content.childMax.x ∧ child.bottomRight.y ≤ content.childMax.y := by
  have hfold : ∀ (children : List (Bounds K)) (start : Point K),
      let greatest := children.foldl
        (fun m child => ⟨max m.x child.bottomRight.x, max m.y child.bottomRight.y⟩) start
      (start.x ≤ greatest.x ∧ start.y ≤ greatest.y) ∧ ∀ child ∈ children,
        child.bottomRight.x ≤ greatest.x ∧ child.bottomRight.y ≤ greatest.y := by
    intro children
    induction children with
    | nil => exact fun start => ⟨⟨le_rfl, le_rfl⟩, by simp⟩
    | cons child children ih =>
      intro start
      obtain ⟨⟨hx, hy⟩, hrest⟩ :=
        ih ⟨max start.x child.bottomRight.x, max start.y child.bottomRight.y⟩
      refine ⟨⟨(le_max_left _ _).trans hx, (le_max_left _ _).trans hy⟩, ?_⟩
      intro other hother
      rcases List.mem_cons.mp hother with rfl | hother
      · exact ⟨(le_max_right _ _).trans hx, (le_max_right _ _).trans hy⟩
      · exact hrest other hother
  exact (hfold content.children ⟨0, 0⟩).2

lemma child_within (content : DivContent K) (bounds : Bounds K) :
    ∀ child ∈ content.children,
      (⟨content.contentOrigin bounds, content.contentSize bounds⟩ : Bounds K).Covers child := by
  intro child hchild
  cases hmin : content.childMin with
  | none =>
    have hnil : content.children = [] := by
      cases hchildren : content.children with
      | nil => rfl
      | cons first children => simp [childMin, hchildren] at hmin
    rw [hnil] at hchild
    cases hchild
  | some m =>
    obtain ⟨hx, hy⟩ := childMin_le hmin child hchild
    obtain ⟨hright, hbottom⟩ := le_childMax child hchild
    simp only [contentOrigin, contentSize, hmin, Option.getD_some]
    refine ⟨⟨hx, hy⟩, ?_, ?_⟩
    · simpa using hright
    · simpa using hbottom

end DivContent

section

variable [IsStrictOrderedRing K]

lemma low_covers (viewportMin : K) {overscan contentMin childMin : K} (t : K) (hoverscan : 0 ≤ overscan)
    (hmin : contentMin ≤ childMin) :
    min (max (viewportMin - overscan) contentMin) viewportMin + t ≤ max viewportMin (childMin + t) ↔
      t ≤ overscan ∨ viewportMin - overscan ≤ childMin := by
  rw [← min_add_add_right, min_le_iff, le_max_iff, le_max_iff, add_le_add_iff_right,
    add_le_add_iff_right, max_le_iff]
  constructor
  · rintro ((hmoved | ⟨hreach, -⟩) | (hmoved | hreach))
    · have hlow := le_max_left (viewportMin - overscan) contentMin
      exact .inl (by linarith)
    · exact .inr hreach
    · exact .inl (by linarith)
    · exact .inr (by linarith)
  · rintro (hmoved | hreach)
    · rcases le_total (viewportMin - overscan) contentMin with hle | hle
      · exact .inl (.inr ⟨hle.trans hmin, hmin⟩)
      · rw [max_eq_left hle]
        exact .inl (.inl (by linarith))
    · exact .inl (.inr ⟨hreach, hmin⟩)

lemma high_covers (viewportMax : K) {overscan contentMax childMax : K} (t : K) (hoverscan : 0 ≤ overscan)
    (hmax : childMax ≤ contentMax) :
    min viewportMax (childMax + t) ≤ max (min (viewportMax + overscan) contentMax) viewportMax + t ↔
      -t ≤ overscan ∨ childMax ≤ viewportMax + overscan := by
  rw [← max_add_add_right, le_max_iff, min_le_iff, min_le_iff, add_le_add_iff_right,
    add_le_add_iff_right, le_min_iff]
  constructor
  · rintro ((hmoved | ⟨hreach, -⟩) | (hmoved | hreach))
    · have hhigh := min_le_left (viewportMax + overscan) contentMax
      exact .inl (by linarith)
    · exact .inr hreach
    · exact .inl (by linarith)
    · exact .inr (by linarith)
  · rintro (hmoved | hreach)
    · rcases le_total contentMax (viewportMax + overscan) with hle | hle
      · exact .inl (.inr ⟨hmax.trans hle, hmax⟩)
      · rw [min_eq_left hle]
        exact .inl (.inl (by linarith))
    · exact .inl (.inr ⟨hreach, hmax⟩)

def overscan (overflow : Overflow) (extent : K) : K :=
  if overflow = .scroll then extent * OVERSCAN_VIEWPORTS else 0

/-- On an axis with an overscan, the part of a child that shows after a scroll by `t` was painted:
the scroll stays within the overscan, or the child did when it was painted. -/
def AxisPainted (overscan viewportMin extent childMin childMax t : K) : Prop :=
  (t ≤ overscan ∨ viewportMin - overscan ≤ childMin) ∧
    (-t ≤ overscan ∨ childMax ≤ viewportMin + extent + overscan)

lemma axis_covers (viewportMin extent contentMin contentExtent childMin childMax t : K)
    (overflow : Overflow) (hextent : 0 ≤ extent) (hmin : contentMin ≤ childMin)
    (hmax : childMax ≤ contentMin + contentExtent) :
    ((paintedAxis overflow viewportMin extent contentMin contentExtent).1 + t ≤
        max viewportMin (childMin + t) ∧
      min (viewportMin + extent) (childMax + t) ≤
        (paintedAxis overflow viewportMin extent contentMin contentExtent).1 + t +
          (paintedAxis overflow viewportMin extent contentMin contentExtent).2) ↔
    AxisPainted (overscan overflow extent) viewportMin extent childMin childMax t := by
  have hoverscan : 0 ≤ extent * OVERSCAN_VIEWPORTS := mul_nonneg hextent zero_le_two
  by_cases hscroll : overflow = .scroll
  · simp only [paintedAxis, hscroll, if_true, extend, overscan, AxisPainted]
    rw [low_covers _ t hoverscan hmin, add_right_comm, add_sub_cancel,
      high_covers _ t hoverscan hmax]
  · simp only [paintedAxis, hscroll, if_false, overscan, AxisPainted]
    have hlow := low_covers viewportMin t le_rfl hmin
    have hhigh := high_covers (viewportMin + extent) t le_rfl hmax
    rw [sub_zero, min_eq_right (le_max_left _ _)] at hlow
    rw [add_zero, max_eq_right (min_le_left _ _), add_right_comm] at hhigh
    rw [hlow, hhigh, sub_zero, add_zero]

def ShowsPainted (record : LayerRecord K) (content : DivContent K) (viewport : Bounds K)
    (scrollOffset : Point K) : Prop :=
  ∀ child ∈ content.children, ∀ p, viewport.HasPoint p →
    (child.translate scrollOffset).HasPoint p → (record.paintedAt scrollOffset).HasPoint p

/-- On both axes every child that shows was scrolled by no more than the overscan, or reached no
further than the overscan when the record was painted. -/
def ScrolledWithin (record : LayerRecord K) (content : DivContent K) (viewport : Bounds K)
    (scrollOffset : Point K) : Prop :=
  ∀ child ∈ content.children,
    (∃ p, viewport.HasPoint p ∧ (child.translate scrollOffset).HasPoint p) →
    AxisPainted (overscan content.overflowX viewport.size.width) viewport.origin.x
        viewport.size.width (child.origin.x + record.scrollOffset.x)
        (child.bottomRight.x + record.scrollOffset.x)
        (scrollOffset.x - record.scrollOffset.x) ∧
      AxisPainted (overscan content.overflowY viewport.size.height) viewport.origin.y
        viewport.size.height (child.origin.y + record.scrollOffset.y)
        (child.bottomRight.y + record.scrollOffset.y)
        (scrollOffset.y - record.scrollOffset.y)

lemma child_painted_iff {record : LayerRecord K} {content : DivContent K}
    {bounds viewport child : Bounds K} {scrollOffset : Point K} (hchild : child ∈ content.children)
    (hregion : record.paintedRegion = paintedRegion viewport
      ⟨⟨(content.contentOrigin bounds).x + record.scrollOffset.x,
        (content.contentOrigin bounds).y + record.scrollOffset.y⟩, content.contentSize bounds⟩
      content.overflowX content.overflowY)
    (hshows : ∃ p, viewport.HasPoint p ∧ (child.translate scrollOffset).HasPoint p) :
    (∀ p, viewport.HasPoint p → (child.translate scrollOffset).HasPoint p →
      (record.paintedAt scrollOffset).HasPoint p) ↔
    AxisPainted (overscan content.overflowX viewport.size.width) viewport.origin.x
        viewport.size.width (child.origin.x + record.scrollOffset.x)
        (child.bottomRight.x + record.scrollOffset.x) (scrollOffset.x - record.scrollOffset.x) ∧
      AxisPainted (overscan content.overflowY viewport.size.height) viewport.origin.y
        viewport.size.height (child.origin.y + record.scrollOffset.y)
        (child.bottomRight.y + record.scrollOffset.y) (scrollOffset.y - record.scrollOffset.y) := by
  obtain ⟨⟨hleft, htop⟩, hright, hbottom⟩ := content.child_within bounds child hchild
  have hcommon : ∃ p, (viewport.intersect (child.translate scrollOffset)).HasPoint p := by
    obtain ⟨p, hp⟩ := hshows
    exact ⟨p, Bounds.hasPoint_intersect.mpr hp⟩
  obtain ⟨p, hp, ⟨hcleft, hcright⟩, hctop, hcbottom⟩ := hshows
  obtain ⟨hwidth, hheight⟩ := hp.size_pos
  obtain ⟨⟨hpleft, hpright⟩, hptop, hpbottom⟩ := hp
  have hx := axis_covers viewport.origin.x viewport.size.width
    ((content.contentOrigin bounds).x + record.scrollOffset.x)
    (content.contentSize bounds).width (child.origin.x + record.scrollOffset.x)
    (child.bottomRight.x + record.scrollOffset.x)
    (scrollOffset.x - record.scrollOffset.x) content.overflowX hwidth.le
    (by simpa using hleft) (by simp only [Bounds.bottomRight_x] at hright ⊢; linarith)
  have hy := axis_covers viewport.origin.y viewport.size.height
    ((content.contentOrigin bounds).y + record.scrollOffset.y)
    (content.contentSize bounds).height (child.origin.y + record.scrollOffset.y)
    (child.bottomRight.y + record.scrollOffset.y)
    (scrollOffset.y - record.scrollOffset.y) content.overflowY hheight.le
    (by simpa using htop) (by simp only [Bounds.bottomRight_y] at hbottom ⊢; linarith)
  have hand : (∀ p, viewport.HasPoint p → (child.translate scrollOffset).HasPoint p →
        (record.paintedAt scrollOffset).HasPoint p) ↔
      (record.paintedAt scrollOffset).Covers
        (viewport.intersect (child.translate scrollOffset)) := by
    rw [← Bounds.covers_iff hcommon]
    simp only [Bounds.hasPoint_intersect, and_imp]
  have hmovedx : ∀ a, a + record.scrollOffset.x + (scrollOffset.x - record.scrollOffset.x) =
      a + scrollOffset.x := fun a => by ring
  have hmovedy : ∀ a, a + record.scrollOffset.y + (scrollOffset.y - record.scrollOffset.y) =
      a + scrollOffset.y := fun a => by ring
  have hcutx : max viewport.origin.x (child.translate scrollOffset).origin.x ≤
      min viewport.bottomRight.x (child.translate scrollOffset).bottomRight.x :=
    (max_le hpleft hcleft).trans (lt_min hpright hcright).le
  have hcuty : max viewport.origin.y (child.translate scrollOffset).origin.y ≤
      min viewport.bottomRight.y (child.translate scrollOffset).bottomRight.y :=
    (max_le hptop hctop).trans (lt_min hpbottom hcbottom).le
  have hendx : (child.translate scrollOffset).bottomRight.x = child.bottomRight.x + scrollOffset.x := by
    simp only [Bounds.translate, Bounds.bottomRight_x]
    ring
  have hendy : (child.translate scrollOffset).bottomRight.y = child.bottomRight.y + scrollOffset.y := by
    simp only [Bounds.translate, Bounds.bottomRight_y]
    ring
  rw [hand, ← hx, ← hy, Bounds.Covers, Bounds.intersect, Bounds.bottomRight_fromCorners]
  simp only [Bounds.fromCorners]
  rw [max_eq_left hcutx, max_eq_left hcuty, hendx, hendy, hmovedx, hmovedx, hmovedy, hmovedy]
  simp only [LayerRecord.paintedAt, hregion, paintedRegion, Bounds.translate, Bounds.bottomRight_x,
    Bounds.bottomRight_y]
  exact and_and_and_comm

lemma margin_nonneg {painted viewport : K} (hviewport : 0 ≤ viewport) :
    0 ≤ margin painted viewport := by
  rw [margin]
  split
  · exact div_nonneg hviewport (by norm_num)
  · exact le_rfl

lemma shows_of_covers {record : LayerRecord K} {content : DivContent K} {bounds : Bounds K}
    {scrollOffset : Point K} (horigin : content.contentOrigin bounds = bounds.origin)
    (hcovers : record.covers bounds (content.contentSize bounds) scrollOffset = true) :
    ShowsPainted record content record.viewport scrollOffset := by
  intro child hchild p hviewport hshows
  obtain ⟨⟨hleft, htop⟩, hright, hbottom⟩ := content.child_within bounds child hchild
  rw [horigin] at hleft htop hright hbottom
  obtain ⟨⟨hpleft, hpright⟩, hptop, hpbottom⟩ := hviewport
  obtain ⟨⟨hcleft, hcright⟩, hctop, hcbottom⟩ := hshows
  simp only [Bounds.bottomRight_x, Bounds.bottomRight_y, Bounds.translate] at *
  have hmarginx : 0 ≤ margin record.paintedRegion.size.width record.viewport.size.width :=
    margin_nonneg (by linarith)
  have hmarginy : 0 ≤ margin record.paintedRegion.size.height record.viewport.size.height :=
    margin_nonneg (by linarith)
  have hcontent : (⟨⟨bounds.origin.x + scrollOffset.x, bounds.origin.y + scrollOffset.y⟩,
      content.contentSize bounds⟩ : Bounds K).HasPoint p := by
    refine ⟨⟨?_, ?_⟩, ?_, ?_⟩
    · exact (add_le_add_left hleft _).trans hcleft
    · simp only [Bounds.bottomRight_x]
      linarith
    · exact (add_le_add_left htop _).trans hctop
    · simp only [Bounds.bottomRight_y]
      linarith
  have hwider : (Bounds.fromCorners
      ⟨record.viewport.origin.x - margin record.paintedRegion.size.width record.viewport.size.width,
        record.viewport.origin.y -
          margin record.paintedRegion.size.height record.viewport.size.height⟩
      ⟨record.viewport.bottomRight.x +
          margin record.paintedRegion.size.width record.viewport.size.width,
        record.viewport.bottomRight.y +
          margin record.paintedRegion.size.height record.viewport.size.height⟩).HasPoint p := by
    rw [Bounds.HasPoint, Bounds.bottomRight_fromCorners]
    simp only [Bounds.fromCorners, Bounds.bottomRight_x, Bounds.bottomRight_y]
    exact ⟨⟨by linarith, by linarith⟩, by linarith, by linarith⟩
  have hwanted := Bounds.hasPoint_intersect.mpr ⟨hwider, hcontent⟩
  obtain ⟨hwidth, hheight⟩ := hwanted.size_pos
  obtain ⟨⟨hwleft, hwright⟩, hwtop, hwbottom⟩ := hwanted
  rw [LayerRecord.covers] at hcovers
  simp only [not_le.mpr hwidth, not_le.mpr hheight, or_self, if_false, Bool.and_eq_true,
    decide_eq_true_eq] at hcovers
  obtain ⟨⟨⟨hl, ht⟩, hr⟩, hb⟩ := hcovers
  exact ⟨⟨hl.trans hwleft, hwright.trans_le hr⟩, ht.trans hwtop, hwbottom.trans_le hb⟩

end

section

variable [FloorRing K] [DecidableEq ρ]

structure PaintedAs (painted : Option (DivContent K)) (layer : Layer K ρ) : Prop where
  notList : layer.rows.list = false
  notShown : layer.rows.repaintsShownRows = false
  record : ∀ record ∈ layer.record, ∀ context ∈ layer.policy.paintedIn, ∃ content,
    painted = some content ∧ context.contentSize = content.contentSize context.bounds ∧
      record.viewport = context.contentMask ∧
      record.paintedRegion = paintedRegion context.contentMask
        ⟨⟨(content.contentOrigin context.bounds).x + record.scrollOffset.x,
          (content.contentOrigin context.bounds).y + record.scrollOffset.y⟩,
          content.contentSize context.bounds⟩ content.overflowX content.overflowY

variable {layer : Layer K ρ} {look : Look K ρ} {run : DivRun K ρ} {painted : Option (DivContent K)}

lemma composite_spec {frame : ℕ} (hlist : layer.rows.list = false)
    (hshown : layer.rows.repaintsShownRows = false)
    (hcomposite : layer.decision frame look = .composite) :
    ∃ record, layer.record = some record ∧ layer.policy.paintedIn = some look.context ∧
      look.scrollOnly = true ∧
      record.covers look.context.bounds look.context.contentSize look.scrollOffset = true := by
  have hfound : (layer.find frame look).decision = .composite := by
    rw [Layer.decision] at hcomposite
    split at hcomposite
    · cases hcomposite
    · exact hcomposite
  revert hfound
  simp only [Layer.find]
  split
  · simp [Finding.bypass]
  split
  · simp [Finding.bypass]
  split
  · rename_i record hrecord
    split
    · simp [Finding.bypass]
    split
    · simp [Finding.bypass]
    split
    · rename_i hscroll
      obtain ⟨hcontext, hscrollOnly⟩ := Bool.and_eq_true_iff.mp hscroll
      simp only [hlist, Bool.false_or]
      split
      · rename_i hcovers
        exact fun _ => ⟨record, hrecord, by simpa using hcontext, hscrollOnly, hcovers⟩
      · simp
    · simp [hshown]
  · split
    · simp
    · simp [Finding.bypass]

lemma Layer.decide_painted (layer : Layer K ρ) (frame : ℕ) (look : Look K ρ) :
    ((layer.decide frame look).1.record = none ∨
        (layer.decide frame look).1.record = layer.record) ∧
      ((layer.decide frame look).1.policy.paintedIn = none ∨
        (layer.decide frame look).1.policy.paintedIn =
          if layer.decision frame look = .repaint then some look.context
          else layer.policy.paintedIn) ∧
      (layer.rows.list = false → (layer.decide frame look).1.rows.list = false) ∧
      (layer.rows.repaintsShownRows = false →
        (layer.decide frame look).1.rows.repaintsShownRows = false) := by
  simp only [decide]
  split
  · exact ⟨.inl rfl, .inl rfl, fun _ => rfl, fun _ => rfl⟩
  split
  · exact ⟨.inl rfl, .inl rfl, fun h => h, fun h => h⟩
  · exact ⟨.inr rfl, .inr rfl, fun h => h, fun h => h⟩

lemma settle_painted (frame : ℕ) (drawn : PolicyFrame K ρ) (layer : Layer K ρ) :
    (PolicyRun.settle frame drawn layer).record = (layer.paint frame drawn.painted).record ∧
      (PolicyRun.settle frame drawn layer).policy.paintedIn =
        (layer.paint frame drawn.painted).policy.paintedIn ∧
      (PolicyRun.settle frame drawn layer).rows = layer.rows := by
  obtain ⟨work, hwork⟩ := foldl_noteWork frame drawn.works layer
  have hpaint : ∀ painted : Painted K,
      (({ layer with policy := { layer.policy with work := work } } : Layer K ρ).paint
          frame painted).record = (layer.paint frame painted).record ∧
        (({ layer with policy := { layer.policy with work := work } } : Layer K ρ).paint
          frame painted).policy.paintedIn = (layer.paint frame painted).policy.paintedIn ∧
        (({ layer with policy := { layer.policy with work := work } } : Layer K ρ).paint
          frame painted).rows = layer.rows := by
    intro painted
    simp only [Layer.paint]
    split
    · split
      · exact ⟨rfl, rfl, rfl⟩
      · exact ⟨rfl, rfl, rfl⟩
      · exact ⟨rfl, rfl, rfl⟩
      · exact ⟨rfl, rfl, rfl⟩
      · exact ⟨rfl, rfl, rfl⟩
    · exact ⟨rfl, rfl, rfl⟩
  simp only [PolicyRun.settle, hwork]
  split
  · obtain ⟨anchored, hanchored⟩ := Layer.finishFrame_spec (Layer.noteUnchangedRepaint
      (Layer.paint { layer with policy := { layer.policy with work := work } } frame drawn.painted)
      frame) frame drawn.anchored
    rw [hanchored, Layer.noteUnchangedRepaint_eq]
    exact hpaint drawn.painted
  · obtain ⟨anchored, hanchored⟩ := Layer.finishFrame_spec
      (Layer.paint ({ layer with policy := { layer.policy with work := work } } : Layer K ρ) frame
        drawn.painted) frame drawn.anchored
    rw [hanchored]
    exact hpaint drawn.painted

def HoldsPainted (run : DivRun K ρ) : Prop :=
  ∀ layer ∈ run.policy.entry, PaintedAs run.painted layer

omit [FloorRing K] [DecidableEq ρ] in
lemma HoldsPainted.entered (h : HoldsPainted run) (hentered : run.policy.entered look = some layer) :
    PaintedAs run.painted layer := by
  cases hentry : run.policy.entry with
  | some old =>
    have hsame : old = layer := by simpa [PolicyRun.entered, hentry] using hentered
    exact hsame ▸ h old (by simp [hentry])
  | none =>
    simp only [PolicyRun.entered, hentry, Option.ite_none_right_eq_some] at hentered
    obtain ⟨-, hnew⟩ := hentered
    cases hnew
    exact ⟨rfl, rfl, by simp [Layer.new]⟩

omit [FloorRing K] [DecidableEq ρ] in
lemma PaintedAs.of_none (hlist : layer.rows.list = false)
    (hshown : layer.rows.repaintsShownRows = false) (hrecord : layer.record = none) :
    PaintedAs painted layer :=
  ⟨hlist, hshown, by simp [hrecord]⟩

lemma PaintedAs.kept {frame : ℕ} (h : PaintedAs painted layer)
    (hdecision : layer.decision frame look ≠ .repaint) :
    PaintedAs painted (layer.decide frame look).1 := by
  obtain ⟨hrecord, hpaintedIn, hlist, hshown⟩ := layer.decide_painted frame look
  refine ⟨hlist h.notList, hshown h.notShown, ?_⟩
  intro record hmem context hcontext
  rw [if_neg hdecision] at hpaintedIn
  rcases hrecord with hrecord | hrecord
  · rw [hrecord] at hmem
    cases hmem
  rcases hpaintedIn with hpaintedIn | hpaintedIn
  · rw [hpaintedIn] at hcontext
    cases hcontext
  · rw [hrecord] at hmem
    rw [hpaintedIn] at hcontext
    exact h.record record hmem context hcontext

lemma PaintedAs.paint (h : PaintedAs run.painted layer) (drawn : DivFrame K ρ) (look : Look K ρ)
    (hentered : run.policy.entered (run.looked drawn look) = some layer) :
    PaintedAs (if run.paints drawn look && drawn.baked then some drawn.content else run.painted)
      ((layer.decide run.policy.frame (run.looked drawn look)).1.paint run.policy.frame
        (run.paintedBy drawn look)) := by
  have hanswer : run.answer drawn look =
      layer.decision run.policy.frame (run.looked drawn look) := by
    simp [DivRun.answer, PolicyRun.answer, hentered, Layer.decide_answer]
  obtain ⟨hrecord, hpaintedIn, hlist, hshown⟩ :=
    layer.decide_painted run.policy.frame (run.looked drawn look)
  -- a record painted on this frame is of this look, whose context the layer keeps
  have hpainted : ∀ paintedIn : Option (LayerContext K ρ),
      (∀ context ∈ paintedIn, context = (run.looked drawn look).context) →
      ∀ rest : Layer K ρ, rest.rows = (layer.decide run.policy.frame (run.looked drawn look)).1.rows →
      rest.record = some (recordAt drawn (run.looked drawn look)) →
      rest.policy.paintedIn = paintedIn → PaintedAs (some drawn.content) rest := by
    intro paintedIn hcontexts rest hrows hrest hin
    refine ⟨hrows ▸ hlist h.notList, hrows ▸ hshown h.notShown, ?_⟩
    intro record hmem context hcontext
    rw [hrest] at hmem
    cases hmem
    rw [hcontexts context (hin ▸ hcontext)]
    exact ⟨drawn.content, rfl, rfl, rfl, rfl⟩
  simp only [Layer.paint, Layer.decide_lastSeenFrame, if_true, Layer.decide_lastDecision]
  cases hdecision : layer.decision run.policy.frame (run.looked drawn look) with
  | bypass =>
    have hpaints : run.paints drawn look = false := by simp [DivRun.paints, hanswer, hdecision]
    have hstays : layer.decision run.policy.frame (run.looked drawn look) ≠ .repaint := by
      simp [hdecision]
    have hkept := h.kept hstays
    simpa [DivRun.paintedBy, hpaints, hanswer, hdecision] using hkept
  | composite =>
    have hstays : layer.decision run.policy.frame (run.looked drawn look) ≠ .repaint := by
      simp [hdecision]
    have hkept := h.kept hstays
    obtain ⟨-, -, hcontext, -⟩ := composite_spec h.notList h.notShown hdecision
    have hpaints : run.paints drawn look = drawn.forced := by
      simp [DivRun.paints, hanswer, hdecision]
    cases hbaked : drawn.baked with
    | false =>
      have hunbaked : run.paintedBy drawn look = .unbaked := by
        simp [DivRun.paintedBy, hanswer, hdecision, hbaked]
      rw [hunbaked]
      exact .of_none (hlist h.notList) (hshown h.notShown) rfl
    | true =>
      cases hforced : drawn.forced with
      | false =>
        simpa [DivRun.paintedBy, hpaints, hforced, hanswer, hdecision, hbaked] using hkept
      | true =>
        have hrecorded : run.paintedBy drawn look =
            .record (recordAt drawn (run.looked drawn look)) := by
          simp [DivRun.paintedBy, hpaints, hforced, hbaked]
        rw [hrecorded, hpaints, hforced]
        refine hpainted _ ?_ _ rfl rfl rfl
        intro context hmem
        rw [if_neg (by simp [hdecision]), hcontext] at hpaintedIn
        rcases hpaintedIn with hpaintedIn | hpaintedIn
        · rw [hpaintedIn] at hmem
          cases hmem
        · rw [hpaintedIn] at hmem
          exact (Option.some.inj hmem).symm
  | repaint =>
    have hpaints : run.paints drawn look = true := by simp [DivRun.paints, hanswer, hdecision]
    cases hbaked : drawn.baked with
    | false =>
      have hunbaked : run.paintedBy drawn look = .unbaked := by
        simp [DivRun.paintedBy, hpaints, hbaked]
      rw [hunbaked]
      exact .of_none (hlist h.notList) (hshown h.notShown) rfl
    | true =>
      have hrecorded : run.paintedBy drawn look =
          .record (recordAt drawn (run.looked drawn look)) := by
        simp [DivRun.paintedBy, hpaints, hbaked]
      rw [hrecorded, hpaints]
      refine hpainted _ ?_ _ rfl rfl rfl
      intro context hmem
      rw [if_pos hdecision] at hpaintedIn
      rcases hpaintedIn with hpaintedIn | hpaintedIn
      · rw [hpaintedIn] at hmem
        cases hmem
      · rw [hpaintedIn] at hmem
        exact (Option.some.inj hmem).symm

lemma PaintedAs.settle {frame : ℕ} {drawn : PolicyFrame K ρ}
    (h : PaintedAs painted (layer.paint frame drawn.painted))
    (hrows : (layer.paint frame drawn.painted).rows = layer.rows) :
    PaintedAs painted (PolicyRun.settle frame drawn layer) := by
  obtain ⟨hrecord, hpaintedIn, hsettled⟩ := settle_painted frame drawn layer
  refine ⟨?_, ?_, ?_⟩
  · rw [hsettled, ← hrows]
    exact h.notList
  · rw [hsettled, ← hrows]
    exact h.notShown
  · rw [hrecord, hpaintedIn]
    exact h.record

omit [Field K] [LinearOrder K] [FloorRing K] [DecidableEq ρ] in
lemma Layer.paint_nothing (layer : Layer K ρ) (frame : ℕ) :
    layer.paint frame (.nothing : Painted K) = layer := by
  unfold Layer.paint
  split
  · cases layer.policy.lastDecision with
    | none => rfl
    | some decision => cases decision <;> rfl
  · rfl

lemma Layer.paint_rows (layer : Layer K ρ) (frame : ℕ) (painted : Painted K) :
    (layer.paint frame painted).rows = layer.rows := by
  obtain ⟨record, retryAt, paintedIn, -, hpaint⟩ := layer.paint_spec frame painted
  rw [hpaint]

lemma HoldsPainted.draw (h : HoldsPainted run) (drawn : DivFrame K ρ) :
    HoldsPainted (run.draw drawn) := by
  -- an entry that is kept is the one settled this frame
  have hsettled : ∀ (entry : Option (Layer K ρ)) (frame : PolicyFrame K ρ) layer,
      layer ∈ (entry.map (PolicyRun.settle run.policy.frame frame)).filter
        (·.keep run.policy.frame) →
      ∃ old, entry = some old ∧ PolicyRun.settle run.policy.frame frame old = layer := by
    intro entry frame layer hlayer
    cases entry with
    | none => simp at hlayer
    | some old =>
      simp only [Option.map_some, Option.mem_def, Option.filter] at hlayer
      split at hlayer
      · exact ⟨old, rfl, Option.some.inj hlayer⟩
      · cases hlayer
  intro layer hlayer
  cases hlook : drawn.look with
  | none =>
    simp only [DivRun.draw, hlook, PolicyRun.draw] at hlayer ⊢
    obtain ⟨old, hentry, hsame⟩ := hsettled _ _ _ hlayer
    rw [← hsame]
    refine PaintedAs.settle ?_ (old.paint_rows _ _)
    simp only [Layer.paint_nothing]
    exact h old (by simp [hentry])
  | some look =>
    simp only [DivRun.draw, hlook, PolicyRun.draw, PolicyRun.look] at hlayer ⊢
    cases hentered : run.policy.entered (run.looked drawn look) with
    | none =>
      simp only [hentered] at hlayer
      have hnone : run.policy.entry = none := by
        cases hentry : run.policy.entry with
        | none => rfl
        | some old => simp [PolicyRun.entered, hentry] at hentered
      simp [hnone] at hlayer
    | some old =>
      simp only [hentered] at hlayer
      obtain ⟨decided, hentry, hsame⟩ := hsettled _ _ _ hlayer
      rw [← hsame, ← Option.some.inj hentry]
      exact PaintedAs.settle ((h.entered hentered).paint drawn look hentered)
        (Layer.paint_rows _ _ _)

lemma holdsPainted_run (frames : List (DivFrame K ρ)) : HoldsPainted (DivRun.drawAll frames) := by
  induction frames using List.reverseRecOn with
  | nil => simp [HoldsPainted, DivRun.drawAll, DivRun.start, PolicyRun.start]
  | append_singleton frames drawn ih =>
    rw [DivRun.drawAll, List.foldl_append]
    exact ih.draw drawn

variable [IsStrictOrderedRing K]

/-- In every run of frames, what a composited frame shows of the children was painted exactly when
every child that shows was scrolled within the overscan or lay within it; and it always was where
the children begin at the container's origin. -/
theorem DivRun.composited_iff (frames : List (DivFrame K ρ)) (frame : DivFrame K ρ)
    (look : Look K ρ) (hcomposite : (DivRun.drawAll frames).answer frame look = .composite) :
    ∃ layer record, (DivRun.drawAll frames).policy.entry = some layer ∧ layer.record = some record ∧
      (ShowsPainted record frame.content look.context.contentMask look.scrollOffset ↔
        ScrolledWithin record frame.content look.context.contentMask look.scrollOffset) ∧
      (frame.content.contentOrigin look.context.bounds = look.context.bounds.origin →
        ShowsPainted record frame.content look.context.contentMask look.scrollOffset) := by
  set run := DivRun.drawAll frames with hrun
  have h : HoldsPainted run := holdsPainted_run frames
  cases hentered : run.policy.entered (run.looked frame look) with
  | none => simp [DivRun.answer, PolicyRun.answer, hentered] at hcomposite
  | some layer =>
    have hlayer := h.entered hentered
    have hdecision : layer.decision run.policy.frame (run.looked frame look) = .composite := by
      simpa [DivRun.answer, PolicyRun.answer, hentered, Layer.decide_answer] using hcomposite
    obtain ⟨record, hrecord, hcontext, hscrollOnly, hcovers⟩ :=
      composite_spec hlayer.notList hlayer.notShown hdecision
    obtain ⟨content, hcontent, -, hviewport, hregion⟩ :=
      hlayer.record record hrecord _ hcontext
    -- the content is what the layer was painted with
    have hsame : content = frame.content := by
      have hpainted : run.painted = some frame.content := by
        simp only [DivRun.looked, Bool.and_eq_true, decide_eq_true_eq] at hscrollOnly
        exact hscrollOnly.2
      exact Option.some.inj (hcontent.symm.trans hpainted)
    subst hsame
    have hentry : run.policy.entry = some layer := by
      cases hentry : run.policy.entry with
      | some old => simpa [PolicyRun.entered, hentry] using hentered
      | none =>
        simp only [PolicyRun.entered, hentry, Option.ite_none_right_eq_some] at hentered
        obtain ⟨-, hnew⟩ := hentered
        rw [← Option.some.inj hnew] at hrecord
        cases hrecord
    refine ⟨layer, record, hentry, hrecord, ?_, ?_⟩
    · constructor
      · intro hall child hchild hshows
        exact (child_painted_iff hchild hregion hshows).mp (hall child hchild)
      · intro hall child hchild p hp hpchild
        have hshows : ∃ p, look.context.contentMask.HasPoint p ∧
            (child.translate look.scrollOffset).HasPoint p := ⟨p, hp, hpchild⟩
        exact (child_painted_iff hchild hregion hshows).mpr (hall child hchild hshows) p hp hpchild
    · intro horigin
      have hshows := shows_of_covers horigin hcovers
      rwa [hviewport] at hshows

end

def paddedContent : DivContent ℚ := ⟨[⟨⟨0, 20⟩, ⟨100, 290⟩⟩], .visible, .scroll⟩

def paddedLook (y : ℚ) : Look ℚ Unit where
  context := ⟨⟨⟨0, 0⟩, ⟨100, 100⟩⟩, ⟨100, 290⟩, ⟨⟨0, 0⟩, ⟨100, 100⟩⟩, 1, ()⟩
  scrollOffset := ⟨0, y⟩
  noted := true
  isList := false
  changedWithoutLayer := false
  ownerAnimating := false
  animationFrameRequested := false
  scrollOnly := true
  ownerRerenderedOnly := false

def paddedFrame (y : ℚ) : DivFrame ℚ Unit where
  content := paddedContent
  look := some (paddedLook y)
  forced := false
  baked := true
  hasPaths := false
  defersDraws := false
  handlesInput := false
  works := []
  unchangedRepaint := false
  anchored := false

def paddedFrames : List (DivFrame ℚ Unit) := [paddedFrame (-1), paddedFrame 0]

theorem DivRun.composited_iff_padded :
    ∃ layer record, (drawAll paddedFrames).policy.entry = some layer ∧ layer.record = some record ∧
      (ShowsPainted record paddedContent ⟨⟨0, 0⟩, ⟨100, 100⟩⟩ ⟨0, -10⟩ ↔
        ScrolledWithin record paddedContent ⟨⟨0, 0⟩, ⟨100, 100⟩⟩ ⟨0, -10⟩) ∧
      (paddedContent.contentOrigin ⟨⟨0, 0⟩, ⟨100, 100⟩⟩ = ⟨0, 0⟩ →
        ShowsPainted record paddedContent ⟨⟨0, 0⟩, ⟨100, 100⟩⟩ ⟨0, -10⟩) :=
  composited_iff paddedFrames (paddedFrame (-10)) (paddedLook (-10)) (by with_unfolding_all decide)

/-- Scrolled near its end the padded container is composited, and the last of its child shows where
nothing was painted. -/
theorem DivRun.composited_unpainted :
    ¬∀ (frames : List (DivFrame ℚ Unit)) (frame : DivFrame ℚ Unit) (look : Look ℚ Unit),
      (drawAll frames).answer frame look = .composite →
      ∃ layer record, (drawAll frames).policy.entry = some layer ∧ layer.record = some record ∧
        ShowsPainted record frame.content look.context.contentMask look.scrollOffset := by
  intro h
  obtain ⟨layer, record, hentry, hrecord, hshows⟩ :=
    h paddedFrames (paddedFrame (-215)) (paddedLook (-215)) (by with_unfolding_all decide)
  have hpoint := hshows ⟨⟨0, 20⟩, ⟨100, 290⟩⟩ (by decide) ⟨50, 90⟩
    (by norm_num [Bounds.HasPoint, paddedLook])
    (by norm_num [Bounds.HasPoint, Bounds.translate, paddedLook])
  have hsome : (drawAll paddedFrames).policy.entry.isSome := by decide
  have hpainted : ((drawAll paddedFrames).policy.entry.bind (·.record)).map
      (fun record => ((record.paintedAt ⟨0, -215⟩).bottomRight.y)) = some 85 := by
    with_unfolding_all decide
  simp only [hentry, Option.bind_some, hrecord, Option.map_some, Option.some.injEq] at hpainted
  have hbelow : (90 : ℚ) < (record.paintedAt ⟨0, -215⟩).bottomRight.y := hpoint.2.2
  rw [hpainted] at hbelow
  norm_num at hbelow

end ScrollLayer

end GpuiFast
