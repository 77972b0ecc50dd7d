import GpuiFast.CarriedHitboxes

namespace GpuiFast

open List

namespace LayerInput

variable {K : Type*} [Field K] [LinearOrder K]

structure Merged (viewportMin viewportMax regionMin regionMax low high ownLow ownHigh : K) :
    Prop where
  low_eq : low = max viewportMin ownLow
  high_eq : high = max (min viewportMax ownHigh) low
  region_le : regionMin ≤ ownLow
  own_le : ownLow ≤ ownHigh
  own_high : ownHigh ≤ max regionMax ownLow

section Axis

omit [Field K]

variable {viewportMin viewportMax regionMin regionMax low high ownLow ownHigh : K}

theorem merged_self (hle : viewportMin ≤ viewportMax) (hlow : regionMin ≤ viewportMin)
    (hhigh : viewportMax ≤ regionMax) :
    Merged viewportMin viewportMax regionMin regionMax viewportMin viewportMax regionMin
      regionMax where
  low_eq := (max_eq_left hlow).symm
  high_eq := by rw [min_eq_left hhigh, max_eq_left hle]
  region_le := le_rfl
  own_le := (hlow.trans hle).trans hhigh
  own_high := le_max_left _ _

section

variable (h : Merged viewportMin viewportMax regionMin regionMax low high ownLow ownHigh)
include h

theorem Merged.clip (a b : K) :
    Merged viewportMin viewportMax regionMin regionMax (max a low)
      (max (min b high) (max a low)) (max a ownLow) (max (min b ownHigh) (max a ownLow)) where
  low_eq := by rw [h.low_eq, max_left_comm]
  high_eq := by
    have hlow : min b low ≤ max a low := (min_le_right _ _).trans (le_max_right _ _)
    have hown : min viewportMax (max a ownLow) ≤ max a low := by
      apply (min_le_right _ _).trans
      rw [h.low_eq]
      exact max_le_max le_rfl (le_max_right _ _)
    calc max (min b high) (max a low)
        = max (max (min b (min viewportMax ownHigh)) (min b low)) (max a low) := by
          rw [h.high_eq, min_max_distrib_left]
      _ = max (min b (min viewportMax ownHigh)) (max a low) := by
          rw [max_assoc, max_eq_right hlow]
      _ = max (min viewportMax (min b ownHigh)) (max a low) := by rw [min_left_comm]
      _ = max (max (min viewportMax (min b ownHigh)) (min viewportMax (max a ownLow)))
            (max a low) := by rw [max_assoc, max_eq_right hown]
      _ = max (min viewportMax (max (min b ownHigh) (max a ownLow))) (max a low) := by
          rw [← min_max_distrib_left]
  region_le := h.region_le.trans (le_max_right _ _)
  own_le := le_max_right _ _
  own_high := by
    apply max_le
    · have hhigh := h.own_high
      apply (min_le_right _ _).trans (hhigh.trans _)
      exact max_le_max le_rfl (le_max_right _ _)
    · exact le_max_right _ _

theorem Merged.pick_low (hmin : regionMin ≤ viewportMin) :
    pick low viewportMin (min regionMin viewportMin) =
      if ownLow ≤ viewportMin then regionMin else ownLow := by
  unfold pick
  rw [min_eq_left hmin, h.low_eq]
  by_cases hlow : ownLow ≤ viewportMin
  · rw [if_pos (max_eq_left hlow), if_pos hlow]
  · rw [if_neg (fun heq => hlow (max_eq_left_iff.mp heq)), if_neg hlow,
      max_eq_right (not_le.mp hlow).le]

theorem Merged.pick_high (hlt : viewportMin < viewportMax) (hmax : viewportMax ≤ regionMax) :
    pick high viewportMax (max regionMax viewportMax) =
      if viewportMax < ownLow then ownLow
      else if viewportMax ≤ ownHigh then regionMax else max ownHigh viewportMin := by
  have hown := h.own_le
  unfold pick
  rw [max_eq_left hmax, h.high_eq, h.low_eq]
  by_cases hbeyond : viewportMax < ownLow
  · have hhigh : max (min viewportMax ownHigh) (max viewportMin ownLow) = ownLow := by
      rw [max_eq_right (hlt.trans hbeyond).le]
      exact max_eq_right ((min_le_left _ _).trans hbeyond.le)
    rw [if_pos hbeyond, hhigh, if_neg hbeyond.ne']
  · rw [if_neg hbeyond]
    by_cases hreach : viewportMax ≤ ownHigh
    · have hhigh : max (min viewportMax ownHigh) (max viewportMin ownLow) = viewportMax := by
        rw [min_eq_left hreach]
        exact max_eq_left (max_le hlt.le (not_lt.mp hbeyond))
      rw [if_pos hreach, if_pos hhigh]
    · have hinside := not_le.mp hreach
      have hhigh : max (min viewportMax ownHigh) (max viewportMin ownLow) =
          max ownHigh viewportMin := by
        rw [min_eq_right hinside.le, max_left_comm, max_eq_left hown, max_comm]
      rw [if_neg hreach, hhigh, if_neg (max_lt hinside hlt).ne]

/-- An axis of the mask noted errs just where `Misclips` says. -/
theorem Merged.pick_iff (hlt : viewportMin < viewportMax) (hmin : regionMin ≤ viewportMin)
    (hmax : viewportMax ≤ regionMax) (y : K) :
    ((pick low viewportMin (min regionMin viewportMin) ≤ y ∧
        y < pick high viewportMax (max regionMax viewportMax)) ↔ (ownLow ≤ y ∧ y < ownHigh)) ↔
      ¬ Misclips viewportMin viewportMax regionMin regionMax ownLow ownHigh y := by
  rw [h.pick_low hmin, h.pick_high hlt hmax]
  have hregion := h.region_le
  have hown := h.own_le
  have hreach := h.own_high
  unfold Misclips
  by_cases hbeyond : viewportMax < ownLow
  · -- The clips lay beyond the viewport, and nothing is noted.
    have hlow : ¬ ownLow ≤ viewportMin := not_le.mpr (hlt.trans hbeyond)
    rw [if_neg hlow, if_pos hbeyond]
    grind
  · rw [if_neg hbeyond]
    by_cases hlow : ownLow ≤ viewportMin
    · rw [if_pos hlow]
      by_cases hhigh : viewportMax ≤ ownHigh
      · rw [if_pos hhigh]
        grind
      · rw [if_neg hhigh]
        grind
    · rw [if_neg hlow]
      by_cases hhigh : viewportMax ≤ ownHigh
      · rw [if_pos hhigh]
        grind
      · rw [if_neg hhigh]
        grind

theorem Merged.pick_of_far (hlt : viewportMin < viewportMax) (hmin : regionMin ≤ viewportMin)
    (hmax : viewportMax ≤ regionMax) {y : K} (hfar : ¬ (regionMin ≤ y ∧ y < regionMax)) :
    ¬ (pick low viewportMin (min regionMin viewportMin) ≤ y ∧
        y < pick high viewportMax (max regionMax viewportMax)) ∧
      ¬ Misclips viewportMin viewportMax regionMin regionMax ownLow ownHigh y := by
  rw [h.pick_low hmin, h.pick_high hlt hmax]
  have hregion := h.region_le
  have hown := h.own_le
  have hreach := h.own_high
  unfold Misclips
  constructor
  · grind
  · grind

theorem Merged.pick_of_viewport (hmin : regionMin ≤ viewportMin) (hmax : viewportMax ≤ regionMax)
    {x : K} (hview : viewportMin ≤ x ∧ x < viewportMax) :
    (pick low viewportMin (min regionMin viewportMin) ≤ x ∧
        x < pick high viewportMax (max regionMax viewportMax)) ↔ (ownLow ≤ x ∧ x < ownHigh) := by
  apply (h.pick_iff (hview.1.trans_lt hview.2) hmin hmax x).mpr
  unfold Misclips
  rintro (⟨hle, -, hlt⟩ | ⟨hlt, -, hlt'⟩ | ⟨-, hle, hle', -⟩ | ⟨hlt, hle, -⟩)
  · exact absurd (hlt.trans_le hle) (not_lt.mpr hview.1)
  · exact absurd hlt' (not_lt.mpr hview.1)
  · exact absurd hview.2 (not_lt.mpr (hle.trans hle'))
  · exact absurd hview.2 (not_lt.mpr (hlt.le.trans hle))

end

end Axis

section Masks

@[simp]
theorem intersect_bottomRight (a b : Bounds K) : (a.intersect b).bottomRight =
    ⟨max (min a.bottomRight.x b.bottomRight.x) (max a.origin.x b.origin.x),
      max (min a.bottomRight.y b.bottomRight.y) (max a.origin.y b.origin.y)⟩ := by
  unfold Bounds.intersect
  rw [Bounds.bottomRight_fromCorners]

@[simp]
theorem intersect_origin (a b : Bounds K) : (a.intersect b).origin =
    ⟨max a.origin.x b.origin.x, max a.origin.y b.origin.y⟩ :=
  rfl

variable (nest : HitboxNest K) (mask : Bounds K)

theorem maskIn_x (x : K) :
    ((nest.maskIn mask).origin.x ≤ x ∧ x < (nest.maskIn mask).bottomRight.x) ↔
      (mask.origin.x ≤ x ∧ x < mask.bottomRight.x) ∧
        ∀ clip ∈ nest.clips, clip.origin.x ≤ x ∧ x < clip.bottomRight.x := by
  obtain ⟨bounds, clips⟩ := nest
  unfold HitboxNest.maskIn
  induction clips generalizing mask with
  | nil => simp
  | cons clip clips ih =>
    have hfold := ih (clip.intersect mask)
    simp only [foldl_cons, forall_mem_cons] at hfold ⊢
    rw [hfold, intersect_origin, intersect_bottomRight, inCommonSpan_iff]
    tauto

theorem maskIn_y (y : K) :
    ((nest.maskIn mask).origin.y ≤ y ∧ y < (nest.maskIn mask).bottomRight.y) ↔
      (mask.origin.y ≤ y ∧ y < mask.bottomRight.y) ∧
        ∀ clip ∈ nest.clips, clip.origin.y ≤ y ∧ y < clip.bottomRight.y := by
  obtain ⟨bounds, clips⟩ := nest
  unfold HitboxNest.maskIn
  induction clips generalizing mask with
  | nil => simp
  | cons clip clips ih =>
    have hfold := ih (clip.intersect mask)
    simp only [foldl_cons, forall_mem_cons] at hfold ⊢
    rw [hfold, intersect_origin, intersect_bottomRight, inCommonSpan_iff]
    tauto

theorem within_iff (p : Point K) : nest.Within p ↔
    (∀ clip ∈ nest.clips, clip.origin.x ≤ p.x ∧ p.x < clip.bottomRight.x) ∧
      ∀ clip ∈ nest.clips, clip.origin.y ≤ p.y ∧ p.y < clip.bottomRight.y := by
  unfold HitboxNest.Within Bounds.HasPoint
  exact forall₂_and

theorem hasPoint_maskIn (p : Point K) :
    (nest.maskIn mask).HasPoint p ↔ mask.HasPoint p ∧ nest.Within p := by
  rw [within_iff]
  unfold Bounds.HasPoint
  rw [maskIn_x, maskIn_y]
  tauto

theorem merged_maskIn {viewport region : Bounds K}
    (hwidth : viewport.origin.x ≤ viewport.bottomRight.x)
    (hheight : viewport.origin.y ≤ viewport.bottomRight.y) (hcovers : region.Covers viewport) :
    Merged viewport.origin.x viewport.bottomRight.x region.origin.x region.bottomRight.x
        (nest.maskIn viewport).origin.x (nest.maskIn viewport).bottomRight.x
        (nest.maskIn region).origin.x (nest.maskIn region).bottomRight.x ∧
      Merged viewport.origin.y viewport.bottomRight.y region.origin.y region.bottomRight.y
        (nest.maskIn viewport).origin.y (nest.maskIn viewport).bottomRight.y
        (nest.maskIn region).origin.y (nest.maskIn region).bottomRight.y := by
  have hfold : ∀ (clips : List (Bounds K)) (mask own : Bounds K),
      Merged viewport.origin.x viewport.bottomRight.x region.origin.x region.bottomRight.x
          mask.origin.x mask.bottomRight.x own.origin.x own.bottomRight.x →
        Merged viewport.origin.y viewport.bottomRight.y region.origin.y region.bottomRight.y
          mask.origin.y mask.bottomRight.y own.origin.y own.bottomRight.y →
        let merged := clips.foldl (fun mask clip => clip.intersect mask) mask
        let alone := clips.foldl (fun mask clip => clip.intersect mask) own
        Merged viewport.origin.x viewport.bottomRight.x region.origin.x region.bottomRight.x
            merged.origin.x merged.bottomRight.x alone.origin.x alone.bottomRight.x ∧
          Merged viewport.origin.y viewport.bottomRight.y region.origin.y region.bottomRight.y
            merged.origin.y merged.bottomRight.y alone.origin.y alone.bottomRight.y := by
    intro clips
    induction clips with
    | nil => exact fun mask own hx hy => ⟨hx, hy⟩
    | cons clip clips ih =>
      intro mask own hx hy
      apply ih (clip.intersect mask) (clip.intersect own)
      · rw [intersect_origin, intersect_bottomRight, intersect_origin, intersect_bottomRight]
        exact hx.clip _ _
      · rw [intersect_origin, intersect_bottomRight, intersect_origin, intersect_bottomRight]
        exact hy.clip _ _
  obtain ⟨⟨hleft, htop⟩, hright, hbottom⟩ := hcovers
  exact hfold nest.clips viewport region (merged_self hwidth hleft hright)
    (merged_self hheight htop hbottom)

end Masks

theorem unclip_origin (mask viewport region : Bounds K) : (unclip mask viewport region).origin =
    ⟨pick mask.origin.x viewport.origin.x (min region.origin.x viewport.origin.x),
      pick mask.origin.y viewport.origin.y (min region.origin.y viewport.origin.y)⟩ :=
  rfl

theorem unclip_bottomRight (mask viewport region : Bounds K) :
    (unclip mask viewport region).bottomRight =
      ⟨pick mask.bottomRight.x viewport.bottomRight.x
          (max region.bottomRight.x viewport.bottomRight.x),
        pick mask.bottomRight.y viewport.bottomRight.y
          (max region.bottomRight.y viewport.bottomRight.y)⟩ := by
  unfold unclip
  rw [Bounds.bottomRight_fromCorners]

/-- Where the content moves up or down only, what shows of a row lies under the mask noted for it as
it lies under its clips just where `Misclips` says it does and within reach. -/
theorem unclip_iff (nest : HitboxNest K) {viewport region : Bounds K}
    (hcovers : region.Covers viewport) {p : Point K} {shown : K}
    (hx : viewport.origin.x ≤ p.x ∧ p.x < viewport.bottomRight.x)
    (hy : viewport.origin.y ≤ shown ∧ shown < viewport.bottomRight.y) :
    ((unclip (nest.maskIn viewport) viewport region).HasPoint p ↔ nest.Within p) ↔
      ((nest.maskIn region).origin.x ≤ p.x → p.x < (nest.maskIn region).bottomRight.x →
        ¬ Misclips viewport.origin.y viewport.bottomRight.y region.origin.y region.bottomRight.y
            (nest.maskIn region).origin.y (nest.maskIn region).bottomRight.y p.y ∧
          (nest.Within p → region.HasPoint p)) := by
  have hwidth := hx.1.trans_lt hx.2
  have hheight := hy.1.trans_lt hy.2
  obtain ⟨hmx, hmy⟩ := merged_maskIn nest hwidth.le hheight.le hcovers
  obtain ⟨⟨hleft, htop⟩, hright, hbottom⟩ := hcovers
  have hnotedx := hmx.pick_of_viewport hleft hright hx
  have hregionx : region.origin.x ≤ p.x ∧ p.x < region.bottomRight.x :=
    ⟨hleft.trans hx.1, hx.2.trans_le hright⟩
  have hownx := maskIn_x nest region p.x
  have howny := maskIn_y nest region p.y
  have hiffy := hmy.pick_iff hheight htop hbottom p.y
  rw [within_iff]
  unfold Bounds.HasPoint
  rw [unclip_origin, unclip_bottomRight]
  simp only []
  rw [hnotedx, ← and_imp]
  rw [and_iff_right hregionx] at hownx
  by_cases hown : (nest.maskIn region).origin.x ≤ p.x ∧
      p.x < (nest.maskIn region).bottomRight.x
  · rw [and_iff_right hown, and_iff_right (hownx.mp hown), and_iff_right hregionx,
      forall_prop_of_true hown]
    by_cases hregiony : region.origin.y ≤ p.y ∧ p.y < region.bottomRight.y
    · rw [and_iff_right hregiony] at howny
      rw [← howny, hiffy, and_iff_left (fun _ => hregiony)]
    · obtain ⟨hnoted, hright⟩ := hmy.pick_of_far hheight htop hbottom hregiony
      rw [iff_false_left hnoted, and_iff_right hright]
      exact ⟨fun hout hin => absurd hin hout, fun hin hout => hregiony (hin hout)⟩
  · have hout : ¬ ∀ clip ∈ nest.clips, clip.origin.x ≤ p.x ∧ p.x < clip.bottomRight.x :=
      fun hin => hown (hownx.mpr hin)
    exact ⟨fun _ hin => absurd hin hown,
      fun _ => ⟨fun hin => absurd hin.1 hown, fun hin => absurd hin.1 hout⟩⟩

def LayerPainting.noting (painting : LayerPainting K) (masks : List (Bounds K)) : LayerPainting K :=
  { painting with
    input := { painting.input with hitboxMasks := painting.input.hitboxMasks ++ masks } }

omit [Field K] [LinearOrder K] in
theorem noting_noting (painting : LayerPainting K) (masks masks' : List (Bounds K)) :
    (painting.noting masks).noting masks' = painting.noting (masks ++ masks') := by
  unfold LayerPainting.noting
  rw [append_assoc]

structure Prepaints (painting : LayerPainting K) (nests : List (HitboxNest K))
    (w w' : HitboxWindow K) : Prop where
  stack : w'.contentMaskStack = w.contentMaskStack
  size : w'.viewportSize = w.viewportSize
  notes : w'.painting = some (painting.noting
    (nests.map (fun nest => painting.noted (nest.maskIn w.contentMask))))
  inserts : ∃ added, w'.hitboxes = w.hitboxes ++ added ∧
    Forall₂ (fun hitbox nest => hitbox.bounds = nest.bounds ∧
      hitbox.contentMask = (nest.maskIn w.contentMask).intersect painting.viewport) added nests

variable {w w' : HitboxWindow K} {painting : LayerPainting K}

omit [LinearOrder K] in
theorem contentMask_eq (hstack : w'.contentMaskStack = w.contentMaskStack)
    (hsize : w'.viewportSize = w.viewportSize) : w'.contentMask = w.contentMask := by
  unfold HitboxWindow.contentMask
  rw [hstack, hsize]

theorem Prepaints.trans {nests nests' : List (HitboxNest K)} {w'' : HitboxWindow K}
    (h : Prepaints painting nests w w') (h' : Prepaints (painting.noting
      (nests.map (fun nest => painting.noted (nest.maskIn w.contentMask)))) nests' w' w'') :
    Prepaints painting (nests ++ nests') w w'' := by
  have hmask := contentMask_eq h.stack h.size
  obtain ⟨added, hadded, hnests⟩ := h.inserts
  obtain ⟨added', hadded', hnests'⟩ := h'.inserts
  have hnotes := h'.notes
  rw [hmask] at hnests' hnotes
  rw [noting_noting] at hnotes
  refine ⟨h'.stack.trans h.stack, h'.size.trans h.size, ?_, added ++ added', ?_, ?_⟩
  · rw [map_append]
    exact hnotes
  · rw [hadded', hadded, append_assoc]
  · exact rel_append hnests hnests'

theorem insertHitbox_prepaints (hpainting : w.painting = some painting) (bounds : Bounds K)
    (behavior : HitboxBehavior) :
    Prepaints painting [⟨bounds, []⟩] w (w.insertHitbox bounds behavior) := by
  unfold HitboxWindow.insertHitbox HitboxWindow.hitboxMask
  rw [hpainting]
  refine ⟨rfl, rfl, rfl, _, rfl, ?_⟩
  exact Forall₂.cons ⟨rfl, rfl⟩ Forall₂.nil

theorem prepaint_prepaints (scrollOffset : Point K) (content : HitboxContent K) (w : HitboxWindow K)
    (hpainting : w.painting = some painting) :
    Prepaints painting (content.nests.map (·.translate scrollOffset)) w
      (w.prepaint scrollOffset content) := by
  induction content generalizing w painting with
  | nil =>
    refine ⟨rfl, rfl, ?_, [], (append_nil _).symm, Forall₂.nil⟩
    unfold HitboxWindow.prepaint LayerPainting.noting
    rw [hpainting]
    simp [HitboxContent.nests]
  | hitbox bounds behavior rest ih =>
    have hfirst := insertHitbox_prepaints hpainting (bounds.translate scrollOffset) behavior
    exact hfirst.trans (ih _ hfirst.notes)
  | clip mask inner rest ihinner ihrest =>
    have hinner := ihinner
      { w with contentMaskStack :=
          (mask.translate scrollOffset).intersect w.contentMask :: w.contentMaskStack } hpainting
    have hclipped : Prepaints painting
        ((inner.nests.map (fun nest : HitboxNest K =>
          { nest with clips := mask :: nest.clips })).map (·.translate scrollOffset)) w
        { HitboxWindow.prepaint scrollOffset inner
            { w with contentMaskStack :=
              (mask.translate scrollOffset).intersect w.contentMask :: w.contentMaskStack } with
          contentMaskStack := (HitboxWindow.prepaint scrollOffset inner
            { w with contentMaskStack := (mask.translate scrollOffset).intersect w.contentMask ::
              w.contentMaskStack }).contentMaskStack.tail } := by
      obtain ⟨added, hadded, hnests⟩ := hinner.inserts
      refine ⟨?_, hinner.size, ?_, added, hadded, ?_⟩
      · simp only [hinner.stack, tail_cons]
      · have hnotes := hinner.notes
        simp only [map_map] at hnotes ⊢
        exact hnotes
      · rw [map_map, forall₂_map_right_iff]
        exact forall₂_map_right_iff.mp hnests
    have hboth := hclipped.trans (ihrest _ hclipped.notes)
    rw [← map_append] at hboth
    exact hboth

theorem Prepaints.kept {nests : List (HitboxNest K)} {before : HitboxWindow K}
    (h : Prepaints painting nests w w') (hhitboxes : before.hitboxes = w.hitboxes)
    (hpainting : before.painting = some painting) {i : ℕ} {nest : HitboxNest K}
    (hnest : nests[i]? = some nest) :
    ∃ hitbox, (w'.since before).inserted[i]? = some hitbox ∧ hitbox.bounds = nest.bounds ∧
      hitbox.contentMask = (nest.maskIn w.contentMask).intersect painting.viewport ∧
      (w'.since before).hitboxes[i]? = some { hitbox with
        contentMask := painting.noted (nest.maskIn w.contentMask) } := by
  obtain ⟨added, hadded, hnests⟩ := h.inserts
  have hinserted : (w'.since before).inserted = added := by
    unfold HitboxWindow.since
    rw [hadded, hhitboxes]
    exact drop_left
  have hmasks : (w'.since before).masks =
      nests.map (fun nest => painting.noted (nest.maskIn w.contentMask)) := by
    unfold HitboxWindow.since
    rw [h.notes, hpainting]
    exact drop_left
  have hlength : added.length = nests.length := hnests.length_eq
  have hlt : i < nests.length := (List.getElem?_eq_some_iff.mp hnest).1
  have hget := (List.forall₂_iff_get.mp hnests).2 i (hlength ▸ hlt) hlt
  have hat : nests.get ⟨i, hlt⟩ = nest := by
    rw [getElem?_eq_getElem hlt] at hnest
    exact Option.some.inj hnest
  rw [hat] at hget
  refine ⟨added.get ⟨i, hlength ▸ hlt⟩, ?_, hget.1, hget.2, ?_⟩
  · rw [hinserted]
    exact getElem?_eq_getElem _
  · unfold Prepainted.hitboxes
    rw [hinserted, hmasks, length_map, if_pos hlength.symm, getElem?_zipWith,
      getElem?_map, hnest, getElem?_eq_getElem (hlength ▸ hlt)]
    rfl

structure PaintsRows (painting : LayerPainting K) (w w' : HitboxWindow K) : Prop where
  mask : w'.contentMask = w.contentMask
  notes : ∃ masks, w'.painting = some (painting.noting masks)

theorem prepaintRow_prepaints (hpainting : w.painting = some painting) (bounds : Bounds K)
    (scrollOffset : Point K) (row : HitboxContent K) :
    Prepaints painting (row.nests.map (·.translate scrollOffset))
      { w with contentMaskStack := bounds.intersect w.contentMask :: w.contentMaskStack }
      (HitboxWindow.prepaint scrollOffset row
        { w with contentMaskStack := bounds.intersect w.contentMask :: w.contentMaskStack }) :=
  prepaint_prepaints scrollOffset row _ hpainting

theorem prepaintRow_paintsRows (hpainting : w.painting = some painting) (bounds : Bounds K)
    (scrollOffset : Point K) (row : HitboxContent K) :
    PaintsRows painting w (w.prepaintRow bounds scrollOffset row).1 := by
  have hrow := prepaintRow_prepaints hpainting bounds scrollOffset row
  refine ⟨contentMask_eq ?_ hrow.size, _, hrow.notes⟩
  unfold HitboxWindow.prepaintRow
  simp only [hrow.stack, tail_cons]

theorem prepaintRows_paintsRows (bounds : Bounds K) (scrollOffset : Point K)
    (rows : List (HitboxContent K)) (w : HitboxWindow K) (hpainting : w.painting = some painting) :
    PaintsRows painting w (w.prepaintRows bounds scrollOffset rows) := by
  induction rows generalizing w painting with
  | nil =>
    refine ⟨rfl, [], ?_⟩
    unfold HitboxWindow.prepaintRows LayerPainting.noting
    rw [append_nil]
    exact hpainting
  | cons row rows ih =>
    have hrow := prepaintRow_paintsRows hpainting bounds scrollOffset row
    obtain ⟨masks, hmasks⟩ := hrow.notes
    have hrows := ih _ hmasks
    obtain ⟨masks', hmasks'⟩ := hrows.notes
    refine ⟨hrows.mask.trans hrow.mask, masks ++ masks', ?_⟩
    rw [noting_noting] at hmasks'
    exact hmasks'

theorem hit_iff (hitbox : Hitbox K) (p : Point K) : hitbox.hit p = true ↔
    hitbox.bounds.HasPoint p ∧ hitbox.contentMask.HasPoint p := by
  rw [← Bounds.hasPoint_intersect]
  unfold Hitbox.hit Bounds.contains Bounds.HasPoint
  simp only [Bool.and_eq_true, decide_eq_true_eq, Bounds.bottomRight_x, Bounds.bottomRight_y,
    and_assoc]

section Moved

variable [IsStrictOrderedRing K]

theorem hasPoint_translate (b : Bounds K) (delta p : Point K) :
    (b.translate delta).HasPoint ⟨p.x + delta.x, p.y + delta.y⟩ ↔ b.HasPoint p := by
  unfold Bounds.HasPoint Bounds.translate
  simp only [Bounds.bottomRight_x, Bounds.bottomRight_y, add_right_comm _ delta.x,
    add_right_comm _ delta.y, add_le_add_iff_right, add_lt_add_iff_right]

theorem within_translate (nest : HitboxNest K) (delta p : Point K) :
    (nest.translate delta).Within ⟨p.x + delta.x, p.y + delta.y⟩ ↔ nest.Within p := by
  unfold HitboxNest.Within HitboxNest.translate
  simp only [forall_mem_map, hasPoint_translate]

omit [LinearOrder K] [IsStrictOrderedRing K] in
theorem translate_between (b : Bounds K) (s s' : Point K) :
    b.translate s' = (b.translate s).translate ⟨s'.x - s.x, s'.y - s.y⟩ := by
  unfold Bounds.translate
  simp only [add_add_sub_cancel]

omit [LinearOrder K] [IsStrictOrderedRing K] in
theorem nest_translate_between (nest : HitboxNest K) (s s' : Point K) :
    nest.translate s' = (nest.translate s).translate ⟨s'.x - s.x, s'.y - s.y⟩ := by
  unfold HitboxNest.translate
  rw [← translate_between, map_map]
  congr 1
  apply map_congr_left
  intro clip _
  exact translate_between clip s s'

variable {i : ℕ} {nest : HitboxNest K}

/-- A carried hitbox is hit where the fresh one is when, as far as their bounds go, the mask noted
and the viewport come to the fresh one's mask. -/
theorem hitsAlike_iff_masks {painted fresh : Prepainted K} {delta : Point K}
    {viewport noted mask : Bounds K} {kept inserted : Hitbox K}
    (hkept : painted.hitboxes[i]? = some kept) (hbounds : kept.bounds = nest.bounds)
    (hnoted : kept.contentMask = noted) (hinserted : fresh.inserted[i]? = some inserted)
    (hfresh : inserted.bounds = nest.bounds.translate delta) (hmask : inserted.contentMask = mask) :
    HitsAlike painted fresh delta viewport i ↔ ∀ p, nest.bounds.HasPoint p →
      ((noted.HasPoint p ∧ viewport.HasPoint ⟨p.x + delta.x, p.y + delta.y⟩) ↔
        mask.HasPoint ⟨p.x + delta.x, p.y + delta.y⟩) := by
  have hcarried : (hitboxesAt painted.hitboxes delta viewport)[i]? = some { kept with
      bounds := nest.bounds.translate delta
      contentMask := (noted.translate delta).intersect viewport } := by
    unfold hitboxesAt
    rw [getElem?_map, hkept, ← hbounds, ← hnoted]
    rfl
  have hpoint : ∀ p : Point K, (Hitbox.hit { kept with
        bounds := nest.bounds.translate delta
        contentMask := (noted.translate delta).intersect viewport }
          ⟨p.x + delta.x, p.y + delta.y⟩ =
        inserted.hit ⟨p.x + delta.x, p.y + delta.y⟩) ↔ (nest.bounds.HasPoint p →
      ((noted.HasPoint p ∧ viewport.HasPoint ⟨p.x + delta.x, p.y + delta.y⟩) ↔
        mask.HasPoint ⟨p.x + delta.x, p.y + delta.y⟩)) := by
    intro p
    rw [Bool.eq_iff_iff, hit_iff, hit_iff, hfresh, hmask]
    simp only [Bounds.hasPoint_intersect, hasPoint_translate]
    exact and_congr_right_iff
  constructor
  · rintro ⟨carried, inserted', hget, hget', hall⟩ p
    rw [hcarried] at hget
    rw [hinserted] at hget'
    cases hget
    cases hget'
    exact (hpoint p).mp (hall _)
  · intro hall
    refine ⟨_, inserted, hcarried, hinserted, ?_⟩
    intro p
    have hat := (hpoint ⟨p.x - delta.x, p.y - delta.y⟩).mpr (hall _)
    simp only [sub_add_cancel] at hat
    exact hat

omit [IsStrictOrderedRing K] in
theorem hasPoint_paintedRegion (div : ScrolledDiv K) (viewport : Bounds K)
    (scrollOffset : Point K) {p : Point K} (hp : viewport.HasPoint p) :
    (div.paintedRegion viewport scrollOffset).HasPoint p := by
  have haxis : ∀ (overflow : Overflow) (viewportMin extent contentMin contentExtent x : K),
      viewportMin ≤ x ∧ x < viewportMin + extent →
      (ScrollLayer.paintedAxis overflow viewportMin extent contentMin contentExtent).1 ≤ x ∧
        x < (ScrollLayer.paintedAxis overflow viewportMin extent contentMin contentExtent).1 +
          (ScrollLayer.paintedAxis overflow viewportMin extent contentMin contentExtent).2 := by
    intro overflow viewportMin extent contentMin contentExtent x hx
    unfold ScrollLayer.paintedAxis
    split
    case isTrue =>
      unfold ScrollLayer.extend
      simp only [add_sub_cancel]
      exact ⟨(min_le_right _ _).trans hx.1, hx.2.trans_le (le_max_right _ _)⟩
    case isFalse => exact hx
  exact ⟨haxis _ _ _ _ _ _ hp.1, haxis _ _ _ _ _ _ hp.2⟩

theorem prepaintChildren_hitsAlike_iff {w v : HitboxWindow K}
    (hmask : v.contentMask = w.contentMask) (div : ScrolledDiv K) (s s' : Point K)
    {content : HitboxContent K} (hnest : content.nests[i]? = some nest) :
    HitsAlike (w.prepaintChildren div s content).2 (v.prepaintChildren div s' content).2
        ⟨s'.x - s.x, s'.y - s.y⟩ v.contentMask i ↔
      (nest.translate s).ShowsPainted w.contentMask (div.paintedRegion w.contentMask s)
        ⟨s'.x - s.x, s'.y - s.y⟩ := by
  have hat : ∀ t : Point K, (content.nests.map (·.translate t))[i]? = some (nest.translate t) := by
    intro t
    rw [getElem?_map, hnest]
    rfl
  obtain ⟨painted, _, hbounds, _, hkept⟩ :=
    (prepaint_prepaints s content { w with
      painting := some ⟨w.contentMask, div.paintedRegion w.contentMask s, ⟨[], none⟩⟩
      contentMaskStack := div.paintedRegion w.contentMask s :: w.contentMaskStack } rfl).kept
      rfl rfl (hat s)
  obtain ⟨fresh, hfresh, hbounds', hmask', _⟩ :=
    (prepaint_prepaints s' content { v with
      painting := some ⟨v.contentMask, div.paintedRegion v.contentMask s', ⟨[], none⟩⟩
      contentMaskStack := div.paintedRegion v.contentMask s' :: v.contentMaskStack } rfl).kept
      rfl rfl (hat s')
  rw [nest_translate_between nest s s'] at hbounds' hmask'
  refine (hitsAlike_iff_masks hkept hbounds rfl hfresh hbounds' hmask').trans ?_
  unfold HitboxNest.ShowsPainted
  apply forall_congr'
  intro p
  apply imp_congr_right
  intro _
  have hnoted : ((nest.translate s).maskIn (div.paintedRegion w.contentMask s)).HasPoint p ↔
      (div.paintedRegion w.contentMask s).HasPoint p ∧ (nest.translate s).Within p :=
    hasPoint_maskIn _ _ p
  have hregion := @hasPoint_paintedRegion K _ _ div v.contentMask s'
    ⟨p.x + (s'.x - s.x), p.y + (s'.y - s.y)⟩
  rw [Bounds.hasPoint_intersect, hasPoint_maskIn, within_translate _ ⟨s'.x - s.x, s'.y - s.y⟩ p]
  rw [hmask] at *
  constructor
  · intro halike hview hwithin
    exact (hnoted.mp (halike.mpr ⟨⟨hregion hview, hwithin⟩, hview⟩).1).1
  · intro hshows
    constructor
    · rintro ⟨hin, hview⟩
      exact ⟨⟨hregion hview, (hnoted.mp hin).2⟩, hview⟩
    · rintro ⟨⟨-, hwithin⟩, hview⟩
      exact ⟨hnoted.mpr ⟨hshows hview hwithin, hwithin⟩, hview⟩

omit [IsStrictOrderedRing K] in
theorem intersect_comm (a b : Bounds K) : a.intersect b = b.intersect a := by
  unfold Bounds.intersect
  simp only [max_comm, min_comm]

theorem rowsRegion_covers (paintedRegion viewport : Bounds K) :
    (rowsRegion paintedRegion viewport).Covers viewport := by
  have hreach : (0 : K) ≤ REACH := by
    unfold REACH
    norm_num
  unfold rowsRegion Bounds.Covers Bounds.union
  rw [Bounds.bottomRight_fromCorners, Bounds.bottomRight_fromCorners]
  refine ⟨⟨min_le_right _ _, ?_⟩, le_max_right _ _, ?_⟩
  · exact (sub_le_self _ hreach).trans (min_le_right _ _)
  · exact (le_max_right _ _).trans (le_add_of_nonneg_right hreach)

theorem prepaintRow_hitsAlike_iff {w v : HitboxWindow K} (hmask : v.contentMask = w.contentMask)
    (bounds paintedRegion paintedRegion' : Bounds K) (before before' : List (HitboxContent K))
    {s s' : Point K} (hx : s'.x = s.x) {row : HitboxContent K} (hnest : row.nests[i]? = some nest) :
    HitsAlike
        (((w.beginList bounds paintedRegion).prepaintRows bounds s before).prepaintRow
          bounds s row).2
        (((v.beginList bounds paintedRegion').prepaintRows bounds s' before').prepaintRow
          bounds s' row).2 ⟨s'.x - s.x, s'.y - s.y⟩ (v.contentMask.intersect bounds) i ↔
      (nest.translate s).KeepsClips (w.contentMask.intersect bounds)
        (rowsRegion paintedRegion (w.contentMask.intersect bounds)) ⟨s'.x - s.x, s'.y - s.y⟩ := by
  have hat : ∀ t : Point K, (row.nests.map (·.translate t))[i]? = some (nest.translate t) := by
    intro t
    rw [getElem?_map, hnest]
    rfl
  have hrows := prepaintRows_paintsRows bounds s before (w.beginList bounds paintedRegion) rfl
  have hrows' := prepaintRows_paintsRows bounds s' before' (v.beginList bounds paintedRegion') rfl
  obtain ⟨masks, hmasks⟩ := hrows.notes
  obtain ⟨masks', hmasks'⟩ := hrows'.notes
  have hview : bounds.intersect
      ((w.beginList bounds paintedRegion).prepaintRows bounds s before).contentMask =
        w.contentMask.intersect bounds := by
    rw [hrows.mask]
    exact intersect_comm _ _
  have hview' : bounds.intersect
      ((v.beginList bounds paintedRegion').prepaintRows bounds s' before').contentMask =
        w.contentMask.intersect bounds := by
    rw [hrows'.mask, ← hmask]
    exact intersect_comm _ _
  obtain ⟨painted, _, hbounds, _, hkept⟩ :=
    (prepaintRow_prepaints hmasks bounds s row).kept rfl hmasks (hat s)
  obtain ⟨fresh, hfresh, hbounds', hmask', _⟩ :=
    (prepaintRow_prepaints hmasks' bounds s' row).kept rfl hmasks' (hat s')
  rw [nest_translate_between nest s s'] at hbounds' hmask'
  have hfreshMask : fresh.contentMask = (((nest.translate s).translate
      ⟨s'.x - s.x, s'.y - s.y⟩).maskIn (w.contentMask.intersect bounds)).intersect
        (v.contentMask.intersect bounds) := by
    rw [hmask', ← hview']
    rfl
  have hnoted : ∀ masks : List (Bounds K), (LayerPainting.noting
      (⟨w.contentMask.intersect bounds, paintedRegion,
        ⟨[], some (rowsRegion paintedRegion (w.contentMask.intersect bounds))⟩⟩ :
          LayerPainting K) masks).noted ((nest.translate s).maskIn (bounds.intersect
            ((w.beginList bounds paintedRegion).prepaintRows bounds s before).contentMask)) =
      unclip ((nest.translate s).maskIn (w.contentMask.intersect bounds))
        (w.contentMask.intersect bounds)
        (rowsRegion paintedRegion (w.contentMask.intersect bounds)) := by
    intro masks
    rw [hview]
    rfl
  refine (hitsAlike_iff_masks hkept hbounds (hnoted masks) hfresh hbounds' hfreshMask).trans ?_
  rw [hmask]
  generalize w.contentMask.intersect bounds = viewport at *
  have hcovers := rowsRegion_covers paintedRegion viewport
  unfold HitboxNest.KeepsClips
  apply forall_congr'
  intro p
  apply imp_congr_right
  intro _
  rw [Bounds.hasPoint_intersect, hasPoint_maskIn, within_translate _ ⟨s'.x - s.x, s'.y - s.y⟩ p]
  by_cases hshown : viewport.HasPoint ⟨p.x + (s'.x - s.x), p.y + (s'.y - s.y)⟩
  · have hpx : viewport.origin.x ≤ p.x ∧ p.x < viewport.bottomRight.x := by
      have hspan := hshown.1
      simp only [hx, sub_self, add_zero] at hspan
      exact hspan
    rw [forall_prop_of_true hshown, ← unclip_iff (nest.translate s) hcovers hpx hshown.2,
      and_iff_left hshown, and_iff_right hshown, and_iff_left hshown]
  · exact ⟨fun _ hin => absurd hin hshown,
      fun _ => ⟨fun hin => absurd hin.2 hshown, fun hin => absurd hin.2 hshown⟩⟩

end Moved

/-- A carried hitbox of a scrolled container is hit where the fresh one would be if and only if what
shows of it was in the region painted; one of a list's row if and only if nothing shows of it where
taking the viewport out of its clips errs. -/
theorem hitsAlike_iff [IsStrictOrderedRing K] {w v : HitboxWindow K}
    (hmask : v.contentMask = w.contentMask) (s s' : Point K) (content : HitboxContent K) (i : ℕ)
    (nest : HitboxNest K) (hnest : content.nests[i]? = some nest) :
    (∀ div : ScrolledDiv K,
      HitsAlike (w.prepaintChildren div s content).2 (v.prepaintChildren div s' content).2
          ⟨s'.x - s.x, s'.y - s.y⟩ v.contentMask i ↔
        (nest.translate s).ShowsPainted w.contentMask (div.paintedRegion w.contentMask s)
          ⟨s'.x - s.x, s'.y - s.y⟩) ∧
      ∀ (bounds paintedRegion paintedRegion' : Bounds K) (before before' : List (HitboxContent K)),
        s'.x = s.x →
          (HitsAlike
              (((w.beginList bounds paintedRegion).prepaintRows bounds s before).prepaintRow
                bounds s content).2
              (((v.beginList bounds paintedRegion').prepaintRows bounds s' before').prepaintRow
                bounds s' content).2 ⟨s'.x - s.x, s'.y - s.y⟩ (v.contentMask.intersect bounds) i ↔
            (nest.translate s).KeepsClips (w.contentMask.intersect bounds)
              (rowsRegion paintedRegion (w.contentMask.intersect bounds))
              ⟨s'.x - s.x, s'.y - s.y⟩) := by
  constructor
  · intro div
    exact prepaintChildren_hitsAlike_iff hmask div s s' hnest
  · intro bounds paintedRegion paintedRegion' before before' hx
    exact prepaintRow_hitsAlike_iff hmask bounds paintedRegion paintedRegion' before before' hx
      hnest

def smallWindow : HitboxWindow ℚ := ⟨[], ⟨100, 100⟩, none, [], 0⟩

/-- A row that clips a tall hitbox to a card `height` tall at `top`. -/
def cardRow (top height : ℚ) : HitboxContent ℚ :=
  .clip ⟨⟨0, top⟩, ⟨100, height⟩⟩ (.hitbox ⟨⟨0, top⟩, ⟨100, 200⟩⟩ .normal .nil) .nil

def prepaintCard (top height scrollY : ℚ) : Prepainted ℚ :=
  ((smallWindow.beginList ⟨⟨0, 0⟩, ⟨100, 100⟩⟩ ⟨⟨0, 0⟩, ⟨100, 300⟩⟩).prepaintRow
    ⟨⟨0, 0⟩, ⟨100, 100⟩⟩ ⟨0, scrollY⟩ (cardRow top height)).2

theorem hitsAlike_iff_card : HitsAlike (prepaintCard 20 50 0) (prepaintCard 20 50 (-10))
    ⟨0 - 0, -10 - 0⟩ (smallWindow.contentMask.intersect ⟨⟨0, 0⟩, ⟨100, 100⟩⟩) 0 := by
  refine ((hitsAlike_iff (K := ℚ) rfl ⟨0, 0⟩ ⟨0, -10⟩ (cardRow 20 50) 0
    ⟨⟨⟨0, 20⟩, ⟨100, 200⟩⟩, [⟨⟨0, 20⟩, ⟨100, 50⟩⟩]⟩ rfl).2 ⟨⟨0, 0⟩, ⟨100, 100⟩⟩
      ⟨⟨0, 0⟩, ⟨100, 300⟩⟩ ⟨⟨0, 0⟩, ⟨100, 300⟩⟩ [] [] rfl).mpr ?_
  have hview : smallWindow.contentMask.intersect ⟨⟨0, 0⟩, ⟨100, 100⟩⟩ =
      ⟨⟨0, 0⟩, ⟨100, 100⟩⟩ := by with_unfolding_all decide
  have hregion : rowsRegion (⟨⟨0, 0⟩, ⟨100, 300⟩⟩ : Bounds ℚ) ⟨⟨0, 0⟩, ⟨100, 100⟩⟩ =
      ⟨⟨0, -1000000⟩, ⟨100, 2000300⟩⟩ := by with_unfolding_all decide
  have hown : (HitboxNest.translate (⟨⟨⟨0, 20⟩, ⟨100, 200⟩⟩, [⟨⟨0, 20⟩, ⟨100, 50⟩⟩]⟩ :
      HitboxNest ℚ) ⟨0, 0⟩).maskIn ⟨⟨0, -1000000⟩, ⟨100, 2000300⟩⟩ =
        ⟨⟨0, 20⟩, ⟨100, 50⟩⟩ := by with_unfolding_all decide
  rw [hview, hregion]
  unfold HitboxNest.KeepsClips
  rw [hown]
  intro p hbounds _ _ _
  constructor
  · unfold Misclips
    norm_num
  · intro _
    obtain ⟨⟨hleft, hright⟩, htop, hbottom⟩ := hbounds
    simp only [HitboxNest.translate, Bounds.translate, Bounds.bottomRight_x,
      Bounds.bottomRight_y] at hleft hright htop hbottom
    refine ⟨⟨?_, ?_⟩, ?_, ?_⟩
    · linarith
    · simp only [Bounds.bottomRight_x]
      linarith
    · simp only []
      linarith
    · simp only [Bounds.bottomRight_y]
      linarith

theorem hitsAlike_cutCard :
    (ScrollLayer.LayerRecord.covers
      (⟨⟨⟨0, 0⟩, ⟨100, 300⟩⟩, ⟨⟨0, 0⟩, ⟨100, 100⟩⟩, ⟨0, 0⟩, false, false, false⟩ :
        ScrollLayer.LayerRecord ℚ) ⟨⟨0, 0⟩, ⟨100, 100⟩⟩ ⟨100, 100⟩ ⟨0, -50⟩ = true) ∧
    ¬ HitsAlike (prepaintCard 80 50 0) (prepaintCard 80 50 (-50)) ⟨0 - 0, -50 - 0⟩
      (smallWindow.contentMask.intersect ⟨⟨0, 0⟩, ⟨100, 100⟩⟩) 0 := by
  refine ⟨by with_unfolding_all decide, ?_⟩
  rintro ⟨carried, inserted, hcarried, hinserted, hall⟩
  have hhit : (hitboxesAt (prepaintCard 80 50 0).hitboxes ⟨0 - 0, -50 - 0⟩
      (smallWindow.contentMask.intersect ⟨⟨0, 0⟩, ⟨100, 100⟩⟩))[0]?.map (·.hit ⟨50, 90⟩) =
        some true := by decide +kernel
  have hmiss : (prepaintCard 80 50 (-50)).inserted[0]?.map (·.hit ⟨50, 90⟩) = some false := by
    decide +kernel
  rw [hcarried] at hhit
  rw [hinserted] at hmiss
  simp only [Option.map_some, Option.some.injEq] at hhit hmiss
  rw [hall, hmiss] at hhit
  cases hhit

end LayerInput

end GpuiFast
