import GpuiFast.LayerFollowHolds

namespace GpuiFast

open List

open FrameRange

namespace RecordLayer

def afterPrepaint (frame : ℕ) (copies : List (FrameCopy PrepaintList)) (layer : RecordLayer) :
    RecordLayer :=
  copies.foldl (fun layer copy => layer.followPrepaint frame copy.source copy.target) layer

def afterPaint (frame : ℕ) (copies : List (FrameCopy PaintList)) (layer : RecordLayer) :
    RecordLayer :=
  copies.foldl (fun layer copy => layer.followPaint frame copy.source copy.target) layer

def AtCopy (window : LayerWindow) (before after : RecordLayer) : Prop :=
  ∃ record ∈ before.record, ∃ copied ∈ after.record,
    window.prepainted.CopyOf record.prepaintRange copied.prepaintRange ∧
    window.painted.CopyOf record.paintRange copied.paintRange ∧
    Forall₂ (fun row copy => window.prepainted.CopyOf row.prepaint copy.prepaint ∧
      window.painted.CopyOf row.paint copy.paint) before.rows after.rows

def CarriedOnce (window : LayerWindow) (prepaint : List (FrameStep PrepaintList))
    (paint : List (FrameStep PaintList)) (layer : RecordLayer) : Prop :=
  ∀ record ∈ layer.record, layer.Current window.frame →
    (∃ copy ∈ window.prepainted.copies prepaint,
      record.prepaintRange.Inside PrepaintList.compared copy.source) →
    (∃ copy ∈ window.painted.copies paint,
      record.paintRange.Inside PaintList.compared copy.source) →
    (record.prepaintRange.Empty ∨
      record.prepaintRange.CarriedOnce PrepaintList.compared (window.prepainted.copies prepaint)) ∧
    (record.paintRange.Empty ∨
      record.paintRange.CarriedOnce PaintList.compared (window.painted.copies paint))

variable {frame : ℕ} {layer : RecordLayer}

variable (copies : List (FrameCopy PrepaintList)) {record : RangeRecord}

lemma afterPrepaint_eq (hrecord : layer.record = some record) (hlist : layer.list = true)
    (hcurrent : layer.Current frame) :
    layer.afterPrepaint frame copies =
      { layer with
        record := some { record with
          prepaintRange := record.prepaintRange.carried
            (carriers PrepaintList.compared copies record.prepaintRange) }
        rows := layer.rows.map fun row => { row with
          prepaint := row.prepaint.carried
            (carriers PrepaintList.compared copies record.prepaintRange) }
        prepaintFollowed :=
          if carriers PrepaintList.compared copies record.prepaintRange = [] then
            layer.prepaintFollowed
          else some frame } := by
  induction copies generalizing layer record with
  | nil =>
    obtain ⟨_, _, rows, _, _, _⟩ := layer
    simp only at hrecord
    simp [afterPrepaint, carriers, carried, hrecord]
  | cons copy copies ih =>
    rw [afterPrepaint, foldl_cons, ← afterPrepaint, followPrepaint, hrecord, carriers]
    by_cases hinside : record.prepaintRange.Inside PrepaintList.compared copy.source
    · simp only [if_pos hinside, if_pos (And.intro hcurrent (And.intro hlist hinside))]
      rw [@ih { layer with
        record := some
          { record with
            prepaintRange := record.prepaintRange.shifted copy.source.start copy.target }
        rows := layer.rows.map fun row =>
          { row with prepaint := row.prepaint.shifted copy.source.start copy.target }
        prepaintFollowed := some frame } _ rfl hlist hcurrent]
      simp [carried, Function.comp_def]
    · simp only [if_neg hinside, if_neg fun h : _ ∧ _ ∧ _ => hinside h.2.2]
      exact ih hrecord hlist hcurrent

lemma afterPrepaint_of_not (h : layer.record = none ∨ layer.list = false ∨ ¬layer.Current frame) :
    layer.afterPrepaint frame copies = layer := by
  induction copies with
  | nil => rfl
  | cons copy copies ih =>
    have hstep : layer.followPrepaint frame copy.source copy.target = layer := by
      rw [followPrepaint]
      split
      · rfl
      case h_2 record hrecord =>
        rw [if_neg]
        rintro ⟨hcurrent, hlist, -⟩
        rcases h with h | h | h <;> simp_all
    rw [afterPrepaint, foldl_cons, hstep]
    exact ih

lemma afterPaint_eq (copies : List (FrameCopy PaintList)) (hrecord : layer.record = some record)
    (hfollowed : layer.prepaintFollowed = some frame) :
    layer.afterPaint frame copies =
      { layer with
        record := some { record with
          paintRange := record.paintRange.carried
            (carriers PaintList.compared copies record.paintRange) }
        rows := layer.rows.map fun row => { row with
          paint := row.paint.carried (carriers PaintList.compared copies record.paintRange) }
        rangesFrame :=
          if carriers PaintList.compared copies record.paintRange = [] then layer.rangesFrame
          else some frame } := by
  induction copies generalizing layer record with
  | nil =>
    obtain ⟨_, _, rows, _, _, _⟩ := layer
    simp only at hrecord
    simp [afterPaint, carriers, carried, hrecord]
  | cons copy copies ih =>
    rw [afterPaint, foldl_cons, ← afterPaint, followPaint, if_pos hfollowed, hrecord, carriers]
    by_cases hinside : record.paintRange.Inside PaintList.compared copy.source
    · simp only [if_pos hinside]
      rw [@ih { layer with
        record := some
          { record with paintRange := record.paintRange.shifted copy.source.start copy.target }
        rows := layer.rows.map fun row =>
          { row with paint := row.paint.shifted copy.source.start copy.target }
        rangesFrame := some frame } _ rfl hfollowed]
      simp [carried, Function.comp_def]
    · simp only [if_neg hinside]
      exact ih hrecord hfollowed

lemma afterPaint_of_not (copies : List (FrameCopy PaintList))
    (h : layer.prepaintFollowed ≠ some frame) : layer.afterPaint frame copies = layer := by
  induction copies with
  | nil => rfl
  | cons copy copies ih =>
    rw [afterPaint, foldl_cons, followPaint, if_neg h]
    exact ih

end RecordLayer

namespace FrameEntries

variable {ι : Type*} [Fintype ι] {entries : FrameEntries ι} {steps : List (FrameStep ι)}
  {compared : ι → Bool} {range inner : FrameRange ι}

omit [Fintype ι] in
lemma empty_carried (h : range.Empty) (copies : List (FrameCopy ι)) :
    (range.carried copies).Empty := by
  induction copies generalizing range with
  | nil => exact h
  | cons copy copies ih =>
    apply ih
    intro list
    have := h list
    simp only [shifted, shiftedIndex]
    omega

omit [Fintype ι] in
lemma copyOf_of_empty (h : inner.Empty) (copies : List (FrameCopy ι)) :
    entries.CopyOf inner (inner.carried copies) := by
  intro list
  rw [Nat.sub_eq_zero_of_le (h list), Nat.sub_eq_zero_of_le (empty_carried h copies list)]
  rfl

lemma copyOf_carried (honce : range.Empty ∨ range.CarriedOnce compared (entries.copies steps))
    (hcarried : carriers compared (entries.copies steps) range ≠ [])
    (hnested : ∀ copy ∈ entries.copies steps, range.Inside compared copy.source →
      range.Within copy.source) (hinner : inner.Within range) :
    (entries.drawn steps).CopyOf inner
      (inner.carried (carriers compared (entries.copies steps) range)) := by
  rcases honce with hempty | honce
  · refine copyOf_of_empty (fun list => ?_) _
    have := hempty list
    have := hinner list
    omega
  · obtain ⟨first, rest, hcarriers⟩ := exists_cons_of_ne_nil hcarried
    have hlength := carriers_length_le_one_iff.mpr honce
    rw [hcarriers, length_cons] at hlength
    obtain rfl : rest = [] := length_eq_zero_iff.mp (by omega)
    have hmem : first ∈ entries.copies steps :=
      (carriers_sublist _ range).subset (by rw [hcarriers]; exact mem_cons_self)
    have hwithin := hnested first hmem (inside_of_carriers hcarriers)
    rw [hcarriers]
    refine copyOf_shifted hmem fun list => ?_
    have := hinner list
    have := hwithin list
    omega

lemma not_copyOf_carried (hempty : ∀ list, entries list = [])
    (hdisjoint : (entries.copies steps).Pairwise fun copy later =>
      copy.source.Disjoint later.source)
    (hnested : ∀ copy ∈ entries.copies steps, range.Inside compared copy.source →
      range.Within copy.source)
    (hagain : ¬(range.Empty ∨ range.CarriedOnce compared (entries.copies steps))) :
    ¬(entries.drawn steps).CopyOf range
      (range.carried (carriers compared (entries.copies steps) range)) := by
  rw [not_or, ← carriers_length_le_one_iff] at hagain
  obtain ⟨hsome, hlength⟩ := hagain
  obtain ⟨list, hlist⟩ : ∃ list, range.start list < range.stop list := by
    by_contra hnone
    exact hsome fun list => by
      by_contra hlt
      exact hnone ⟨list, by omega⟩
  obtain ⟨first, rest, hcarriers⟩ := exists_cons_of_ne_nil
    (show carriers compared (entries.copies steps) range ≠ [] by
      rintro hnil
      rw [hnil] at hlength
      simp at hlength)
  have hsublist : (carriers compared (entries.copies steps) range).Sublist _ :=
    carriers_sublist (entries.copies steps) range
  rw [hcarriers] at hsublist hlength ⊢
  have hmem : first ∈ entries.copies steps := hsublist.subset mem_cons_self
  have hafter := (copies_pairwise entries steps).sublist hsublist
  rw [pairwise_cons] at hafter
  have hrest : rest ≠ [] := by
    rintro rfl
    simp at hlength
  exact not_copyOf_of_past hempty hdisjoint hmem
    (hnested first hmem (inside_of_carriers hcarriers)) hlist
    (le_carried_start hrest fun copy hcopy => hafter.1 copy hcopy list)

end FrameEntries

namespace LayerWindow

/-- What a frame that begins finds: ranges stamped with earlier frames, rows inside their layers'
ranges, and copied subtrees that are apart from each other and hold a layer in every list or
not. -/
structure Drawable (window : LayerWindow) (prepaint : List (FrameStep PrepaintList))
    (paint : List (FrameStep PaintList)) : Prop where
  prepainted : ∀ list, window.prepainted list = []
  painted : ∀ list, window.painted list = []
  rangesFrame_lt : ∀ layer ∈ window.layers, ∀ frame ∈ layer.rangesFrame, frame < window.frame
  followed_lt : ∀ layer ∈ window.layers, ∀ frame ∈ layer.prepaintFollowed, frame < window.frame
  ordered : ∀ layer ∈ window.layers, ∀ record ∈ layer.record,
    record.prepaintRange.Ordered ∧ record.paintRange.Ordered
  rows : ∀ layer ∈ window.layers, ∀ record ∈ layer.record, ∀ row ∈ layer.rows,
    row.prepaint.Within record.prepaintRange ∧ row.paint.Within record.paintRange
  prepaint_disjoint : (window.prepainted.copies prepaint).Pairwise fun copy later =>
    copy.source.Disjoint later.source
  paint_disjoint : (window.painted.copies paint).Pairwise fun copy later =>
    copy.source.Disjoint later.source
  prepaint_nested : ∀ layer ∈ window.layers, ∀ record ∈ layer.record,
    ∀ copy ∈ window.prepainted.copies prepaint,
      record.prepaintRange.Inside PrepaintList.compared copy.source →
      record.prepaintRange.Within copy.source
  paint_nested : ∀ layer ∈ window.layers, ∀ record ∈ layer.record,
    ∀ copy ∈ window.painted.copies paint,
      record.paintRange.Inside PaintList.compared copy.source →
      record.paintRange.Within copy.source

lemma reuse_index {ι : Type*} (entries : FrameEntries ι) (range : FrameRange ι) :
    (entries.reuse range).index = shiftedIndex range.stop range.start entries.index := by
  funext list
  simp only [FrameEntries.index, FrameEntries.reuse, shiftedIndex, length_append,
    length_map, length_range']
  omega

lemma foldl_prepaintStep (window : LayerWindow) (steps : List (FrameStep PrepaintList)) :
    steps.foldl prepaintStep window =
      { window with
        prepainted := window.prepainted.drawn steps
        layers := window.layers.map
          (RecordLayer.afterPrepaint window.frame (window.prepainted.copies steps)) } := by
  induction steps generalizing window with
  | nil =>
    have hnone : RecordLayer.afterPrepaint window.frame [] = id := rfl
    simp [FrameEntries.drawn, FrameEntries.copies, hnone]
  | cons step steps ih =>
    rw [foldl_cons, ih]
    cases step with
    | build added => rfl
    | reuse range =>
      rw [prepaintStep, reuseRetainedPrepaint, if_pos (reuse_index _ _)]
      simp [FrameEntries.drawn, FrameEntries.step, FrameEntries.copies, RecordLayer.afterPrepaint]

lemma foldl_paintStep (window : LayerWindow) (steps : List (FrameStep PaintList)) :
    steps.foldl paintStep window =
      { window with
        painted := window.painted.drawn steps
        layers := window.layers.map
          (RecordLayer.afterPaint window.frame (window.painted.copies steps)) } := by
  induction steps generalizing window with
  | nil =>
    have hnone : RecordLayer.afterPaint window.frame [] = id := rfl
    simp [FrameEntries.drawn, FrameEntries.copies, hnone]
  | cons step steps ih =>
    rw [foldl_cons, ih]
    cases step with
    | build added => rfl
    | reuse range =>
      rw [paintStep, reuseRetainedPaint, if_pos (reuse_index _ _)]
      simp [FrameEntries.drawn, FrameEntries.step, FrameEntries.copies, RecordLayer.afterPaint]

variable {window : LayerWindow} {prepaint : List (FrameStep PrepaintList)}
  {paint : List (FrameStep PaintList)} {layer : RecordLayer}

lemma drawFrame_eq (window : LayerWindow) (prepaint : List (FrameStep PrepaintList))
    (paint : List (FrameStep PaintList)) :
    window.drawFrame prepaint paint =
      ⟨window.frame, window.layers.map fun layer =>
          (layer.afterPrepaint window.frame (window.prepainted.copies prepaint)).afterPaint
            window.frame (window.painted.copies paint),
        window.prepainted.drawn prepaint, window.painted.drawn paint⟩ := by
  rw [drawFrame, foldl_prepaintStep, foldl_paintStep]
  simp [Function.comp_def]

section

variable (h : window.Drawable prepaint paint) (hlayer : layer ∈ window.layers)
include h hlayer

variable {after : RecordLayer}

lemma Drawable.not_current (hafter : after.rangesFrame = layer.rangesFrame) :
    ¬after.Current (window.frame + 1) := by
  rintro ⟨frame, hframe, heq⟩
  rw [hafter] at hframe
  have := h.rangesFrame_lt layer hlayer frame hframe
  omega

lemma Drawable.atCopy_iff {record : RangeRecord} (hrecord : record ∈ layer.record)
    (hprepaint : carriers PrepaintList.compared (window.prepainted.copies prepaint)
      record.prepaintRange ≠ [])
    (hpaint : carriers PaintList.compared (window.painted.copies paint) record.paintRange ≠ [])
    (hafter : after.record = some ⟨record.prepaintRange.carried
        (carriers PrepaintList.compared (window.prepainted.copies prepaint) record.prepaintRange),
      record.paintRange.carried
        (carriers PaintList.compared (window.painted.copies paint) record.paintRange)⟩)
    (hrows : after.rows = layer.rows.map fun row => ⟨row.prepaint.carried
        (carriers PrepaintList.compared (window.prepainted.copies prepaint) record.prepaintRange),
      row.paint.carried
        (carriers PaintList.compared (window.painted.copies paint) record.paintRange)⟩) :
    RecordLayer.AtCopy (window.drawFrame prepaint paint) layer after ↔
      (record.prepaintRange.Empty ∨ record.prepaintRange.CarriedOnce PrepaintList.compared
        (window.prepainted.copies prepaint)) ∧
      (record.paintRange.Empty ∨ record.paintRange.CarriedOnce PaintList.compared
        (window.painted.copies paint)) := by
  have hnested := h.prepaint_nested layer hlayer record hrecord
  have hnested' := h.paint_nested layer hlayer record hrecord
  rw [drawFrame_eq]
  constructor
  · rintro ⟨before, hbefore, copied, hcopied, hpre, hpai, -⟩
    obtain rfl : record = before := Option.some.inj (hrecord.symm.trans hbefore)
    obtain rfl : _ = copied := Option.some.inj (hafter.symm.trans hcopied)
    constructor
    · by_contra hagain
      exact FrameEntries.not_copyOf_carried h.prepainted h.prepaint_disjoint hnested hagain hpre
    · by_contra hagain
      exact FrameEntries.not_copyOf_carried h.painted h.paint_disjoint hnested' hagain hpai
  · rintro ⟨honce, honce'⟩
    have hordered := h.ordered layer hlayer record hrecord
    refine ⟨record, hrecord, _, hafter, ?_, ?_, ?_⟩
    · exact FrameEntries.copyOf_carried honce hprepaint hnested
        fun list => ⟨le_rfl, hordered.1 list, le_rfl⟩
    · exact FrameEntries.copyOf_carried honce' hpaint hnested'
        fun list => ⟨le_rfl, hordered.2 list, le_rfl⟩
    · rw [hrows, forall₂_map_right_iff, forall₂_same]
      intro row hrow
      obtain ⟨hpre, hpai⟩ := h.rows layer hlayer record hrecord row hrow
      exact ⟨FrameEntries.copyOf_carried honce hprepaint hnested hpre,
        FrameEntries.copyOf_carried honce' hpaint hnested' hpai⟩

lemma Drawable.follows_iff (hlist : layer.list = true) :
    (¬((layer.afterPrepaint window.frame (window.prepainted.copies prepaint)).afterPaint
        window.frame (window.painted.copies paint)).Current (window.frame + 1) ∨
      RecordLayer.AtCopy (window.drawFrame prepaint paint) layer
        ((layer.afterPrepaint window.frame (window.prepainted.copies prepaint)).afterPaint
          window.frame (window.painted.copies paint))) ↔
      layer.CarriedOnce window prepaint paint := by
  have hfollowed : layer.prepaintFollowed ≠ some window.frame := by
    intro heq
    exact lt_irrefl _ (h.followed_lt layer hlayer window.frame heq)
  by_cases hcarries : layer.record = none ∨ layer.list = false ∨ ¬layer.Current window.frame
  · rw [RecordLayer.afterPrepaint_of_not _ hcarries, RecordLayer.afterPaint_of_not _ hfollowed]
    refine iff_of_true (.inl (h.not_current hlayer rfl)) fun record hsome hcurrent => ?_
    rcases hcarries with hnone | hnot | hnot
    · simp [hnone] at hsome
    · simp [hlist] at hnot
    · exact absurd hcurrent hnot
  · push Not at hcarries
    obtain ⟨hsome, -, hcurrent⟩ := hcarries
    obtain ⟨record, hrecord⟩ := Option.ne_none_iff_exists'.mp hsome
    rw [RecordLayer.afterPrepaint_eq _ hrecord hlist hcurrent]
    by_cases hprepaint : carriers PrepaintList.compared (window.prepainted.copies prepaint)
        record.prepaintRange = []
    · rw [RecordLayer.afterPaint_of_not _ (by simpa [hprepaint] using hfollowed)]
      refine iff_of_true (.inl (h.not_current hlayer rfl)) ?_
      rintro record' hrecord' - ⟨copy, hcopy, hinside⟩ -
      obtain rfl : record = record' := Option.some.inj (hrecord.symm.trans hrecord')
      exact absurd hinside (carriers_eq_nil_iff.mp hprepaint copy hcopy)
    · rw [RecordLayer.afterPaint_eq _ rfl (by simp [hprepaint])]
      by_cases hpaint : carriers PaintList.compared (window.painted.copies paint)
          record.paintRange = []
      · refine iff_of_true (.inl (h.not_current hlayer (by simp [hpaint]))) ?_
        rintro record' hrecord' - - ⟨copy, hcopy, hinside⟩
        obtain rfl : record = record' := Option.some.inj (hrecord.symm.trans hrecord')
        exact absurd hinside (carriers_eq_nil_iff.mp hpaint copy hcopy)
      · rw [or_iff_right (not_not_intro ⟨window.frame, by simp [hpaint], rfl⟩),
          h.atCopy_iff hlayer hrecord hprepaint hpaint rfl (by simp [Function.comp_def])]
        constructor
        · rintro honce record' hrecord' - - -
          obtain rfl : record = record' := Option.some.inj (hrecord.symm.trans hrecord')
          exact honce
        · intro honce
          exact honce record hrecord hcurrent (exists_inside_of_carriers hprepaint)
            (exists_inside_of_carriers hpaint)

end

/-- Every list's layer of a window ends a frame that copies any subtrees of the last frame either
at the copy of the entries it and its rows delimited or not taken for current, exactly when no
layer is carried, once it was, by a copy made later. -/
theorem drawFrame_follows_iff (window : LayerWindow) (prepaint : List (FrameStep PrepaintList))
    (paint : List (FrameStep PaintList)) (h : window.Drawable prepaint paint) :
    Forall₂ (fun before after => before.list = true →
        ¬after.Current (window.frame + 1) ∨
          RecordLayer.AtCopy (window.drawFrame prepaint paint) before after)
      window.layers (window.drawFrame prepaint paint).layers ↔
    ∀ layer ∈ window.layers, layer.list = true → layer.CarriedOnce window prepaint paint := by
  have hlayers : (window.drawFrame prepaint paint).layers = window.layers.map fun layer =>
      (layer.afterPrepaint window.frame (window.prepainted.copies prepaint)).afterPaint
        window.frame (window.painted.copies paint) := by
    rw [drawFrame_eq]
  rw [hlayers, forall₂_map_right_iff, forall₂_same]
  refine forall₂_congr fun layer hlayer => forall_congr' fun hlist => ?_
  exact h.follows_iff hlayer hlist

/-- A window about to draw its second frame, with the layer of a list of one row whose records were
the first of every list in the first frame. -/
def listWindow : LayerWindow where
  frame := 1
  layers := [{
    record := some ⟨⟨fun _ => 0, fun _ => 1⟩, ⟨fun _ => 0, fun _ => 1⟩⟩
    list := true
    rows := [⟨⟨fun _ => 0, fun _ => 1⟩, ⟨fun _ => 0, fun _ => 1⟩⟩]
    rangesFrame := some 0
    prepaintFollowed := none
    rebuild := false }]
  prepainted := fun _ => []
  painted := fun _ => []

/-- A frame that builds something new, then draws the list's view again, then the view after it if
`both`. -/
def insertedBefore (ι : Type) (both : Bool) : List (FrameStep ι) :=
  [.build fun _ => 1, .reuse ⟨fun _ => 0, fun _ => 1⟩] ++
    if both then [.reuse ⟨fun _ => 1, fun _ => 3⟩] else []

lemma listWindow_drawable (both : Bool) :
    listWindow.Drawable (insertedBefore _ both) (insertedBefore _ both) := by
  cases both <;> constructor <;>
    simp [listWindow, insertedBefore, FrameEntries.copies, Ordered, Within, FrameRange.Disjoint, Inside] <;>
    decide

/-- A list whose view alone is drawn again follows it. -/
theorem drawFrame_follows_view :
    Forall₂ (fun before after => before.list = true →
        ¬after.Current (listWindow.frame + 1) ∨
          RecordLayer.AtCopy (listWindow.drawFrame (insertedBefore _ false) (insertedBefore _ false))
            before after) listWindow.layers
      (listWindow.drawFrame (insertedBefore _ false) (insertedBefore _ false)).layers := by
  refine (drawFrame_follows_iff _ _ _ (listWindow_drawable false)).mpr ?_
  intro layer hlayer _ record hrecord _ _ _
  obtain rfl := mem_singleton.mp hlayer
  obtain rfl := Option.some.inj hrecord
  constructor <;> right <;>
    simp [FrameEntries.copies, insertedBefore, CarriedOnce]

/-- The list's records, copied to where the next view's lay, are carried again with those. -/
theorem carried_again_past_copy :
    listWindow.Drawable (insertedBefore _ true) (insertedBefore _ true) ∧
    ¬Forall₂ (fun before after => before.list = true →
        ¬after.Current (listWindow.frame + 1) ∨
          RecordLayer.AtCopy (listWindow.drawFrame (insertedBefore _ true) (insertedBefore _ true))
            before after) listWindow.layers
      (listWindow.drawFrame (insertedBefore _ true) (insertedBefore _ true)).layers := by
  refine ⟨listWindow_drawable true, fun hall => ?_⟩
  obtain _ | ⟨hlayer, -⟩ := hall
  rcases hlayer rfl with hcurrent | ⟨record, hrecord, copied, hcopied, hcopy, -⟩
  · exact hcurrent (by decide)
  · obtain rfl := Option.some.inj hrecord
    obtain rfl := Option.some.inj hcopied
    exact absurd (hcopy .hitboxes) (by decide)

end LayerWindow

end GpuiFast
