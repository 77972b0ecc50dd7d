import GpuiFast.SurfaceStartsWalk

namespace GpuiFast

open List

open Mark

namespace Painting

variable {S O V : Type*} (composition : Composition S)

def operations : Painting S O V → List O
  | .done => []
  | .operation op rest => op :: rest.operations
  | .scope surface content rest =>
    (if composition.kind surface = some .gpui then content.operations else []) ++ rest.operations
  | .view _ content rest => content.operations ++ rest.operations

def records : ℕ → Painting S O V → List (PaintRecord V)
  | _, .done => []
  | start, .operation _ rest => rest.records (start + 1)
  | start, .scope surface content rest =>
    if composition.kind surface = some .gpui then
      content.records start ++ rest.records (start + (content.operations composition).length)
    else rest.records start
  | start, .view drawn content rest =>
    ⟨drawn, start, start + (content.operations composition).length, content.count composition⟩ ::
      (content.records start ++ rest.records (start + (content.operations composition).length))

variable {composition}

variable (painting : Painting S O V)

lemma count_eq_length_records (start : ℕ) :
    (painting.records composition start).length = painting.count composition := by
  induction painting generalizing start with
  | done => rfl
  | operation op rest ih => exact ih _
  | scope surface content rest ihcontent ih =>
    rw [records, count]
    split
    · rw [length_append, ihcontent, ih]
    · rw [ih, Nat.zero_add]
  | view drawn content rest ihcontent ih =>
    rw [records, count, length_cons, length_append, ihcontent, ih]
    omega

lemma records_map_shifted (source target offset : ℕ) :
    (painting.records composition (source + offset)).map (PaintRecord.shifted source target) =
      painting.records composition (target + offset) := by
  induction painting generalizing offset with
  | done => rfl
  | operation op rest ih => exact ih (offset + 1)
  | scope surface content rest ihcontent ih =>
    rw [records, records]
    split
    · rw [map_append, ihcontent, Nat.add_assoc, ih, Nat.add_assoc]
    · exact ih offset
  | view drawn content rest ihcontent ih =>
    rw [records, records, map_cons, map_append, ihcontent, Nat.add_assoc, ih]
    congr 1
    · simp only [PaintRecord.shifted]
      congr 1 <;> omega
    · rw [Nat.add_assoc]

variable [DecidableEq S] (composition)

/-- What painting from scratch passes inside a view painted on `home`, if any: its operations, the
views in it up to their last operation, and where painting stands on `home` after one. -/
def marks : Option S → S → Painting S O V → List (Mark S)
  | _, _, .done => []
  | home, surface, .operation _ rest => .paint surface :: rest.marks home surface
  | home, surface, .scope inner content rest =>
    (if composition.kind inner = some .gpui then content.marks home inner else []) ++
      rest.marks home surface
  | home, surface, .view _ content rest =>
    trim (.stay surface :: content.marks (some surface) surface) ++
      ((if home = some surface then [.stay surface] else []) ++ rest.marks home surface)

def viewMarks (surface : S) (content : Painting S O V) : List (Mark S) :=
  trim (.stay surface :: content.marks composition (some surface) surface)

variable {composition}

lemma length_paints_marks (home : Option S) (surface : S) :
    (paints (painting.marks composition home surface)).length =
      (painting.operations composition).length := by
  induction painting generalizing home surface with
  | done => rfl
  | operation op rest ih => simp [marks, operations, ih]
  | scope inner content rest ihcontent ih =>
    rw [marks, operations]
    split <;> simp [ihcontent, ih]
  | view drawn content rest ihcontent ih =>
    rw [marks, operations]
    split <;> simp [paints_trim, ihcontent, ih]

lemma settled_marks (home surface : S) :
    Settled home (painting.marks composition (some home) surface) := by
  induction painting generalizing surface with
  | done => exact settled_nil home
  | operation op rest ih => exact (settled_paint home surface).append (ih surface)
  | scope inner content rest ihcontent ih =>
    rw [marks]
    refine Settled.append ?_ (ih surface)
    split
    · exact ihcontent inner
    · exact settled_nil home
  | view drawn content rest ihcontent ih =>
    rw [marks]
    refine (settled_trim home _).append (Settled.append ?_ (ih surface))
    split
    case isTrue h =>
      obtain rfl := Option.some.inj h
      exact settled_stay home
    case isFalse => exact settled_nil home

variable (composition) in
def Lies (ops : List O) (recs : List (PaintRecord V)) (passed : List (Mark S)) (start index : ℕ)
    (surface : S) (drawn : V) (content : Painting S O V) : Prop :=
  ∃ before after earlier later,
    ops = before ++ content.operations composition ++ after ∧
    recs = earlier ++
      (⟨drawn, start + before.length, start + before.length + (content.operations composition).length,
        content.count composition⟩ :: content.records composition (start + before.length)) ++ later ∧
    earlier.length = index ∧
    (content.operations composition ≠ [] → ∃ front back,
      passed = front ++ content.viewMarks composition surface ++ back ∧
      (paints front).length = before.length)

section Lies

variable {ops : List O} {recs : List (PaintRecord V)} {passed : List (Mark S)} {start index : ℕ}
  {surface : S} {drawn : V} {content : Painting S O V}

lemma Lies.prepend (more : List O) (others : List (PaintRecord V)) (further : List (Mark S))
    (hfurther : (paints further).length = more.length)
    (h : Lies composition ops recs passed (start + more.length) index surface drawn content) :
    Lies composition (more ++ ops) (others ++ recs) (further ++ passed) start
      (others.length + index) surface drawn content := by
  obtain ⟨before, after, earlier, later, rfl, rfl, rfl, hpassed⟩ := h
  refine ⟨more ++ before, after, others ++ earlier, later, by simp, ?_, by simp, fun hne => ?_⟩
  · simp [Nat.add_assoc]
  · obtain ⟨front, back, rfl, hfront⟩ := hpassed hne
    exact ⟨further ++ front, back, by simp, by simp [hfurther, hfront]⟩

lemma Lies.extend (h : Lies composition ops recs passed start index surface drawn content)
    (more : List O) (others : List (PaintRecord V)) (further : List (Mark S)) :
    Lies composition (ops ++ more) (recs ++ others) (passed ++ further) start index surface drawn
      content := by
  obtain ⟨before, after, earlier, later, rfl, rfl, hindex, hpassed⟩ := h
  refine ⟨before, after ++ more, earlier, later ++ others, by simp, by simp, hindex, fun hne => ?_⟩
  obtain ⟨front, back, rfl, hfront⟩ := hpassed hne
  exact ⟨front, back ++ further, by simp, hfront⟩

lemma paints_viewMarks_ne_nil (hne : content.operations composition ≠ []) :
    paints (content.viewMarks composition surface) ≠ [] := by
  rw [viewMarks, paints_trim, paints_stay, Ne, ← length_eq_zero_iff, length_paints_marks]
  simpa using hne

lemma Lies.trim (h : Lies composition ops recs passed start index surface drawn content) :
    Lies composition ops recs (trim passed) start index surface drawn content := by
  obtain ⟨before, after, earlier, later, hops, hrecs, hindex, hpassed⟩ := h
  refine ⟨before, after, earlier, later, hops, hrecs, hindex, fun hne => ?_⟩
  obtain ⟨front, back, rfl, hfront⟩ := hpassed hne
  by_cases hback : paints back = []
  · refine ⟨front, [], ?_, hfront⟩
    rw [trim_append_of_stays hback, trim_append_of_paints (paints_viewMarks_ne_nil hne), viewMarks,
      trim_trim, append_nil]
  · exact ⟨front, Mark.trim back, trim_append_of_paints hback, hfront⟩

end Lies

lemma recorded?_lies {painting content : Painting S O V} {surface on : S} {index : ℕ} {drawn : V}
    (h : painting.recorded? composition surface index = some (on, drawn, content))
    (home : Option S) (start : ℕ) :
    Lies composition (painting.operations composition) (painting.records composition start)
      (painting.marks composition home surface) start index on drawn content := by
  induction painting generalizing surface index home start with
  | done => simp [recorded?] at h
  | operation op rest ih =>
    have hrest := ih h home (start + 1)
    simpa [operations, records, marks] using
      Lies.prepend [op] [] [.paint surface] rfl hrest
  | scope inner body rest ihbody ih =>
    rw [recorded?] at h
    rw [operations, records, marks]
    split at h
    case isTrue hgpui =>
      simp only [if_pos hgpui]
      split at h
      case isTrue => exact (ihbody h home start).extend _ _ _
      case isFalse hindex =>
        have hrest := Lies.prepend _ (body.records composition start) _
          (length_paints_marks body home inner)
          (ih h home (start + (body.operations composition).length))
        rwa [count_eq_length_records, Nat.add_sub_of_le (by omega)] at hrest
    case isFalse hgpui =>
      simpa only [if_neg hgpui, nil_append] using ih h home start
  | view other body rest ihbody ih =>
    rw [recorded?] at h
    rw [operations, records, marks]
    split at h
    case isTrue hzero =>
      obtain ⟨rfl, rfl, rfl⟩ : surface = on ∧ other = drawn ∧ body = content := by
        simpa using h
      exact ⟨[], _, [], _, rfl, rfl, by simp [hzero], fun _ => ⟨[], _, rfl, rfl⟩⟩
    case isFalse hzero =>
      split at h
      case isTrue =>
        have hinner : Lies composition _ _ _ (start + ([] : List O).length) _ on drawn content :=
          ihbody h (some surface) start
        have hbody := Lies.prepend ([] : List O) [⟨other, start,
          start + (body.operations composition).length, body.count composition⟩] [.stay surface]
          rfl hinner
        rw [length_singleton, Nat.add_sub_of_le (by omega)] at hbody
        exact hbody.trim.extend _ _ _
      case isFalse hindex =>
        have hpaints : (paints (trim (.stay surface :: body.marks composition (some surface) surface) ++
            if home = some surface then [.stay surface] else [])).length =
            (body.operations composition).length := by
          rw [paints_append, paints_trim, paints_stay, length_append, length_paints_marks]
          split <;> rfl
        have hrest := Lies.prepend _ (⟨other, start, start + (body.operations composition).length,
          body.count composition⟩ :: body.records composition start) _ hpaints
          (ih h home (start + (body.operations composition).length))
        rw [length_cons, count_eq_length_records,
          show body.count composition + 1 + (index - 1 - body.count composition) = index by omega]
          at hrest
        simpa only [append_assoc, cons_append] using hrest

end Painting

variable {S O V : Type*}

def stretch (starts : SurfaceStarts S) (surface : S) (start stop : ℕ) : SurfaceStarts S :=
  starts.filter (fun entry => start ≤ entry.2 ∧ entry.2 < stop) ++ [(surface, stop)]

lemma stretch_stretch {starts : SurfaceStarts S} {surface : S} {start stop lower upper : ℕ}
    (hstart : start ≤ lower) (hstop : upper ≤ stop) :
    (stretch starts surface start stop).filter (fun entry => lower ≤ entry.2 ∧ entry.2 < upper) =
      starts.filter fun entry => lower ≤ entry.2 ∧ entry.2 < upper := by
  have hout : ¬(lower ≤ stop ∧ stop < upper) := by omega
  rw [stretch, filter_append, filter_filter]
  simp only [filter_cons, filter_nil, hout, decide_false, Bool.false_eq_true, if_false, append_nil]
  apply filter_congr
  intro entry _
  simp
  omega

structure Extends (next after : PaintedFrame S O V) (surface last : S) (ops : List O)
    (recs : List (PaintRecord V)) (passed : List (Mark S)) : Prop where
  scene : after.scene = next.scene ++ ops
  records : after.records = next.records ++ recs
  walk : ∃ new, after.starts = next.starts ++ new ∧
    Walk surface next.scene.length new passed last after.scene.length

namespace Extends

variable {next middle after : PaintedFrame S O V} {surface between last : S} {ops more : List O}
  {recs others : List (PaintRecord V)} {passed further : List (Mark S)}

lemma refl : Extends next next surface surface [] [] [] := ⟨by simp, by simp, [], by simp, .nil⟩

lemma trans (h : Extends next middle surface between ops recs passed)
    (hmore : Extends middle after between last more others further) :
    Extends next after surface last (ops ++ more) (recs ++ others) (passed ++ further) where
  scene := by rw [hmore.scene, h.scene, append_assoc]
  records := by rw [hmore.records, h.records, append_assoc]
  walk := by
    obtain ⟨new, hnew, hwalk⟩ := h.walk
    obtain ⟨new', hnew', hwalk'⟩ := hmore.walk
    exact ⟨new ++ new', by rw [hnew', hnew, append_assoc], hwalk.append hwalk'⟩

section

variable (h : Extends next after surface last ops recs passed)
include h

lemma current (hcurrent : next.starts.current = some surface) :
    after.starts.current = some last := by
  obtain ⟨new, hnew, hwalk⟩ := h.walk
  rw [hnew]
  exact hwalk.current_append hcurrent

lemma length : after.scene.length = next.scene.length + ops.length := by
  rw [h.scene, length_append]

lemma stay : Extends next after surface last ops recs (passed ++ [.stay last]) where
  scene := h.scene
  records := h.records
  walk := by
    obtain ⟨new, hnew, hwalk⟩ := h.walk
    exact ⟨new, hnew, by simpa using hwalk.append (.stay .nil)⟩

lemma trim : Extends next after surface last ops recs (trim passed) where
  scene := h.scene
  records := h.records
  walk := by
    obtain ⟨new, hnew, hwalk⟩ := h.walk
    obtain ⟨stays, hpassed, hstays⟩ := trim_prefix passed
    rw [hpassed] at hwalk
    exact ⟨new, hnew, hwalk.of_append_stays hstays⟩

end

end Extends

namespace PaintedFrame

variable {next rendered painted : PaintedFrame S O V} {surface last : S} {ops : List O}
  {recs : List (PaintRecord V)} {passed : List (Mark S)}

lemma insertOperation_extends (op : O) :
    Extends next (next.insertOperation op) surface surface [op] [] [.paint surface] :=
  ⟨rfl, by simp [insertOperation], [], by simp [insertOperation],
    .paint (by simpa [insertOperation] using .nil)⟩

variable {paint : PaintedFrame S O V → PaintedFrame S O V} {start stop : ℕ}

lemma recordPaint_extends (id : V)
    (hpaint : ∀ opened : PaintedFrame S O V, opened.scene = next.scene →
      opened.starts = next.starts → Extends opened (paint opened) surface last ops recs passed) :
    Extends next (next.recordPaint id paint) surface last ops
      (⟨id, next.scene.length, next.scene.length + ops.length, recs.length⟩ :: recs) passed := by
  have h := hpaint { next with
    records := next.records ++ [⟨id, next.scene.length, next.scene.length, 0⟩] } rfl rfl
  refine ⟨h.scene, ?_, h.walk⟩
  rw [recordPaint]
  simp only
  rw [h.length, h.records]
  simp only [append_assoc, singleton_append]
  rw [set_append_right _ _ le_rfl, Nat.sub_self, set_cons_zero]
  congr 3
  simp only [length_append, length_cons]
  omega

variable [DecidableEq S]

lemma switchSurface_extends (hcurrent : next.starts.current = some surface) (target : S) :
    Extends next (next.switchSurface target) surface target [] [] [] := by
  refine ⟨by simp [switchSurface], by simp [switchSurface], ?_⟩
  rw [switchSurface, SurfaceStarts.switchTo, hcurrent]
  split
  case isTrue h =>
    obtain rfl := Option.some.inj h
    exact ⟨[], by simp, .nil⟩
  case isFalse => exact ⟨[(target, next.scene.length)], rfl, .switch .nil⟩

lemma withCompositionSurface_extends {composition : Composition S} {target : S}
    (hcurrent : next.starts.current = some surface) (hgpui : composition.kind target = some .gpui)
    (hpaint : Extends (next.switchSurface target) (paint (next.switchSurface target)) target target
      ops recs passed) :
    Extends next (next.withCompositionSurface composition target paint) surface surface ops recs
      passed := by
  have hswitch := switchSurface_extends hcurrent target
  have hback := switchSurface_extends (hpaint.current (hswitch.current hcurrent)) surface
  simpa [withCompositionSurface, hgpui, hcurrent] using (hswitch.trans hpaint).trans hback

lemma reuseStarts_eq (hordered : rendered.starts.Pairwise (·.2 ≤ ·.2)) (hle : start ≤ stop)
    (hcurrent : next.starts.current = some surface) :
    next.reuseStarts rendered start stop =
      (stretch rendered.starts surface start stop).foldl
        (fun starts entry => starts.switchTo entry.1 (entry.2 - start + next.scene.length))
        next.starts := by
  rw [reuseStarts, slice_eq_filter hordered hle, stretch, hcurrent, foldl_append]
  simp only [foldl_cons, foldl_nil]
  split
  case isTrue h =>
    have hnone : rendered.starts.filter (fun entry => start ≤ entry.2 ∧ entry.2 < stop) = [] := by
      rw [← slice_eq_filter hordered hle, h, Nat.sub_self, take_zero]
    rw [hnone, foldl_nil, SurfaceStarts.switchTo, if_pos hcurrent]
  case isFalse => rw [Nat.add_comm (stop - start)]

lemma reuseStretch_extends (hordered : rendered.starts.Pairwise (·.2 ≤ ·.2))
    (hcurrent : next.starts.current = some surface) {first until_ : ℕ} {after : List O}
    {later : List (PaintRecord V)}
    (hwalk : Walk surface start (stretch rendered.starts surface start stop) passed surface stop)
    (hscene : rendered.scene.drop start = ops ++ after) (hops : start + ops.length = stop)
    (hrecords : rendered.records.drop first = recs ++ later) (hrecs : first + recs.length = until_) :
    Extends next (next.reuseStretch rendered start stop first until_) surface surface ops
      (recs.map (PaintRecord.shifted start next.scene.length)) passed := by
  have hle : start ≤ stop := by omega
  obtain ⟨new, hnew, hcopied⟩ :=
    hwalk.foldl_switchTo le_rfl hcurrent next.scene.length
  refine ⟨?_, ?_, new, ?_, ?_⟩
  · rw [reuseStretch, reusePaint]
    simp only
    rw [hscene, ← hops, Nat.add_sub_cancel_left, take_left]
  · rw [reuseStretch]
    simp only
    rw [hrecords, ← hrecs, Nat.add_sub_cancel_left, take_left]
  · rw [reuseStretch, reusePaint]
    simp only
    rw [reuseStarts_eq hordered hle hcurrent, hnew]
  · have hlength : (next.reuseStretch rendered start stop first until_).scene.length =
        stop - start + next.scene.length := by
      rw [reuseStretch, reusePaint]
      simp only [length_append]
      rw [hscene, ← hops, Nat.add_sub_cancel_left, take_left]
      omega
    rw [hlength]
    simpa using hcopied

end PaintedFrame

end GpuiFast
