import GpuiFast.SurfaceStartsHolds

namespace GpuiFast

open List FrameDraw PaintedFrame

open Mark

variable {S O V : Type*} [DecidableEq S]

/-- A frame keeps a view: the operations and records of its range, and a walk through it from the
surface it was painted on and back to it. -/
structure Kept (composition : Composition S) (rendered : PaintedFrame S O V) (index start : ℕ)
    (surface : S) (drawn : V) (content : Painting S O V) : Prop where
  scene : ∃ after, rendered.scene.drop start = content.operations composition ++ after
  records : ∃ later, rendered.records.drop index =
    ⟨drawn, start, start + (content.operations composition).length, content.count composition⟩ ::
      (content.records composition start ++ later)
  walk : Walk surface start
    (stretch rendered.starts surface start (start + (content.operations composition).length))
    (content.viewMarks composition surface) surface
    (start + (content.operations composition).length)

structure Offers (composition : Composition S) (rendered : PaintedFrame S O V)
    (last : Painting.Recorded S O V) : Prop where
  ordered : rendered.starts.Pairwise (·.2 ≤ ·.2)
  kept : ∀ index surface drawn content, last index = some (surface, drawn, content) →
    ∃ start, Kept composition rendered index start surface drawn content

lemma getElem?_of_drop {A : Type*} {entries tail : List A} {index : ℕ} {entry : A}
    (h : entries.drop index = entry :: tail) : entries[index]? = some entry := by
  have hfirst : (entries.drop index)[0]? = some entry := by rw [h, getElem?_cons_zero]
  simpa using hfirst

/-- A spliced view on its way: what was passed since the last gap and is still to be copied, and
what remains of the view as it was painted last frame. -/
structure Pending (rendered : PaintedFrame S O V) (home : S) (start stop lastRecord : ℕ)
    (splicing : Splicing S O V) (ops remOps : List O) (recs remRecs : List (PaintRecord V))
    (passed remPassed : List (Mark S)) : Prop where
  current : splicing.next.starts.current = some home
  scene : ∃ after, rendered.scene.drop splicing.cursor = ops ++ remOps ++ after
  stop_eq : splicing.cursor + ops.length + remOps.length = stop
  records : ∃ later, rendered.records.drop splicing.nextRecord = recs ++ remRecs ++ later
  lastRecord_eq : splicing.nextRecord + recs.length + remRecs.length = lastRecord
  index_eq : splicing.index = splicing.nextRecord + recs.length
  settled : Settled home passed
  paints : (paints passed).length = ops.length
  start_le : start ≤ splicing.cursor
  walk : ∃ front back, stretch rendered.starts home start stop = front ++ back ∧
    LeadsTo front home splicing.cursor ∧
    Walk home splicing.cursor back (passed ++ remPassed) home stop

namespace Pending

variable {rendered painted : PaintedFrame S O V} {home : S} {start stop lastRecord : ℕ}
  {splicing : Splicing S O V} {ops remOps more : List O}
  {recs remRecs others : List (PaintRecord V)} {passed remPassed further : List (Mark S)}

omit [DecidableEq S] in
lemma pass (h : Pending rendered home start stop lastRecord splicing ops (more ++ remOps) recs
    (others ++ remRecs) passed (further ++ remPassed)) (hsettled : Settled home further)
    (hpaints : (Mark.paints further).length = more.length) :
    Pending rendered home start stop lastRecord
      { splicing with index := splicing.index + others.length } (ops ++ more) remOps
      (recs ++ others) remRecs (passed ++ further) remPassed where
  current := h.current
  scene := by simpa using h.scene
  stop_eq := by have := h.stop_eq; simp only [length_append] at this ⊢; omega
  records := by simpa using h.records
  lastRecord_eq := by have := h.lastRecord_eq; simp only [length_append] at this ⊢; omega
  index_eq := by have := h.index_eq; simp only [length_append]; omega
  settled := h.settled.append hsettled
  paints := by simp [h.paints, hpaints]
  start_le := h.start_le
  walk := by simpa using h.walk

omit [DecidableEq S] in
lemma record_at {record : PaintRecord V} (h : Pending rendered home start stop lastRecord splicing
    ops remOps recs (record :: remRecs) passed remPassed) :
    rendered.records[splicing.index]? = some record := by
  obtain ⟨later, hrecords⟩ := h.records
  have hdrop : rendered.records.drop splicing.index = record :: (remRecs ++ later) := by
    rw [h.index_eq, ← drop_drop, hrecords, append_assoc, drop_left, cons_append]
  exact getElem?_of_drop hdrop

lemma copy (h : Pending rendered home start stop lastRecord splicing ops remOps recs remRecs
    passed remPassed) (hordered : rendered.starts.Pairwise (·.2 ≤ ·.2)) :
    Extends splicing.next
      (splicing.next.reuseStretch rendered splicing.cursor (splicing.cursor + ops.length)
        splicing.nextRecord (splicing.nextRecord + recs.length)) home home ops
      (recs.map (PaintRecord.shifted splicing.cursor splicing.next.scene.length)) passed := by
  obtain ⟨front, back, hstretch, hfront, hback⟩ := h.walk
  obtain ⟨until_, beyond, reached, upto, rfl, hwalk, hbeyond⟩ := hback.split
  have hupto : upto = splicing.cursor + ops.length := by rw [hwalk.stop_eq, h.paints]
  subst hupto
  have hcopy := hfront.copy hwalk (fun entry hentry => (hbeyond.bounds entry hentry).1) h.settled
  rw [append_assoc, ← hstretch,
    stretch_stretch h.start_le (by have := h.stop_eq; omega)] at hcopy
  obtain ⟨after, hscene⟩ := h.scene
  obtain ⟨later, hrecords⟩ := h.records
  exact reuseStretch_extends hordered h.current hcopy
    (by rw [hscene, append_assoc]) rfl (by rw [hrecords, append_assoc]) rfl

lemma resume {content : Painting S O V} {composition : Composition S} {drawn : V}
    (h : Pending rendered home start stop lastRecord splicing ops
      (content.operations composition ++ remOps) recs
      (⟨drawn, splicing.cursor + ops.length,
        splicing.cursor + ops.length + (content.operations composition).length,
        content.count composition⟩ ::
        (content.records composition (splicing.cursor + ops.length) ++ remRecs)) passed
      (content.viewMarks composition home ++ (.stay home :: remPassed)))
    (hcurrent : painted.starts.current = some home) :
    Pending rendered home start stop lastRecord
      ⟨painted, splicing.cursor + ops.length + (content.operations composition).length,
        splicing.index + content.count composition + 1,
        splicing.index + content.count composition + 1⟩ [] remOps [] remRecs [] remPassed where
  current := hcurrent
  scene := by
    obtain ⟨after, hscene⟩ := h.scene
    refine ⟨after, ?_⟩
    rw [Nat.add_assoc, ← drop_drop, hscene, append_assoc, append_assoc,
      ← append_assoc ops, ← length_append, drop_left]
    rfl
  stop_eq := by
    have := h.stop_eq
    simp only [length_append, length_nil] at this ⊢
    omega
  records := by
    obtain ⟨later, hrecords⟩ := h.records
    refine ⟨later, ?_⟩
    have hskip : splicing.index + content.count composition + 1 = splicing.nextRecord +
        (recs ++ ⟨drawn, splicing.cursor + ops.length,
          splicing.cursor + ops.length + (content.operations composition).length,
          content.count composition⟩ ::
          content.records composition (splicing.cursor + ops.length)).length := by
      rw [h.index_eq, length_append, length_cons, Painting.count_eq_length_records]
      omega
    rw [hskip, ← drop_drop, hrecords]
    simp
  lastRecord_eq := by
    have := h.lastRecord_eq
    have := h.index_eq
    simp only [length_append, length_cons, length_nil, Painting.count_eq_length_records] at *
    omega
  index_eq := by simp
  settled := settled_nil home
  paints := rfl
  start_le := h.start_le.trans (by simp only; omega)
  walk := by
    obtain ⟨front, back, hstretch, hfront, hback⟩ := h.walk
    rw [← append_assoc] at hback
    obtain ⟨until_, beyond, upto, rfl, hwalk, hbeyond⟩ := hback.at_stay
    have hupto : upto = splicing.cursor + ops.length + (content.operations composition).length := by
      rw [hwalk.stop_eq, paints_append, length_append, h.paints, Painting.viewMarks,
        paints_trim, paints_stay, Painting.length_paints_marks]
      omega
    subst hupto
    exact ⟨front ++ until_, beyond, by rw [hstretch, append_assoc], hfront.append hwalk,
      by simpa using hbeyond⟩

end Pending

def SplicesTo (rendered : PaintedFrame S O V) (home : S) (start stop lastRecord : ℕ)
    (splicing after : Splicing S O V) (ops remOps newOps : List O)
    (recs remRecs newRecs : List (PaintRecord V)) (passed remPassed newPassed : List (Mark S)) :
    Prop :=
  ∃ pendingOps pendingRecs pendingPassed addedOps addedRecs addedPassed,
    Extends splicing.next after.next home home addedOps addedRecs addedPassed ∧
    Pending rendered home start stop lastRecord after pendingOps remOps pendingRecs remRecs
      pendingPassed remPassed ∧
    addedOps ++ pendingOps = ops ++ newOps ∧
    addedPassed ++ pendingPassed = passed ++ newPassed ∧
    addedRecs ++ pendingRecs.map (PaintRecord.shifted after.cursor after.next.scene.length) =
      recs.map (PaintRecord.shifted splicing.cursor splicing.next.scene.length) ++ newRecs

namespace SplicesTo

variable {rendered : PaintedFrame S O V} {home : S} {start stop lastRecord : ℕ}
  {splicing middle after : Splicing S O V} {ops remOps restOps newOps moreOps : List O}
  {recs remRecs restRecs newRecs moreRecs : List (PaintRecord V)}
  {passed remPassed restPassed newPassed morePassed : List (Mark S)}

omit [DecidableEq S] in
lemma refl (h : Pending rendered home start stop lastRecord splicing ops remOps recs remRecs passed
    remPassed) :
    SplicesTo rendered home start stop lastRecord splicing splicing ops remOps [] recs remRecs []
      passed remPassed [] :=
  ⟨ops, recs, passed, [], [], [], .refl, h, by simp, by simp, by simp⟩

omit [DecidableEq S] in
lemma pass (h : Pending rendered home start stop lastRecord splicing ops (newOps ++ remOps) recs
    (moreRecs ++ remRecs) passed (newPassed ++ remPassed)) (hsettled : Settled home newPassed)
    (hpaints : (paints newPassed).length = newOps.length)
    (hshifted : moreRecs.map
      (PaintRecord.shifted splicing.cursor splicing.next.scene.length) = newRecs) :
    SplicesTo rendered home start stop lastRecord splicing
      { splicing with index := splicing.index + moreRecs.length } ops remOps newOps recs remRecs
      newRecs passed remPassed newPassed :=
  ⟨ops ++ newOps, recs ++ moreRecs, passed ++ newPassed, [], [], [], .refl,
    h.pass hsettled hpaints, by simp, by simp, by simp [← hshifted]⟩

omit [DecidableEq S] in
lemma trans (h : SplicesTo rendered home start stop lastRecord splicing middle ops restOps newOps
    recs restRecs newRecs passed restPassed newPassed)
    (hmore : ∀ pendingOps pendingRecs pendingPassed,
      middle.next.scene.length + pendingOps.length =
        splicing.next.scene.length + ops.length + newOps.length →
      Pending rendered home start stop lastRecord middle pendingOps restOps pendingRecs restRecs
        pendingPassed restPassed →
      SplicesTo rendered home start stop lastRecord middle after pendingOps remOps moreOps
        pendingRecs remRecs moreRecs pendingPassed remPassed morePassed) :
    SplicesTo rendered home start stop lastRecord splicing after ops remOps (newOps ++ moreOps) recs
      remRecs (newRecs ++ moreRecs) passed remPassed (newPassed ++ morePassed) := by
  obtain ⟨pendingOps, pendingRecs, pendingPassed, addedOps, addedRecs, addedPassed, hextends,
    hpending, hops, hpassed, hrecs⟩ := h
  have hlength : middle.next.scene.length + pendingOps.length =
      splicing.next.scene.length + ops.length + newOps.length := by
    have := congrArg List.length hops
    simp only [length_append] at this
    rw [hextends.length]
    omega
  obtain ⟨pendingOps', pendingRecs', pendingPassed', addedOps', addedRecs', addedPassed', hextends',
    hpending', hops', hpassed', hrecs'⟩ := hmore _ _ _ hlength hpending
  refine ⟨pendingOps', pendingRecs', pendingPassed', addedOps ++ addedOps', addedRecs ++ addedRecs',
    addedPassed ++ addedPassed', hextends.trans hextends', hpending', ?_, ?_, ?_⟩
  · rw [append_assoc, hops', ← append_assoc, hops, append_assoc]
  · rw [append_assoc, hpassed', ← append_assoc, hpassed, append_assoc]
  · rw [append_assoc, hrecs', ← append_assoc, hrecs, append_assoc]

end SplicesTo

namespace Painting

section Frame

variable (composition : Composition S) (rendered : PaintedFrame S O V)
  (last : Recorded S O V)

def PaintsAsBuilt (painting : Painting S O (DrawnView V)) : Prop :=
  ∀ home surface next, painting.Unchanged composition last →
    painting.Stays composition last surface → next.starts.current = some surface →
    Extends next (painting.paint composition rendered next) surface surface
      (painting.contents.operations composition)
      (painting.contents.records composition next.scene.length)
      (painting.contents.marks composition home surface)

/-- A part of a spliced view adds to a frame, with what is then pending, what was pending and what
painting it from scratch would. -/
def SplicesAsBuilt (painting : Painting S O (DrawnView V)) : Prop :=
  ∀ home surface (before : Painting S O V) splicing start stop lastRecord ops remOps recs remRecs
    passed remPassed place target, splicing.cursor + ops.length = place →
    splicing.next.scene.length + ops.length = target → before.SameAround painting →
    painting.GapsUnchanged composition last →
    painting.GapsStay composition last home surface →
    Pending rendered home start stop lastRecord splicing ops
      (before.operations composition ++ remOps) recs
      (before.records composition place ++ remRecs) passed
      (before.marks composition (some home) surface ++ remPassed) →
    SplicesTo rendered home start stop lastRecord splicing
      (painting.paintGaps composition rendered splicing) ops remOps
      (painting.contents.operations composition) recs remRecs
      (painting.contents.records composition target) passed remPassed
      (painting.contents.marks composition (some home) surface)

variable {composition rendered last}

variable {next : PaintedFrame S O V} {surface : S} {content : Painting S O V} {drawn : V}
  {start : ℕ}

variable {id : V} {previous : ℕ} {before : Painting S O V} {home : S} {stop lastRecord : ℕ}
  {splicing : Splicing S O V} {ops remOps : List O} {recs remRecs : List (PaintRecord V)}
  {passed remPassed : List (Mark S)}

lemma recordPaint_viewMarks {paint : PaintedFrame S O V → PaintedFrame S O V}
    (hpaint : ∀ opened : PaintedFrame S O V, opened.scene = next.scene →
      opened.starts = next.starts →
      Extends opened (paint opened) surface surface (content.operations composition)
        (content.records composition next.scene.length)
        (content.marks composition (some surface) surface)) :
    Extends next (next.recordPaint id paint) surface surface (content.operations composition)
      (⟨id, next.scene.length, next.scene.length + (content.operations composition).length,
        content.count composition⟩ :: content.records composition next.scene.length)
      (content.viewMarks composition surface) := by
  have h := (Extends.refl.stay.trans (recordPaint_extends id hpaint)).trim
  rw [count_eq_length_records] at h
  simpa [viewMarks] using h

lemma reuseRetainedPaint_extends (hordered : rendered.starts.Pairwise (·.2 ≤ ·.2))
    (hkept : Kept composition rendered previous start surface drawn content)
    (hcurrent : next.starts.current = some surface) :
    Extends next (next.reuseRetainedPaint rendered previous) surface surface
      (content.operations composition)
      (⟨drawn, next.scene.length, next.scene.length + (content.operations composition).length,
        content.count composition⟩ :: content.records composition next.scene.length)
      (content.viewMarks composition surface) := by
  obtain ⟨after, hscene⟩ := hkept.scene
  obtain ⟨later, hrecords⟩ := hkept.records
  have h := reuseStretch_extends hordered hcurrent hkept.walk hscene rfl
    (by rw [hrecords, cons_append]) rfl
  have hshifted : (content.records composition start).map
      (PaintRecord.shifted start next.scene.length) =
      content.records composition next.scene.length :=
    content.records_map_shifted start next.scene.length 0
  rw [map_cons, hshifted, length_cons, count_eq_length_records] at h
  rw [reuseRetainedPaint, getElem?_of_drop hrecords]
  simpa [PaintRecord.shifted, Nat.add_assoc, Nat.add_comm, Nat.add_left_comm] using h

lemma splicePaint_extends {content : Painting S O (DrawnView V)}
    (hordered : rendered.starts.Pairwise (·.2 ≤ ·.2))
    (hsplices : SplicesAsBuilt composition rendered last content)
    (hkept : Kept composition rendered previous start surface drawn before)
    (hsame : before.SameAround content) (hunchanged : content.GapsUnchanged composition last)
    (hstays : content.GapsStay composition last surface surface)
    (hcurrent : next.starts.current = some surface) :
    Extends next (next.splicePaint rendered previous (content.paintGaps composition rendered))
      surface surface (content.contents.operations composition)
      (⟨drawn, next.scene.length,
        next.scene.length + (content.contents.operations composition).length,
        content.contents.count composition⟩ ::
        content.contents.records composition next.scene.length)
      (content.contents.viewMarks composition surface) := by
  obtain ⟨after, hscene⟩ := hkept.scene
  obtain ⟨later, hrecords⟩ := hkept.records
  rw [splicePaint, getElem?_of_drop hrecords]
  refine recordPaint_viewMarks fun opened hopened hstarts => ?_
  have hpending : Pending rendered surface start
      (start + (before.operations composition).length) (previous + before.count composition + 1)
      ⟨opened, start, previous + 1, previous + 1⟩ [] (before.operations composition ++ []) []
      (before.records composition start ++ []) []
      (before.marks composition (some surface) surface ++ []) := by
    refine ⟨by rw [hstarts, hcurrent], ⟨after, by simpa using hscene⟩, by simp, ⟨later, ?_⟩, ?_, rfl,
      settled_nil surface, rfl, le_rfl, [],
      stretch rendered.starts surface start (start + (before.operations composition).length), rfl,
      ⟨.nil, by simp, by simp [SurfaceStarts.current]⟩, ?_⟩
    · rw [← drop_drop, hrecords]
      simp
    · simp only [append_nil, length_nil, Nat.add_zero, count_eq_length_records]
      omega
    · -- The marks cut off at the end of the view all stand on its surface, where the walk ends.
      obtain ⟨stays, hmarks, htrailing⟩ := trim_prefix
        (.stay surface :: before.marks composition (some surface) surface)
      have hsettled : Settled surface
          (.stay surface :: before.marks composition (some surface) surface) :=
        (settled_stay surface).append (settled_marks before surface surface)
      have hall := hkept.walk.append (Walk.of_settled
        (hsettled stays ⟨_, hmarks.symm⟩ htrailing))
      rw [viewMarks, ← hmarks, append_nil] at hall
      rw [← nil_append (Mark.stay surface :: _)] at hall
      obtain ⟨front, back, between, hstretch, hfront, hback⟩ := hall.at_stay
      rw [hstretch]
      simpa using hfront.append hback
  obtain ⟨pendingOps, pendingRecs, pendingPassed, newOps, newRecs, newPassed, hextends, hrest, hops,
    hpassed, hrecs⟩ := hsplices surface surface before _ _ _ _ _ _ _ _ _ _ _ _ rfl rfl hsame
      hunchanged hstays hpending
  have hcopy := hrest.copy hordered
  have hstop := hrest.stop_eq
  have hlast := hrest.lastRecord_eq
  simp only [length_nil, Nat.add_zero] at hstop hlast
  rw [hstop, hlast] at hcopy
  have hwhole := hextends.trans hcopy
  rw [hops, hpassed, hrecs] at hwhole
  simpa [hopened, Nat.add_assoc] using hwhole

lemma paintView_extends {drawn : DrawnView V} {content : Painting S O (DrawnView V)}
    (hoffers : Offers composition rendered last)
    (hpaints : PaintsAsBuilt composition rendered last content)
    (hsplices : SplicesAsBuilt composition rendered last content)
    (hunchanged : ViewUnchanged last drawn content (content.Unchanged composition last)
      (content.GapsUnchanged composition last))
    (hstays : ViewStays last drawn surface (content.Stays composition last surface)
      (content.GapsStay composition last surface surface))
    (hcurrent : next.starts.current = some surface) :
    Extends next (next.paintView rendered drawn (content.paint composition rendered)
        (content.paintGaps composition rendered)) surface surface
      (content.contents.operations composition)
      (⟨drawn.id, next.scene.length,
        next.scene.length + (content.contents.operations composition).length,
        content.contents.count composition⟩ ::
        content.contents.records composition next.scene.length)
      (content.contents.viewMarks composition surface) := by
  rw [ViewUnchanged] at hunchanged
  rw [ViewStays] at hstays
  rw [paintView]
  cases hhow : drawn.how with
  | built =>
    rw [hhow] at hunchanged hstays
    refine recordPaint_viewMarks fun opened hopened hstarts => ?_
    rw [← hopened]
    exact hpaints (some surface) surface opened hunchanged hstays (by rw [hstarts, hcurrent])
  | reused previous =>
    rw [hhow] at hunchanged hstays
    obtain ⟨on, hrecorded⟩ := hunchanged
    obtain rfl : on = surface := hstays _ hrecorded
    obtain ⟨start, hkept⟩ := hoffers.kept _ _ _ _ hrecorded
    exact reuseRetainedPaint_extends hoffers.ordered hkept hcurrent
  | spliced previous =>
    rw [hhow] at hunchanged hstays
    obtain ⟨on, before, hrecorded, hsame, hgaps⟩ := hunchanged
    obtain rfl : on = surface := hstays.1 _ hrecorded
    obtain ⟨start, hkept⟩ := hoffers.kept _ _ _ _ hrecorded
    exact splicePaint_extends hoffers.ordered hsplices hkept hsame hgaps hstays.2 hcurrent

lemma splicesTo_skip (h : Pending rendered home start stop lastRecord splicing ops
      (content.operations composition ++ remOps) recs
      (⟨drawn, splicing.cursor + ops.length,
        splicing.cursor + ops.length + (content.operations composition).length,
        content.count composition⟩ ::
        (content.records composition (splicing.cursor + ops.length) ++ remRecs)) passed
      ((content.viewMarks composition surface ++
        if some home = some surface then [.stay surface] else []) ++ remPassed)) :
    SplicesTo rendered home start stop lastRecord splicing (splicing.skip rendered) ops remOps
      (content.operations composition) recs remRecs
      (⟨drawn, splicing.next.scene.length + ops.length,
        splicing.next.scene.length + ops.length + (content.operations composition).length,
        content.count composition⟩ ::
        content.records composition (splicing.next.scene.length + ops.length)) passed remPassed
      (content.viewMarks composition surface ++
        if some home = some surface then [.stay surface] else []) := by
  have hskip : splicing.skip rendered =
      { splicing with index := splicing.index +
        (⟨drawn, splicing.cursor + ops.length,
          splicing.cursor + ops.length + (content.operations composition).length,
          content.count composition⟩ ::
          content.records composition (splicing.cursor + ops.length)).length } := by
    rw [Splicing.skip, h.record_at, length_cons, count_eq_length_records]
    rfl
  rw [hskip]
  refine SplicesTo.pass h ?_ ?_ ?_
  · refine (settled_trim home _).append ?_
    split
    case isTrue heq =>
      obtain rfl := Option.some.inj heq
      exact settled_stay home
    case isFalse => exact settled_nil home
  · rw [paints_append, viewMarks, paints_trim, paints_stay, length_append, length_paints_marks]
    split <;> rfl
  · rw [map_cons, records_map_shifted]
    simp only [PaintRecord.shifted]
    congr 2 <;> omega

lemma splicesTo_gap {drawn : DrawnView V} {content : Painting S O (DrawnView V)}
    (hoffers : Offers composition rendered last)
    (hpaints : PaintsAsBuilt composition rendered last content)
    (hsplices : SplicesAsBuilt composition rendered last content)
    (hunchanged : ViewUnchanged last drawn content (content.Unchanged composition last)
      (content.GapsUnchanged composition last))
    (hstays : ViewStays last drawn home (content.Stays composition last home)
      (content.GapsStay composition last home home))
    (h : Pending rendered home start stop lastRecord splicing ops
      (before.operations composition ++ remOps) recs
      (⟨id, splicing.cursor + ops.length,
        splicing.cursor + ops.length + (before.operations composition).length,
        before.count composition⟩ ::
        (before.records composition (splicing.cursor + ops.length) ++ remRecs)) passed
      (before.viewMarks composition home ++ (.stay home :: remPassed))) :
    SplicesTo rendered home start stop lastRecord splicing
      (splicing.gap rendered fun next => next.paintView rendered drawn
        (content.paint composition rendered) (content.paintGaps composition rendered))
      ops remOps (content.contents.operations composition) recs remRecs
      (⟨drawn.id, splicing.next.scene.length + ops.length,
        splicing.next.scene.length + ops.length + (content.contents.operations composition).length,
        content.contents.count composition⟩ ::
        content.contents.records composition (splicing.next.scene.length + ops.length)) passed
      remPassed (content.contents.viewMarks composition home ++ [.stay home]) := by
  have hcopy := h.copy hoffers.ordered
  rw [← h.index_eq] at hcopy
  have hview := paintView_extends hoffers hpaints hsplices hunchanged hstays
    (hcopy.current h.current)
  have hwhole := (hcopy.trans hview).stay
  rw [hcopy.length, append_assoc] at hwhole
  have hresume := h.resume (hwhole.current h.current)
  rw [Splicing.gap, h.record_at]
  exact ⟨[], [], [], _, _, _, hwhole, hresume, by simp, by simp, by simp⟩

lemma paintsAsBuilt_operation {op : O} {rest : Painting S O (DrawnView V)}
    (hpaints : PaintsAsBuilt composition rendered last rest) :
    PaintsAsBuilt composition rendered last (.operation op rest) := by
  intro home surface next hunchanged hstays hcurrent
  have hop : Extends next (next.insertOperation op) surface surface [op] [] [.paint surface] :=
    insertOperation_extends op
  have hrest := hpaints home surface (next.insertOperation op) hunchanged hstays
    (hop.current hcurrent)
  rw [hop.length] at hrest
  exact hop.trans hrest

lemma splicesAsBuilt_operation {op : O} {rest : Painting S O (DrawnView V)}
    (hsplices : SplicesAsBuilt composition rendered last rest) :
    SplicesAsBuilt composition rendered last (.operation op rest) := by
  intro home surface before splicing start stop lastRecord ops remOps recs remRecs passed
    remPassed place target hplace htarget hsame hunchanged hstays hpending
  cases before with
  | operation op' rest' =>
    obtain ⟨rfl, hsame⟩ := hsame
    have hsplit : Pending rendered home start stop lastRecord splicing ops
        ([op'] ++ (rest'.operations composition ++ remOps)) recs
        ([] ++ (rest'.records composition (place + 1) ++ remRecs)) passed
        ([.paint surface] ++ (rest'.marks composition (some home) surface ++ remPassed)) :=
      hpending
    have hop : SplicesTo rendered home start stop lastRecord splicing splicing ops _ [op'] recs _
        [] passed _ [.paint surface] :=
      SplicesTo.pass hsplit (settled_paint home surface) rfl map_nil
    refine hop.trans fun pendingOps pendingRecs pendingPassed hlength hmiddle => ?_
    have hmoved := hmiddle.stop_eq
    have hstop := hpending.stop_eq
    simp only [operations, length_append, length_cons, length_nil] at *
    exact hsplices home surface rest' _ _ _ _ _ _ _ _ _ _ (place + 1) (target + 1) (by omega)
      (by omega) hsame hunchanged hstays hmiddle
  | _ => simp only [SameAround] at hsame

lemma paintsAsBuilt_scope {inner : S} {content rest : Painting S O (DrawnView V)}
    (hcontents : PaintsAsBuilt composition rendered last content)
    (hpaints : PaintsAsBuilt composition rendered last rest) :
    PaintsAsBuilt composition rendered last (.scope inner content rest) := by
  intro home surface next hunchanged hstays hcurrent
  rw [contents, operations, records, marks, paint]
  by_cases hgpui : composition.kind inner = some .gpui
  · simp only [if_pos hgpui]
    have hswitch := PaintedFrame.switchSurface_extends hcurrent inner
    have hcontent := withCompositionSurface_extends hcurrent hgpui
      (hcontents home inner _ (hunchanged.1 hgpui) (hstays.1 hgpui)
        (hswitch.current hcurrent))
    have hrest := hpaints home surface _ hunchanged.2 hstays.2 (hcontent.current hcurrent)
    rw [hcontent.length] at hrest
    exact hcontent.trans hrest
  · simp only [if_neg hgpui, nil_append, withCompositionSurface]
    exact hpaints home surface next hunchanged.2 hstays.2 hcurrent

lemma splicesAsBuilt_scope {inner : S} {content rest : Painting S O (DrawnView V)}
    (hinside : SplicesAsBuilt composition rendered last content)
    (hsplices : SplicesAsBuilt composition rendered last rest) :
    SplicesAsBuilt composition rendered last (.scope inner content rest) := by
  intro home surface before splicing start stop lastRecord ops remOps recs remRecs passed
    remPassed place target hplace htarget hsame hunchanged hstays hpending
  cases before with
  | scope inner' content' rest' =>
    obtain ⟨rfl, hcontent, hsame⟩ := hsame
    rw [contents, operations, records, marks, paintGaps]
    rw [operations, records, marks] at hpending
    by_cases hgpui : composition.kind inner' = some .gpui
    · simp only [if_pos hgpui, append_assoc] at hpending ⊢
      refine (hinside home inner' content' _ _ _ _ _ _ _ _ _ _ place target hplace htarget
        hcontent (hunchanged.1 hgpui) (hstays.1 hgpui) hpending).trans
        fun pendingOps pendingRecs pendingPassed hlength hmiddle => ?_
      have hmoved := hmiddle.stop_eq
      have hstop := hpending.stop_eq
      simp only [length_append] at hmoved hstop
      exact hsplices home surface rest' _ _ _ _ _ _ _ _ _ _ _ _ (by omega) (by omega) hsame
        hunchanged.2 hstays.2 hmiddle
    · simp only [if_neg hgpui, nil_append] at hpending ⊢
      exact hsplices home surface rest' _ _ _ _ _ _ _ _ _ _ place target hplace htarget hsame
        hunchanged.2 hstays.2 hpending
  | _ => simp only [SameAround] at hsame

lemma paintsAsBuilt_view {drawn : DrawnView V} {content rest : Painting S O (DrawnView V)}
    (hoffers : Offers composition rendered last)
    (hcontents : PaintsAsBuilt composition rendered last content)
    (hinside : SplicesAsBuilt composition rendered last content)
    (hpaints : PaintsAsBuilt composition rendered last rest) :
    PaintsAsBuilt composition rendered last (.view drawn content rest) := by
  intro home surface next hunchanged hstays hcurrent
  have hview := paintView_extends hoffers hcontents hinside hunchanged.1 hstays.1 hcurrent
  have hplace : Extends next (next.paintView rendered drawn (content.paint composition rendered)
      (content.paintGaps composition rendered)) surface surface
      (content.contents.operations composition)
      (⟨drawn.id, next.scene.length,
        next.scene.length + (content.contents.operations composition).length,
        content.contents.count composition⟩ ::
        content.contents.records composition next.scene.length)
      (content.contents.viewMarks composition surface ++
        if home = some surface then [.stay surface] else []) := by
    split
    · exact hview.stay
    · rwa [append_nil]
  have hrest := hpaints home surface _ hunchanged.2 hstays.2 (hview.current hcurrent)
  rw [hview.length] at hrest
  have hwhole := hplace.trans hrest
  rw [append_assoc] at hwhole
  exact hwhole

lemma splicesAsBuilt_view {drawn : DrawnView V} {content rest : Painting S O (DrawnView V)}
    (hoffers : Offers composition rendered last)
    (hcontents : PaintsAsBuilt composition rendered last content)
    (hinside : SplicesAsBuilt composition rendered last content)
    (hsplices : SplicesAsBuilt composition rendered last rest) :
    SplicesAsBuilt composition rendered last (.view drawn content rest) := by
  intro home surface before splicing start stop lastRecord ops remOps recs remRecs passed
    remPassed place target hplace htarget hsame hunchanged hstays hpending
  cases before with
  | view drawn' content' rest' =>
    obtain ⟨rfl, hcontent, hsame⟩ := hsame
    subst hplace htarget
    rw [operations, records, marks, ← viewMarks] at hpending
    have hview : SplicesTo rendered home start stop lastRecord splicing
        (if drawn.dirty then
          splicing.gap rendered fun next => next.paintView rendered drawn
            (content.paint composition rendered) (content.paintGaps composition rendered)
        else splicing.skip rendered) ops (rest'.operations composition ++ remOps)
        (content.contents.operations composition) recs
        (rest'.records composition
          (splicing.cursor + ops.length + (content'.operations composition).length) ++ remRecs)
        (⟨drawn.id, splicing.next.scene.length + ops.length, splicing.next.scene.length +
          ops.length + (content.contents.operations composition).length,
          content.contents.count composition⟩ ::
          content.contents.records composition (splicing.next.scene.length + ops.length))
        passed (rest'.marks composition (some home) surface ++ remPassed)
        (content.contents.viewMarks composition surface ++
          if some home = some surface then [.stay surface] else []) := by
      split
      case isTrue hdirty =>
        obtain ⟨rfl, hgap⟩ := hstays.1 hdirty
        rw [if_pos rfl] at hpending ⊢
        exact splicesTo_gap hoffers hcontents hinside (hunchanged.1 hdirty) hgap
          (by simpa only [append_assoc, cons_append, nil_append] using hpending)
      case isFalse hclean =>
        obtain rfl := hcontent (by simpa using hclean)
        exact splicesTo_skip
          (by simpa only [append_assoc, cons_append] using hpending)
    have hwhole := hview.trans fun pendingOps pendingRecs pendingPassed hlength hmiddle => by
      have hmoved := hmiddle.stop_eq
      have hstop := hpending.stop_eq
      simp only [length_append] at hmoved hstop
      exact hsplices home surface rest' _ _ _ _ _ _ _ _ _ _ _ _ (by omega) hlength hsame
        hunchanged.2 hstays.2 hmiddle
    rw [contents, operations, records, marks, paintGaps, ← viewMarks]
    simpa only [append_assoc, cons_append] using hwhole
  | _ => simp only [SameAround] at hsame

/-- Every painting leaves what it leaves with every view built, painted whole or spliced. -/
lemma paint_asBuilt (hoffers : Offers composition rendered last)
    (painting : Painting S O (DrawnView V)) :
    PaintsAsBuilt composition rendered last painting ∧
      SplicesAsBuilt composition rendered last painting := by
  induction painting with
  | done =>
    refine ⟨fun home surface next _ _ _ => .refl, ?_⟩
    intro home surface before splicing start stop lastRecord ops remOps recs remRecs passed remPassed
      place target _ _ hsame _ _ hpending
    cases before <;> simp only [SameAround] at hsame
    exact .refl hpending
  | operation op rest ih =>
    exact ⟨paintsAsBuilt_operation ih.1, splicesAsBuilt_operation ih.2⟩
  | scope inner content rest ihcontent ih =>
    exact ⟨paintsAsBuilt_scope ihcontent.1 ih.1, splicesAsBuilt_scope ihcontent.2 ih.2⟩
  | view drawn content rest ihcontent ih =>
    exact ⟨paintsAsBuilt_view hoffers ihcontent.1 ihcontent.2 ih.1,
      splicesAsBuilt_view hoffers ihcontent.1 ihcontent.2 ih.2⟩

end Frame

end Painting

structure Shows (composition : Composition S) (frame : PaintedFrame S O V)
    (painting : Painting S O V) : Prop where
  scene : frame.scene = painting.operations composition
  records : frame.records = painting.records composition 0
  walk : ∃ starts, frame.starts = (composition.baseSurface, 0) :: starts ∧
    Walk composition.baseSurface 0 starts
      (painting.marks composition none composition.overlaySurface) composition.overlaySurface
      frame.scene.length

namespace Shows

variable {composition : Composition S} {frame : PaintedFrame S O V} {painting : Painting S O V}

lemma ordered (h : Shows composition frame painting) : frame.starts.Pairwise (·.2 ≤ ·.2) := by
  obtain ⟨starts, hstarts, hwalk⟩ := h.walk
  rw [hstarts]
  exact .cons (fun entry _ => Nat.zero_le _) hwalk.ordered

lemma presented (h : Shows composition frame painting) :
    frame.presented = some ((painting.operations composition).zipIdx.map fun entry => (entry.1,
      (paints (painting.marks composition none composition.overlaySurface))[entry.2]?)) := by
  obtain ⟨starts, hstarts, hwalk⟩ := h.walk
  obtain ⟨ranges, hranges, hat⟩ := hwalk.composedRanges
  rw [PaintedFrame.presented, hstarts, hranges, h.scene]
  simp only [Option.map_some, Option.some.injEq]
  apply map_congr_left
  intro entry hentry
  have hlt : entry.2 < (painting.operations composition).length := by
    simpa using snd_lt_of_mem_zipIdx hentry
  have hsurface := hat entry.2 (by rwa [Painting.length_paints_marks])
  rw [Nat.zero_add] at hsurface
  rw [hsurface]

lemma walk_view {surface : S} {content : Painting S O V} {starts : SurfaceStarts S}
    {front back : List (Mark S)} {stop : ℕ} {base last : S} {before : List O}
    (hwalk : Walk base 0 starts (front ++ content.viewMarks composition surface ++ back) last stop)
    (hfront : (paints front).length = before.length) (hne : content.operations composition ≠ []) :
    Walk surface before.length
      (stretch ((base, 0) :: starts) surface before.length
        (before.length + (content.operations composition).length))
      (content.viewMarks composition surface) surface
      (before.length + (content.operations composition).length) := by
  have hpaints : paints (content.marks composition (some surface) surface) ≠ [] := by
    rw [Ne, ← length_eq_zero_iff, Painting.length_paints_marks]
    simpa using hne
  have hmarks : content.viewMarks composition surface =
      .stay surface :: trim (content.marks composition (some surface) surface) :=
    trim_cons_of_paints hpaints
  rw [hmarks, append_assoc, cons_append] at hwalk
  obtain ⟨upto, beyond, start, rfl, hupto, hbeyond⟩ := hwalk.at_stay
  obtain ⟨inside, after, reached, until_, rfl, hinside, hafter⟩ := hbeyond.split
  obtain rfl : start = before.length := by rw [hupto.stop_eq, hfront, Nat.zero_add]
  obtain rfl : until_ = before.length + (content.operations composition).length := by
    rw [hinside.stop_eq, paints_trim, Painting.length_paints_marks]
  have hbase : LeadsTo [(base, 0)] base 0 :=
    ⟨pairwise_singleton _ _, by simp, by simp [SurfaceStarts.current]⟩
  have hcopy := (hbase.append hupto).copy (.stay hinside)
    (fun entry hentry => (hafter.bounds entry hentry).1) (hmarks ▸ settled_trim surface _)
  rw [← hmarks] at hcopy
  simpa [stretch] using hcopy

lemma offers (h : Shows composition frame painting) :
    Offers composition frame (painting.recorded? composition composition.overlaySurface) := by
  refine ⟨h.ordered, fun index surface drawn content hrecorded => ?_⟩
  obtain ⟨before, after, earlier, later, hops, hrecords, hindex, hmarks⟩ :=
    Painting.recorded?_lies hrecorded none 0
  rw [Nat.zero_add] at hrecords
  refine ⟨before.length, ⟨after, ?_⟩, ⟨later, ?_⟩, ?_⟩
  · rw [h.scene, hops, append_assoc, drop_left]
  · rw [h.records, hrecords, ← hindex, append_assoc, drop_left, cons_append]
  · obtain ⟨starts, hstarts, hwalk⟩ := h.walk
    rw [hstarts]
    by_cases hne : content.operations composition = []
    · have hnone : content.viewMarks composition surface = [] := by
        apply trim_eq_nil
        rw [paints_stay, ← length_eq_zero_iff, Painting.length_paints_marks, hne, length_nil]
      rw [hne, hnone, length_nil, Nat.add_zero]
      have hempty : ((composition.baseSurface, 0) :: starts).filter
          (fun entry => before.length ≤ entry.2 ∧ entry.2 < before.length) = [] := by
        rw [filter_eq_nil_iff]
        intro entry _
        simp
      rw [stretch, hempty]
      exact .switch .nil
    · obtain ⟨front, back, heq, hfront⟩ := hmarks hne
      rw [heq] at hwalk
      exact walk_view hwalk hfront hne

end Shows

namespace PaintedFrame

variable {composition : Composition S}

lemma drawFrame_shows {rendered : PaintedFrame S O V} {last : Painting.Recorded S O V}
    {draw : FrameDraw S O V} (hoffers : Offers composition rendered last)
    (hunchanged : draw.Unchanged composition last) (hstays : draw.Stays composition last) :
    Shows composition (drawFrame composition rendered draw) (draw.painting composition).contents := by
  have hbegin : ((empty : PaintedFrame S O V).beginBase composition).starts.current =
      some composition.baseSurface := rfl
  have hbase := (Painting.paint_asBuilt hoffers draw.base).1 none composition.baseSurface _
    (hunchanged.1 composition.base_gpui) (hstays.1 composition.base_gpui) hbegin
  have hswitch := switchSurface_extends (hbase.current hbegin) composition.overlaySurface
  have hoverlay := (Painting.paint_asBuilt hoffers draw.overlay).1 none composition.overlaySurface _
    (hunchanged.2.1 composition.overlay_gpui) (hstays.2.1 composition.overlay_gpui)
    (hswitch.current (hbase.current hbegin))
  rw [hswitch.length, hbase.length] at hoverlay
  have hwhole : Extends _ (drawFrame composition rendered draw) _ _ _ _ _ :=
    (hbase.trans hswitch).trans hoverlay
  obtain ⟨new, hnew, hwalk⟩ := hwhole.walk
  have hscene : ((empty : PaintedFrame S O V).beginBase composition).scene = [] := rfl
  have hrecords : ((empty : PaintedFrame S O V).beginBase composition).records = [] := rfl
  refine ⟨?_, ?_, new, hnew, ?_⟩
  · rw [hwhole.scene, hscene]
    simp [FrameDraw.painting, Painting.contents, Painting.operations, composition.base_gpui,
      composition.overlay_gpui]
  · rw [hwhole.records, hrecords, hscene]
    simp [FrameDraw.painting, Painting.contents, Painting.records, composition.base_gpui,
      composition.overlay_gpui]
  · simpa [FrameDraw.painting, Painting.contents, Painting.marks, composition.base_gpui,
      composition.overlay_gpui, hscene] using hwalk

end PaintedFrame

namespace Painting

omit [DecidableEq S] in
lemma contents_built (painting : Painting S O (DrawnView V)) :
    painting.built.contents = painting.contents := by
  induction painting with
  | done => rfl
  | operation op rest ih => rw [built, contents, contents, ih]
  | scope inner content rest ihcontent ih => rw [built, contents, contents, ihcontent, ih]
  | view drawn content rest ihcontent ih => rw [built, contents, contents, ihcontent, ih]

omit [DecidableEq S] in
lemma built_unchanged_stays (composition : Composition S) (last : Recorded S O V)
    (painting : Painting S O (DrawnView V)) :
    painting.built.Unchanged composition last ∧
      ∀ surface, painting.built.Stays composition last surface := by
  induction painting with
  | done => exact ⟨trivial, fun _ => trivial⟩
  | operation op rest ih => exact ih
  | scope inner content rest ihcontent ih =>
    exact ⟨⟨fun _ => ihcontent.1, ih.1⟩, fun surface => ⟨fun _ => ihcontent.2 inner, ih.2 surface⟩⟩
  | view drawn content rest ihcontent ih =>
    exact ⟨⟨ihcontent.1, ih.1⟩, fun surface => ⟨ihcontent.2 surface, ih.2 surface⟩⟩

end Painting

namespace PaintedFrame

variable {composition : Composition S}

lemma empty_offers : Offers composition (empty : PaintedFrame S O V) fun _ => none :=
  ⟨.nil, by simp⟩

lemma run_offers (draws : List (FrameDraw S O V)) (draw : FrameDraw S O V)
    {rendered : PaintedFrame S O V} {last : Painting.Recorded S O V}
    (hoffers : Offers composition rendered last)
    (hunchanged : Each composition (Unchanged composition) last (draws ++ [draw]))
    (hstays : Each composition (Stays composition) last (draws ++ [draw])) :
    Shows composition
      ((draws ++ [draw]).foldl (fun rendered draw => drawFrame composition rendered draw) rendered)
      (draw.painting composition).contents := by
  induction draws generalizing rendered last with
  | nil => exact drawFrame_shows hoffers hunchanged.1 hstays.1
  | cons first draws ih =>
    exact ih (drawFrame_shows hoffers hunchanged.1 hstays.1).offers hunchanged.2 hstays.2

/-- In every frame of a run in which views drawn from the last frame stay on their surface and no
gap lies on another surface than the view spliced around it, every operation is presented on the
surface it would be presented on if every view were painted, and the starts are in scene order. -/
theorem run_presented (composition : Composition S) (draws : List (FrameDraw S O V))
    (draw : FrameDraw S O V)
    (hunchanged : Each composition (Unchanged composition) (fun _ => none) (draws ++ [draw]))
    (hstays : Each composition (Stays composition) (fun _ => none) (draws ++ [draw])) :
    (run composition (draws ++ [draw])).presented =
        (drawFrame composition empty draw.built).presented ∧
      (run composition (draws ++ [draw])).presented.isSome ∧
      (run composition (draws ++ [draw])).starts.Pairwise (·.2 ≤ ·.2) := by
  have hrun := run_offers draws draw empty_offers hunchanged hstays
  have hbuilt : Shows composition (drawFrame composition empty draw.built)
      (draw.painting composition).contents := by
    have hcontents : (draw.built.painting composition).contents =
        (draw.painting composition).contents := by
      simp [FrameDraw.painting, FrameDraw.built, Painting.contents, Painting.contents_built]
    rw [← hcontents]
    have hbase := Painting.built_unchanged_stays composition (fun _ => none) draw.base
    have hoverlay := Painting.built_unchanged_stays composition (fun _ => none) draw.overlay
    exact drawFrame_shows empty_offers ⟨fun _ => hbase.1, fun _ => hoverlay.1, trivial⟩
      ⟨fun _ => hbase.2 _, fun _ => hoverlay.2 _, trivial⟩
  refine ⟨?_, ?_, hrun.ordered⟩
  · exact hrun.presented.trans hbuilt.presented.symm
  · rw [run, hrun.presented]
    rfl

def panelComposition : Composition ℕ :=
  ⟨fun surface => if surface < 3 then some .gpui else none, 0, 1, rfl, rfl⟩

def panelDraw (how : ViewPrepaint) (dirty : Bool) (badge : ℕ) : FrameDraw ℕ ℕ ℕ where
  base := .view ⟨7, false, how⟩
    (.operation 10 (.scope 2 (.operation 11 .done)
      (.view ⟨8, dirty, .built⟩ (.operation badge .done) (.operation 13 .done)))) .done
  overlay := .done

theorem run_presented_panel :
    (run panelComposition [panelDraw .built false 12, panelDraw (.spliced 0) true 22,
      panelDraw (.reused 0) false 22]).presented =
    (drawFrame panelComposition empty (panelDraw (.reused 0) false 22).built).presented :=
  (run_presented panelComposition [panelDraw .built false 12, panelDraw (.spliced 0) true 22]
    (panelDraw (.reused 0) false 22)
    (by simp [Each, Unchanged, FrameDraw.painting, recorded,
      panelDraw, Painting.Unchanged, Painting.ViewUnchanged, Painting.GapsUnchanged,
      Painting.recorded?, Painting.contents, Painting.count, panelComposition, Painting.SameAround])
    (by simp [Each, Stays, FrameDraw.painting, recorded, panelDraw,
      Painting.Stays, Painting.ViewStays, Painting.GapsStay, Painting.recorded?, Painting.contents,
      Painting.count, panelComposition])).1

def spanningDraw (how : ViewPrepaint) (dirty : Bool) (badge : ℕ) : FrameDraw ℕ ℕ ℕ where
  base := .view ⟨7, false, how⟩
    (.scope 2 (.operation 10
      (.view ⟨8, dirty, .built⟩ (.operation badge .done) (.operation 11 .done))) .done) .done
  overlay := .done

/-- A scope that spans a gap is left where the gap begins. -/
theorem spanning_scope_lost :
    Each panelComposition (Unchanged panelComposition) (fun _ => none)
      [spanningDraw .built false 12, spanningDraw (.spliced 0) true 22] ∧
    (run panelComposition
      [spanningDraw .built false 12, spanningDraw (.spliced 0) true 22]).presented =
      some [(10, some 2), (22, some 0), (11, some 0)] ∧
    (drawFrame panelComposition empty (spanningDraw (.spliced 0) true 22).built).presented =
      some [(10, some 2), (22, some 2), (11, some 2)] :=
  ⟨by simp [Each, Unchanged, FrameDraw.painting, recorded, spanningDraw, Painting.Unchanged,
      Painting.ViewUnchanged, Painting.GapsUnchanged, Painting.recorded?, Painting.contents,
      Painting.count, panelComposition, Painting.SameAround], by decide, by decide⟩

end PaintedFrame

end GpuiFast
