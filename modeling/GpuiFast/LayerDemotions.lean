import GpuiFast.LayerPolicyDiscipline

/-! What holds of a container's entry between frames, that every frame keeps it, and what it gives: the
history, the frames a demotion keeps the container off its layer, and that the entry lives as long. -/

namespace GpuiFast.ScrollLayer

open List Option Layer

variable {K ρ : Type*} [Field K] [LinearOrder K] [FloorRing K] [DecidableEq ρ]

variable (layer : Layer K ρ) (frame : ℕ) {run : PolicyRun K ρ} {w : ℕ}

omit [FloorRing K] [DecidableEq ρ] in
lemma foldl_noteWork (works : List K) (layer : Layer K ρ) :
    ∃ work, works.foldl (·.noteWork frame ·) layer =
      { layer with policy := { layer.policy with work := work } } := by
  induction works generalizing layer with
  | nil => exact ⟨layer.policy.work, rfl⟩
  | cons w works ih =>
    obtain ⟨work, hwork⟩ := ih (layer.noteWork frame w)
    exact ⟨work, hwork⟩

omit [Field K] [LinearOrder K] [FloorRing K] [DecidableEq ρ] in
lemma Layer.paint_spec (painted : Painted K) :
    ∃ record retryAt paintedIn,
      (record = layer.record ∨ record = none ∨
        ∃ decision, layer.policy.lastDecision = some decision ∧ decision ≠ .bypass) ∧
      layer.paint frame painted =
        { layer with
          record := record
          policy := { layer.policy with retryAt := retryAt, paintedIn := paintedIn } } := by
  simp only [paint]
  split
  · split
    · rename_i hrepaint
      exact ⟨_, _, _, .inr (.inr ⟨_, hrepaint, by simp⟩), rfl⟩
    · rename_i hcomposite
      exact ⟨_, _, _, .inr (.inr ⟨_, hcomposite, by simp⟩), rfl⟩
    · exact ⟨none, _, none, .inr (.inl rfl), rfl⟩
    · exact ⟨none, _, none, .inr (.inl rfl), rfl⟩
    · exact ⟨_, _, _, .inl rfl, rfl⟩
  · exact ⟨_, _, _, .inl rfl, rfl⟩

omit [Field K] [LinearOrder K] [FloorRing K] [DecidableEq ρ] in
lemma Layer.noteUnchangedRepaint_eq :
    layer.noteUnchangedRepaint frame =
      { layer with
        policy := { layer.policy with
          changeHistory :=
            if layer.policy.lastSeenFrame = frame then layer.policy.changeHistory &&& ~~~1
            else layer.policy.changeHistory } } := by
  by_cases hseen : layer.policy.lastSeenFrame = frame
  · simp [noteUnchangedRepaint, hseen]
  · simp [noteUnchangedRepaint, hseen]

omit [Field K] [LinearOrder K] [FloorRing K] [DecidableEq ρ] in
lemma Layer.finishFrame_spec (anchored : Bool) :
    ∃ contentAnchored, layer.finishFrame frame anchored =
      { layer with policy := { layer.policy with contentAnchored := contentAnchored } } := by
  simp only [finishFrame]
  split
  · exact ⟨_, rfl⟩
  · exact ⟨_, rfl⟩

omit [FloorRing K] [DecidableEq ρ] in
lemma settle_spec (drawn : PolicyFrame K ρ) (layer : Layer K ρ) :
    ∃ record work retryAt paintedIn anchored,
      (record = layer.record ∨ record = none ∨
        ∃ decision, layer.policy.lastDecision = some decision ∧ decision ≠ .bypass) ∧
      PolicyRun.settle frame drawn layer =
        { layer with
          record := record
          policy := { layer.policy with
            work := work
            retryAt := retryAt
            paintedIn := paintedIn
            contentAnchored := anchored
            changeHistory :=
              if drawn.unchangedRepaint = true ∧ layer.policy.lastSeenFrame = frame then
                layer.policy.changeHistory &&& ~~~1
              else layer.policy.changeHistory } } := by
  obtain ⟨work, hwork⟩ := foldl_noteWork frame drawn.works layer
  obtain ⟨record, retryAt, paintedIn, hrecord, hpaint⟩ := paint_spec
    ({ layer with policy := { layer.policy with work := work } } : Layer K ρ) frame drawn.painted
  refine ⟨record, work, retryAt, paintedIn, ?_⟩
  simp only [PolicyRun.settle, hwork, hpaint]
  cases hunchanged : drawn.unchangedRepaint with
  | true =>
    obtain ⟨anchored, hanchored⟩ := finishFrame_spec (Layer.noteUnchangedRepaint
      { layer with
        record := record
        policy := { layer.policy with work := work, retryAt := retryAt, paintedIn := paintedIn } }
      frame) frame drawn.anchored
    refine ⟨anchored, hrecord, ?_⟩
    rw [if_pos rfl, hanchored, noteUnchangedRepaint_eq]
    simp
  | false =>
    obtain ⟨anchored, hanchored⟩ := finishFrame_spec
      ({ layer with
        record := record
        policy := { layer.policy with work := work, retryAt := retryAt, paintedIn := paintedIn } }
      : Layer K ρ) frame drawn.anchored
    refine ⟨anchored, hrecord, ?_⟩
    rw [if_neg (by simp), hanchored]
    simp

lemma takenBack_bit (history : BitVec 16) {k : ℕ} (hk : k < 16) :
    (history &&& ~~~1).getLsbD k = true ↔ history.getLsbD k = true ∧ k ≠ 0 := by
  have hbits : ∀ j < 16, (~~~1 : BitVec 16).getLsbD j = Decidable.decide (j ≠ 0) := by decide
  rw [BitVec.getLsbD_and, Bool.and_eq_true, hbits k hk, decide_eq_true_eq]

/-- What holds of an entry made on the frame `since` and last looked at on `seen`. -/
structure Kept (log : PolicyLog) (since seen : ℕ) (layer : Layer K ρ) : Prop where
  notList : layer.rows.list = false
  lastSeen : layer.policy.lastSeenFrame = seen
  since_le : since ≤ seen
  empty : layer.policy.demotedUntil.isSome → layer.record = none
  drawn : ∀ decision, layer.policy.lastDecision = some decision → decision ≠ .bypass →
    layer.policy.demotedUntil = none
  doubles : Doubles log since layer
  remembers : Remembers log layer

namespace Kept

variable {log : PolicyLog} {since seen frame : ℕ} {layer : Layer K ρ}

omit [LinearOrder K] [FloorRing K] [DecidableEq ρ] in
lemma of_new (hnoticed : ∀ c ∈ log.noticed, c < frame) (hdemotions : ∀ f ∈ log.demotions, f < frame)
    (hgone : ∀ c ∈ log.changed, c + 16 ≤ frame) : Kept log frame frame (new frame : Layer K ρ) := by
  have hnone : log.noticed.filter (frame ≤ ·) = [] := by
    refine filter_eq_nil_iff.mpr (fun c hc => ?_)
    have := hnoticed c hc
    simp only [decide_eq_true_eq]
    omega
  have hzero : log.standing frame frame = 0 := by
    refine countP_eq_zero.mpr (fun f hf => ?_)
    have := hdemotions f hf
    simp only [decide_eq_true_eq, not_and]
    omega
  refine ⟨rfl, rfl, le_rfl, by simp [new], by simp [new],
    ⟨by simp [new], ?_, Nat.zero_le _, ?_⟩, ⟨?_, ?_, ?_⟩⟩
  · simp [hnone, new]
  · simp [new, hzero]
  · intro k hk
    simp only [new]
    constructor
    · intro hbit
      simp at hbit
    · rintro ⟨hle, hmem, -⟩
      have := hgone _ hmem
      omega
  · intro c hc
    have := hgone c hc
    simp only [new]
    omega
  · intro c hc
    have := hgone c hc
    left
    simp only [new]
    omega

lemma decide (look : Look K ρ) (h : Kept log since seen layer) (hseen : seen ≤ frame)
    (hdemotions : ∀ f ∈ log.demotions, f < frame) :
    Kept (log.look since frame layer look) since frame (layer.decide frame look).1 := by
  have hlast : layer.policy.lastSeenFrame ≤ frame := h.lastSeen.trans_le hseen
  refine ⟨?_, layer.decide_lastSeenFrame frame look, h.since_le.trans hseen, ?_, ?_,
    h.doubles.decide look (h.since_le.trans hseen) hlast hdemotions,
    h.remembers.decide h.notList h.empty hlast hdemotions⟩
  · rw [decide_list, h.notList]
    split
    · rfl
    · rfl
  · intro huntil
    rcases layer.decide_record frame look with hrecord | ⟨hdemotes, hrecord⟩
    · exact hrecord
    rw [decide_demotedUntil, hdemotes, if_neg (by simp)] at huntil
    rw [hrecord]
    refine h.empty ?_
    by_contra hnone
    rw [demotedNow_of_none (by simpa using hnone)] at huntil
    cases huntil
  · intro decision hdecision hdrawn
    rw [decide_lastDecision] at hdecision
    exact demotedUntil_of_drawn (some.inj hdecision ▸ hdrawn)

omit [FloorRing K] [DecidableEq ρ] in
lemma settle (drawn : PolicyFrame K ρ) (h : Kept log since seen layer) (hseen : seen ≤ frame) :
    Kept (if drawn.unchangedRepaint then log.takeBack frame else log) since seen
      (PolicyRun.settle frame drawn layer) := by
  obtain ⟨record, work, retryAt, paintedIn, anchored, hrecord, heq⟩ :=
    settle_spec frame drawn layer
  obtain ⟨hlist, hlast, hsince, hempty, hdrawn, hdoubles, hremembers⟩ := h
  rw [heq]
  refine ⟨hlist, hlast, hsince, ?_, hdrawn, ?_, ?_⟩
  · intro huntil
    rcases hrecord with hrecord | hrecord | ⟨decision, hdecision, hne⟩
    · exact hrecord.trans (hempty huntil)
    · exact hrecord
    · have huntil : layer.policy.demotedUntil.isSome := huntil
      rw [hdrawn decision hdecision hne] at huntil
      cases huntil
  · split
    · exact ⟨hdoubles.changed, hdoubles.latest, hdoubles.seen, hdoubles.doublings⟩
    · exact ⟨hdoubles.changed, hdoubles.latest, hdoubles.seen, hdoubles.doublings⟩
  · by_cases hunchanged : drawn.unchangedRepaint = true
    · rw [if_pos hunchanged]
      have hfilter : ∀ c ∈ (log.takeBack frame).changed, c ∈ log.changed :=
        fun c hc => mem_of_mem_filter hc
      refine ⟨?_, fun c hc => hremembers.before c (hfilter c hc),
        fun c hc => hremembers.recent c (hfilter c hc)⟩
      intro k hk
      have hold := hremembers.history k hk
      simp only [hunchanged, true_and, PolicyLog.takeBack, mem_filter, decide_eq_true_eq]
      split
      · rename_i hnow
        rw [takenBack_bit _ hk, hold]
        constructor
        · rintro ⟨⟨hle, hmem, hall⟩, hk0⟩
          exact ⟨hle, ⟨hmem, by omega⟩, hall⟩
        · rintro ⟨hle, ⟨hmem, hne⟩, hall⟩
          exact ⟨⟨hle, hmem, hall⟩, by omega⟩
      · rename_i hnow
        rw [hold]
        constructor
        · rintro ⟨hle, hmem, hall⟩
          exact ⟨hle, ⟨hmem, by omega⟩, hall⟩
        · rintro ⟨hle, ⟨hmem, -⟩, hall⟩
          exact ⟨hle, hmem, hall⟩
    · rw [if_neg hunchanged]
      refine ⟨?_, hremembers.before, hremembers.recent⟩
      simpa [hunchanged] using hremembers.history

end Kept

structure Logged (log : PolicyLog) (frame : ℕ) (entry : Option (Layer K ρ)) : Prop where
  changed : ∀ c ∈ log.changed, c < frame
  noticed : ∀ c ∈ log.noticed, c < frame
  demotions : ∀ f ∈ log.demotions, f < frame
  waits : ∀ w ∈ log.waits, frame ≤ w → ∃ layer until',
    entry = some layer ∧ layer.policy.demotedUntil = some until' ∧ w ≤ until'

structure Holds (run : PolicyRun K ρ) : Prop where
  logged : Logged run.log run.frame run.entry
  gone : run.entry = none → ∀ c ∈ run.log.changed, c + 16 ≤ run.frame
  kept : ∀ layer ∈ run.entry, ∃ seen < run.frame, Kept run.log run.madeOn seen layer

structure HoldsSeen (run : PolicyRun K ρ) : Prop where
  logged : Logged run.log (run.frame + 1) run.entry
  gone : run.entry = none → ∀ c ∈ run.log.changed, c + 16 ≤ run.frame
  kept : ∀ layer ∈ run.entry, ∃ seen ≤ run.frame, Kept run.log run.madeOn seen layer

omit [Field K] [LinearOrder K] [FloorRing K] [DecidableEq ρ] in
lemma holds_start : Holds (PolicyRun.start : PolicyRun K ρ) := by
  refine ⟨⟨?_, ?_, ?_, ?_⟩, ?_, ?_⟩
  · simp [PolicyRun.start, PolicyLog.empty]
  · simp [PolicyRun.start, PolicyLog.empty]
  · simp [PolicyRun.start, PolicyLog.empty]
  · simp [PolicyRun.start, PolicyLog.empty]
  · simp [PolicyRun.start, PolicyLog.empty]
  · simp [PolicyRun.start]

omit [Field K] [LinearOrder K] [FloorRing K] [DecidableEq ρ] in
lemma Holds.notSeen (h : Holds run) : HoldsSeen run where
  logged :=
    { changed := fun c hc => (h.logged.changed c hc).trans (Nat.lt_succ_self _)
      noticed := fun c hc => (h.logged.noticed c hc).trans (Nat.lt_succ_self _)
      demotions := fun f hf => (h.logged.demotions f hf).trans (Nat.lt_succ_self _)
      waits := fun w hw hle => h.logged.waits w hw ((Nat.le_succ _).trans hle) }
  gone := h.gone
  kept := fun layer hlayer => by
    obtain ⟨seen, hseen, hkept⟩ := h.kept layer hlayer
    exact ⟨seen, hseen.le, hkept⟩

omit [LinearOrder K] [FloorRing K] [DecidableEq ρ] in
lemma Holds.entered (h : Holds run) {look : Look K ρ} {layer : Layer K ρ}
    (hentered : run.entered look = some layer) :
    ∃ seen ≤ run.frame,
      Kept run.log (if run.entry.isSome then run.madeOn else run.frame) seen layer := by
  cases hentry : run.entry with
  | some old =>
    have hsame : old = layer := by simpa [PolicyRun.entered, hentry] using hentered
    obtain ⟨seen, hseen, hkept⟩ := h.kept old (by simp [hentry])
    exact ⟨seen, hseen.le, by simpa [← hsame] using hkept⟩
  | none =>
    simp only [PolicyRun.entered, hentry, ite_none_right_eq_some] at hentered
    obtain ⟨-, hnew⟩ := hentered
    cases hnew
    exact ⟨run.frame, le_rfl,
      Kept.of_new h.logged.noticed h.logged.demotions (h.gone hentry)⟩

lemma Holds.waiting (h : Holds run) (look : Look K ρ) (hw : w ∈ run.log.waits)
    (hframe : run.frame < w) :
    ∃ layer longer, run.entry = some layer ∧ layer.demotes run.frame look = false ∧
      layer.decision run.frame look = .bypass ∧
      (layer.decide run.frame look).1.policy.demotedUntil = some longer ∧ w ≤ longer ∧
      (look.changedWithoutLayer = true → run.frame + REPROMOTE_AFTER_STABLE_FRAMES ≤ longer) := by
  obtain ⟨layer, until', hentry, huntil, hle⟩ := h.logged.waits w hw hframe.le
  obtain ⟨seen, -, hkept⟩ := h.kept layer (by simp [hentry])
  obtain ⟨longer, hlonger, hgrown, hmore⟩ :=
    demotedNow_grows look hkept.notList huntil (hframe.trans_le hle)
  have hrecord : layer.record = none := hkept.empty (by simp [huntil])
  have hsome : (layer.demotedNow run.frame look).isSome := by simp [hlonger]
  have hdemotes : layer.demotes run.frame look = false := by
    simp [demotes, find_of_waiting hsome hrecord, Finding.bypass]
  refine ⟨layer, longer, hentry, hdemotes, decision_of_waiting hsome hrecord, ?_,
    hle.trans hgrown, hmore⟩
  rw [decide_demotedUntil, hdemotes, if_neg (by simp), hlonger]

lemma Holds.look (h : Holds run) (look : Look K ρ) : HoldsSeen (run.look look) := by
  cases hentered : run.entered look with
  | none =>
    have hsame : run.look look = run := by simp [PolicyRun.look, hentered]
    rw [hsame]
    exact h.notSeen
  | some layer =>
    obtain ⟨seen, hseen, hkept⟩ := h.entered hentered
    have hdecided := hkept.decide look hseen h.logged.demotions
    have hrun : run.look look =
        { run with
          entry := some (layer.decide run.frame look).1
          madeOn := if run.entry.isSome then run.madeOn else run.frame
          log := run.log.look (if run.entry.isSome then run.madeOn else run.frame) run.frame layer
            look } := by
      simp [PolicyRun.look, hentered]
    rw [hrun]
    refine ⟨⟨?_, ?_, ?_, ?_⟩, by simp, ?_⟩
    · have hbefore := hdecided.remembers.before
      rw [decide_lastSeenFrame] at hbefore
      exact fun c hc => Nat.lt_succ_of_le (hbefore c hc)
    · intro c hc
      simp only [PolicyLog.look] at hc
      split at hc
      · rcases mem_cons.mp hc with rfl | hc
        · exact Nat.lt_succ_self _
        · exact (h.logged.noticed c hc).trans (Nat.lt_succ_self _)
      · exact (h.logged.noticed c hc).trans (Nat.lt_succ_self _)
    · intro f hf
      simp only [PolicyLog.look] at hf
      split at hf
      · rcases mem_cons.mp hf with rfl | hf
        · exact Nat.lt_succ_self _
        · exact (h.logged.demotions f hf).trans (Nat.lt_succ_self _)
      · exact (h.logged.demotions f hf).trans (Nat.lt_succ_self _)
    · intro w hw hframe
      simp only [PolicyLog.look, mem_append] at hw
      rcases hw with (hw | hw) | hw
      · -- the wait of a demotion is as long as its cooldown
        split at hw
        · rename_i hdemotes
          have hnow := hkept.doubles.doublingsNow_eq (hkept.lastSeen.trans_le hseen)
            h.logged.demotions
          refine ⟨_, _, rfl, ?_, le_rfl⟩
          rw [decide_demotedUntil, if_pos hdemotes, cooldown_eq, hnow]
          rw [mem_singleton.mp hw, PolicyLog.wait]
        · cases hw
      · split at hw
        · rename_i hwaits
          obtain ⟨hchanged, hany⟩ := Bool.and_eq_true_iff.mp hwaits
          obtain ⟨w', hw', hlt⟩ := any_eq_true.mp hany
          obtain ⟨old, longer, hentry, -, -, hlonger, -, hmore⟩ :=
            h.waiting look hw' (by simpa using hlt)
          have hsame : old = layer := by simpa [PolicyRun.entered, hentry] using hentered
          rw [← hsame]
          refine ⟨_, longer, rfl, hlonger, ?_⟩
          rw [mem_singleton.mp hw]
          exact hmore hchanged
        · cases hw
      · obtain ⟨old, longer, hentry, -, -, hlonger, hle, -⟩ := h.waiting look hw hframe
        have hsame : old = layer := by simpa [PolicyRun.entered, hentry] using hentered
        rw [← hsame]
        exact ⟨_, longer, rfl, hlonger, hle⟩
    · intro decided hmem
      cases hmem
      exact ⟨run.frame, le_rfl, hdecided⟩

omit [FloorRing K] [DecidableEq ρ] in
lemma HoldsSeen.settle (h : HoldsSeen run) (drawn : PolicyFrame K ρ) :
    Holds
      { run with
        frame := run.frame + 1
        entry := (run.entry.map (PolicyRun.settle run.frame drawn)).filter (·.keep run.frame)
        log := if drawn.unchangedRepaint then run.log.takeBack run.frame else run.log } := by
  have hchanged : ∀ c ∈ (if drawn.unchangedRepaint then run.log.takeBack run.frame
      else run.log).changed, c ∈ run.log.changed := by
    intro c hc
    split at hc
    · exact mem_of_mem_filter hc
    · exact hc
  have hrest : (if drawn.unchangedRepaint then run.log.takeBack run.frame else run.log).noticed =
        run.log.noticed ∧
      (if drawn.unchangedRepaint then run.log.takeBack run.frame else run.log).demotions =
        run.log.demotions ∧
      (if drawn.unchangedRepaint then run.log.takeBack run.frame else run.log).waits =
        run.log.waits := by
    split
    · exact ⟨rfl, rfl, rfl⟩
    · exact ⟨rfl, rfl, rfl⟩
  obtain ⟨hnoticed, hdemotions, hwaits⟩ := hrest
  refine ⟨⟨fun c hc => h.logged.changed c (hchanged c hc), ?_, ?_, ?_⟩, ?_, ?_⟩
  · rw [hnoticed]
    exact h.logged.noticed
  · rw [hdemotions]
    exact h.logged.demotions
  · -- an entry that waits for a later frame is kept
    rw [hwaits]
    intro w hw hle
    obtain ⟨layer, until', hentry, huntil, hwle⟩ := h.logged.waits w hw hle
    obtain ⟨record, work, retryAt, paintedIn, anchored, -, heq⟩ :=
      settle_spec run.frame drawn layer
    have huntil' : (PolicyRun.settle run.frame drawn layer).policy.demotedUntil = some until' := by
      rw [heq]
      exact huntil
    refine ⟨PolicyRun.settle run.frame drawn layer, until', ?_, huntil', hwle⟩
    have hkeep : (PolicyRun.settle run.frame drawn layer).keep run.frame = true := by
      simp only [keep, huntil', any_some, Bool.or_eq_true, decide_eq_true_eq]
      right
      have hle : run.frame + 1 ≤ w := hle
      omega
    simp [hentry, Option.filter, hkeep]
  · intro hgone c hc
    have hc := hchanged c hc
    cases hentry : run.entry with
    | none => exact (h.gone hentry c hc).trans (Nat.le_succ _)
    | some layer =>
      -- a forgotten entry had not changed for long
      obtain ⟨seen, hseen, hkept⟩ := h.kept layer (by simp [hentry])
      obtain ⟨record, work, retryAt, paintedIn, anchored, -, heq⟩ :=
        settle_spec run.frame drawn layer
      have hkeep : (PolicyRun.settle run.frame drawn layer).keep run.frame = false := by
        by_contra hkeep
        simp [hentry, Option.filter, hkeep] at hgone
      simp only [keep, heq, Bool.or_eq_false_iff, decide_eq_false_iff_not,
        any_eq_false_iff_get, DROP_AFTER_FRAMES] at hkeep
      obtain ⟨⟨hcomposited, -⟩, hwaiting⟩ := hkeep
      rcases hkept.remembers.recent c hc with hlast | ⟨until', huntil, hlast⟩ | hlast
      · simp only
        omega
      · simp only [huntil] at hwaiting
        simp only [REPROMOTE_AFTER_STABLE_FRAMES] at hlast
        simp at hwaiting
        simp only
        omega
      · rw [hkept.lastSeen] at hlast
        simp only [REPROMOTE_AFTER_STABLE_FRAMES] at hlast ⊢
        omega
  · intro settled hsettled
    cases hentry : run.entry with
    | none => simp [hentry] at hsettled
    | some layer =>
      obtain ⟨seen, hseen, hkept⟩ := h.kept layer (by simp [hentry])
      have hsame : PolicyRun.settle run.frame drawn layer = settled := by
        simp only [hentry, map_some, mem_def, Option.filter] at hsettled
        split at hsettled
        · exact some.inj hsettled
        · cases hsettled
      rw [← hsame]
      exact ⟨seen, Nat.lt_succ_of_le hseen, hkept.settle drawn hseen⟩

lemma Holds.draw (h : Holds run) (drawn : PolicyFrame K ρ) : Holds (run.draw drawn) := by
  cases hlook : drawn.look with
  | none =>
    have hdraw := h.notSeen.settle drawn
    simpa [PolicyRun.draw, hlook] using hdraw
  | some look =>
    have hdraw := (h.look look).settle drawn
    have hframe : (run.look look).frame = run.frame := by
      simp only [PolicyRun.look]
      split
      · rfl
      · rfl
    rw [hframe] at hdraw
    simpa [PolicyRun.draw, hlook] using hdraw

lemma holds_run (frames : List (PolicyFrame K ρ)) : Holds (PolicyRun.drawAll frames) := by
  induction frames using reverseRecOn with
  | nil => exact holds_start
  | append_singleton frames drawn ih =>
    rw [PolicyRun.drawAll, foldl_append]
    exact ih.draw drawn

lemma waits_draw (run : PolicyRun K ρ) (drawn : PolicyFrame K ρ) (hw : w ∈ run.log.waits) :
    w ∈ (run.draw drawn).log.waits := by
  have hlook : ∀ look, w ∈ (run.look look).log.waits := by
    intro look
    simp only [PolicyRun.look]
    split
    · exact mem_append_right _ hw
    · exact hw
  cases hlooks : drawn.look with
  | some look =>
    simp only [PolicyRun.draw, hlooks]
    split
    · exact hlook look
    · exact hlook look
  | none =>
    simp only [PolicyRun.draw, hlooks]
    split
    · exact hw
    · exact hw

lemma waits_foldl (run : PolicyRun K ρ) (frames : List (PolicyFrame K ρ)) (hw : w ∈ run.log.waits) :
    w ∈ (frames.foldl PolicyRun.draw run).log.waits := by
  induction frames generalizing run with
  | nil => exact hw
  | cons drawn frames ih => exact ih (run.draw drawn) (waits_draw run drawn hw)

lemma waits_look {drawn : PolicyFrame K ρ} {look : Look K ρ} (hlook : drawn.look = some look)
    (hw : w ∈ (run.look look).log.waits) : w ∈ (run.draw drawn).log.waits := by
  simp only [PolicyRun.draw, hlook]
  split
  · exact hw
  · exact hw

lemma Holds.waits (h : Holds run) (hw : w ∈ run.log.waits) (hframe : run.frame < w) :
    run.entry.isSome ∧ ∀ look, run.answer look = .bypass := by
  constructor
  · obtain ⟨layer, until', hentry, -, -⟩ := h.logged.waits w hw hframe.le
    simp [hentry]
  · intro look
    obtain ⟨layer, longer, hentry, -, hbypass, -⟩ := h.waiting look hw hframe
    simp [PolicyRun.answer, PolicyRun.entered, hentry, decide_answer, hbypass]

/-- Over every run of frames a container's history holds the changes found since its last demotion;
after a demotion, and after a change while one lasts, its entry is kept and answers to do without a
layer for as long as the demotions that stand since the entry was made ask for. -/
theorem PolicyRun.run_disciplined (frames : List (PolicyFrame K ρ)) :
    let run := PolicyRun.drawAll frames
    (∀ layer ∈ run.entry, ∀ k < 16, layer.policy.changeHistory.getLsbD k = true ↔
      k ≤ layer.policy.lastSeenFrame ∧ layer.policy.lastSeenFrame - k ∈ run.log.changed ∧
        ∀ f ∈ run.log.demotions, f < layer.policy.lastSeenFrame - k) ∧
    (∀ layer ∈ run.entry, ∀ drawn look, drawn.look = some look →
      layer.demotes run.frame look = true → ∀ after,
        let later := PolicyRun.drawAll (frames ++ drawn :: after)
        later.frame < run.log.wait run.madeOn run.frame →
          later.entry.isSome ∧ ∀ next, later.answer next = .bypass) ∧
    ∀ w ∈ run.log.waits, run.frame < w → ∀ drawn look, drawn.look = some look →
      look.changedWithoutLayer = true → ∀ after,
        let later := PolicyRun.drawAll (frames ++ drawn :: after)
        later.frame < run.frame + REPROMOTE_AFTER_STABLE_FRAMES →
          later.entry.isSome ∧ ∀ next, later.answer next = .bypass := by
  intro run
  have h : Holds run := holds_run frames
  have hlater : ∀ drawn after, PolicyRun.drawAll (frames ++ drawn :: after) =
      after.foldl PolicyRun.draw (run.draw drawn) := by
    intro drawn after
    rw [PolicyRun.drawAll, foldl_append, foldl_cons]
    rfl
  refine ⟨?_, ?_, ?_⟩
  · intro layer hlayer k hk
    obtain ⟨seen, -, hkept⟩ := h.kept layer hlayer
    exact hkept.remembers.history k hk
  · intro layer hlayer drawn look hlook hdemotes after later hframe
    refine (holds_run (frames ++ drawn :: after)).waits ?_ hframe
    rw [hlater]
    refine waits_foldl _ _ (waits_look hlook ?_)
    have hentry : run.entry = some layer := hlayer
    simp [PolicyRun.look, PolicyRun.entered, hentry, PolicyLog.look, hdemotes]
  · intro w hw hwait drawn look hlook hchanged after later hframe
    refine (holds_run (frames ++ drawn :: after)).waits ?_ hframe
    rw [hlater]
    refine waits_foldl _ _ (waits_look hlook ?_)
    obtain ⟨layer, -, hentry, -, -⟩ := h.logged.waits w hw hwait.le
    have hany : run.log.waits.any (run.frame < ·) = true :=
      any_eq_true.mpr ⟨w, hw, by simpa using hwait⟩
    simp [PolicyRun.look, PolicyRun.entered, hentry, PolicyLog.look, hchanged, hany]

def lookAt (y : ℚ) (noted scrollOnly : Bool) : Look ℚ Unit where
  context := ⟨⟨⟨0, 0⟩, ⟨100, 100⟩⟩, ⟨100, 1000⟩, ⟨⟨0, 0⟩, ⟨100, 100⟩⟩, 1, ()⟩
  scrollOffset := ⟨0, y⟩
  noted := noted
  isList := false
  changedWithoutLayer := false
  ownerAnimating := false
  animationFrameRequested := false
  scrollOnly := scrollOnly
  ownerRerenderedOnly := false

def frameOf (look : Option (Look ℚ Unit)) (hasPaths : Bool) : PolicyFrame ℚ Unit where
  look := look
  works := []
  painted := .record
    { paintedRegion := ⟨⟨0, 0⟩, ⟨100, 300⟩⟩, viewport := ⟨⟨0, 0⟩, ⟨100, 100⟩⟩
      scrollOffset := ⟨0, -1⟩, hasPaths := hasPaths, defersDraws := false, handlesInput := false }
  unchangedRepaint := false
  anchored := false

def scrolledTwice (hasPaths : Bool) : List (PolicyFrame ℚ Unit) :=
  [frameOf (some (lookAt 0 true true)) hasPaths, frameOf (some (lookAt (-1) true true)) hasPaths]

def changedEightTimes : List (PolicyFrame ℚ Unit) :=
  scrolledTwice false ++ List.replicate 8 (frameOf (some (lookAt (-1) false false)) false)

/-- A layer demoted for its paths, hidden until its entry is forgotten, and made again. -/
def hiddenOnceDemoted : List (PolicyFrame ℚ Unit) :=
  scrolledTwice true ++ [frameOf (some (lookAt (-1) false true)) true] ++
    List.replicate 180 (frameOf none true) ++ scrolledTwice true

def nearlyCooledDown : List (PolicyFrame ℚ Unit) :=
  List.replicate 58 (frameOf none true) ++ [frameOf (some (lookAt 0 true true)) true]

/-- A demotion clears the history of its own frame, and an entry that is forgotten takes its
demotions with it: a history of every change, and waits that count every demotion of a run, are not
what the code keeps. -/
theorem PolicyRun.run_undisciplined :
    (¬∀ frames : List (PolicyFrame ℚ Unit), ∀ layer ∈ (drawAll frames).entry, ∀ k < 16,
      layer.policy.changeHistory.getLsbD k = true ↔ k ≤ layer.policy.lastSeenFrame ∧
        layer.policy.lastSeenFrame - k ∈ (drawAll frames).log.changed) ∧
    ¬∀ frames : List (PolicyFrame ℚ Unit), let run := drawAll frames
      ∀ layer ∈ run.entry, ∀ drawn look, drawn.look = some look →
        layer.demotes run.frame look = true → ∀ after,
          let later := drawAll (frames ++ drawn :: after)
          later.frame < run.log.wait 0 run.frame → ∀ next, later.answer next = .bypass := by
  constructor
  · intro h
    have hsome : (drawAll changedEightTimes).entry.isSome := by decide
    have hbit := h changedEightTimes _ (get_mem hsome) 0 (by decide)
    revert hbit
    with_unfolding_all decide +revert
  · intro h
    have hsome : (drawAll hiddenOnceDemoted).entry.isSome := by decide +kernel
    have hbypass := h hiddenOnceDemoted _ (get_mem hsome)
      (frameOf (some (lookAt (-1) false true)) true) (lookAt (-1) false true) rfl
      (by decide +kernel +revert) nearlyCooledDown (by decide +kernel) (lookAt (-1) true true)
    revert hbypass
    decide +kernel

end GpuiFast.ScrollLayer
