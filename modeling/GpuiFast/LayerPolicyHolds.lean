import GpuiFast.LayerPolicyRuns

namespace GpuiFast.ScrollLayer

open Finding

variable {K ρ : Type*} [Field K] [LinearOrder K] [FloorRing K] [DecidableEq ρ]

namespace Layer

lemma find_of_waiting {layer : Layer K ρ} {frame : ℕ} {look : Look K ρ}
    (hwait : (layer.demotedNow frame look).isSome) (hrecord : layer.record = none) :
    layer.find frame look = .bypass false := by
  simp [find, hwait, hrecord]

lemma find_changed {layer : Layer K ρ} {frame : ℕ} {look : Look K ρ}
    (hchanged : (layer.find frame look).changed = true) :
    (layer.find frame look).decision = .repaint ∧ (layer.find frame look).ineligible = false ∧
      (layer.find frame look).ownerAnimating = false ∧ layer.jumped look = false ∧
      layer.demotedNow frame look = none := by
  revert hchanged
  simp only [find]
  split
  · simp [bypass]
  rename_i hnot
  obtain ⟨hwait, hjumped⟩ :
      (layer.demotedNow frame look).isSome = false ∧ layer.jumped look = false := by simpa using hnot
  have hnone : layer.demotedNow frame look = none := by simpa using hwait
  split
  · simp [bypass]
  split
  · -- a layer with a record
    split
    · simp [bypass]
    split
    · simp [bypass]
    split
    · simp [bypass]
    split
    · simp [bypass]
    · intro _
      simp [bypass, hnone, hjumped]
  · split
    · simp [bypass]
    · simp [bypass]

lemma record_of_demotes {layer : Layer K ρ} {frame : ℕ} {look : Look K ρ}
    (hdemotes : layer.demotes frame look = true) : layer.record.isSome := by
  by_contra hnone
  have hrecord : layer.record = none := by simpa using hnone
  revert hdemotes
  simp only [demotes, find, hrecord]
  split
  · simp [bypass]
  split
  · simp [bypass]
  split
  · simp [bypass]
  · simp [bypass]

lemma decision_of_waiting {layer : Layer K ρ} {frame : ℕ} {look : Look K ρ}
    (hwait : (layer.demotedNow frame look).isSome) (hrecord : layer.record = none) :
    layer.decision frame look = .bypass := by
  simp [decision, find_of_waiting hwait hrecord, bypass]

lemma decide_answer (layer : Layer K ρ) (frame : ℕ) (look : Look K ρ) :
    (layer.decide frame look).2 = layer.decision frame look := by
  simp only [decide]
  split
  · rfl
  split
  · rfl
  · rfl

omit [Field K] [LinearOrder K] [FloorRing K] [DecidableEq ρ] in
lemma demotedNow_grows {layer : Layer K ρ} {frame until' : ℕ} (look : Look K ρ)
    (hlist : layer.rows.list = false) (huntil : layer.policy.demotedUntil = some until')
    (hframe : frame < until') :
    ∃ longer, layer.demotedNow frame look = some longer ∧ until' ≤ longer ∧
      (look.changedWithoutLayer = true → frame + REPROMOTE_AFTER_STABLE_FRAMES ≤ longer) := by
  cases hchanged : look.changedWithoutLayer with
  | false =>
    refine ⟨until', ?_, le_rfl, by simp⟩
    simp [demotedNow, changedWhileDemoted, demotedBefore, hlist, huntil, hchanged, hframe]
  | true =>
    refine ⟨max until' (frame + REPROMOTE_AFTER_STABLE_FRAMES), ?_, le_max_left _ _,
      fun _ => le_max_right _ _⟩
    simp [demotedNow, changedWhileDemoted, demotedBefore, hlist, huntil, hchanged, hframe]

omit [Field K] [LinearOrder K] [FloorRing K] [DecidableEq ρ] in
lemma demotedNow_of_none {layer : Layer K ρ} {frame : ℕ} {look : Look K ρ}
    (huntil : layer.policy.demotedUntil = none) : layer.demotedNow frame look = none := by
  simp [demotedNow, changedWhileDemoted, demotedBefore, huntil]

variable (layer : Layer K ρ) (frame : ℕ) (look : Look K ρ)

@[simp] lemma decide_lastSeenFrame : (layer.decide frame look).1.policy.lastSeenFrame = frame := by
  simp only [decide]
  split_ifs <;> rfl

@[simp] lemma decide_lastDecision :
    (layer.decide frame look).1.policy.lastDecision = some (layer.decision frame look) := by
  simp only [decide]
  split_ifs <;> rfl

@[simp] lemma decide_list :
    (layer.decide frame look).1.rows.list =
      if layer.demotes frame look then false else layer.rows.list := by
  simp only [decide]
  split_ifs <;> rfl

@[simp] lemma decide_changeHistory :
    (layer.decide frame look).1.policy.changeHistory =
      if layer.demotes frame look then 0 else layer.historyNow frame look := by
  simp only [decide]
  split_ifs <;> rfl

@[simp] lemma decide_demotedUntil :
    (layer.decide frame look).1.policy.demotedUntil =
      if layer.demotes frame look then
        some (frame + REPROMOTE_AFTER_STABLE_FRAMES <<< layer.doublingsNow frame)
      else layer.demotedNow frame look := by
  simp only [decide]
  split_ifs <;> rfl

@[simp] lemma decide_cooldownDoublings :
    (layer.decide frame look).1.policy.cooldownDoublings =
      if layer.demotes frame look then min (layer.doublingsNow frame + 1) MAX_COOLDOWN_DOUBLINGS
      else layer.doublingsNow frame := by
  simp only [decide]
  split_ifs <;> rfl

@[simp] lemma decide_lastContentChange :
    (layer.decide frame look).1.policy.lastContentChange =
      if (layer.find frame look).changed || layer.changedWhileDemoted look then frame
      else layer.policy.lastContentChange := by
  change _ = (layer.seen frame look).policy.lastContentChange
  simp only [decide]
  split_ifs <;> rfl

lemma decide_record :
    (layer.decide frame look).1.record = none ∨
      layer.demotes frame look = false ∧ (layer.decide frame look).1.record = layer.record := by
  simp only [decide]
  split
  · exact .inl rfl
  rename_i hdemotes
  split
  · exact .inl rfl
  · exact .inr ⟨by simpa using hdemotes, rfl⟩

lemma decide_lastCompositedFrame :
    (layer.decide frame look).1.lastCompositedFrame = layer.lastCompositedFrame ∨
      (layer.decide frame look).1.lastCompositedFrame = frame := by
  simp only [decide]
  split
  · exact .inl rfl
  split
  · exact .inl rfl
  · by_cases hbypass : layer.decision frame look = .bypass
    · exact .inl (if_pos hbypass)
    · exact .inr (if_neg hbypass)

variable {layer frame look}

lemma composited_of_changed (hchanged : (layer.find frame look).changed = true)
    (hdemotes : layer.demotes frame look = false) :
    (layer.decide frame look).1.lastCompositedFrame = frame := by
  obtain ⟨hrepaint, hineligible, hanimating, hjumped, -⟩ := find_changed hchanged
  simp [decide, hdemotes, hineligible, hanimating, hjumped, decision, hrepaint]

lemma demotedUntil_of_drawn (hdrawn : layer.decision frame look ≠ .bypass) :
    (layer.decide frame look).1.policy.demotedUntil = none := by
  have hdemotes : layer.demotes frame look = false := by
    by_contra hdemotes
    exact hdrawn (if_pos (by simpa using hdemotes))
  rw [decide_demotedUntil, hdemotes]
  by_contra hwait
  have hsome : (layer.demotedNow frame look).isSome := by
    simpa [Option.isSome_iff_ne_none] using hwait
  simp [decision, hdemotes, find, hsome, bypass] at hdrawn

end Layer

end GpuiFast.ScrollLayer
