import GpuiFast.LayerPolicyHolds

namespace GpuiFast.ScrollLayer

open List

variable {K ρ : Type*} [Field K] [LinearOrder K] [FloorRing K] [DecidableEq ρ]

lemma cooldown_eq (doublings : ℕ) :
    REPROMOTE_AFTER_STABLE_FRAMES <<< doublings = REPROMOTE_AFTER_STABLE_FRAMES * 2 ^ doublings :=
  Nat.shiftLeft_eq _ _

/-- A layer's doublings are those of the demotions that stood when it was last looked at. -/
structure Doubles (log : PolicyLog) (since : ℕ) (layer : Layer K ρ) : Prop where
  changed : layer.policy.lastContentChange ∈ 0 :: log.noticed.filter (since ≤ ·)
  latest : ∀ c ∈ 0 :: log.noticed.filter (since ≤ ·), c ≤ layer.policy.lastContentChange
  seen : layer.policy.lastContentChange ≤ layer.policy.lastSeenFrame
  doublings : layer.policy.cooldownDoublings =
    min (log.standing since layer.policy.lastSeenFrame) MAX_COOLDOWN_DOUBLINGS

namespace Doubles

variable {log : PolicyLog} {since frame : ℕ} {layer : Layer K ρ}

omit [Field K] [LinearOrder K] [FloorRing K] [DecidableEq ρ] in
lemma doublingsNow_eq (h : Doubles log since layer) (hseen : layer.policy.lastSeenFrame ≤ frame)
    (hdemotions : ∀ f ∈ log.demotions, f < frame) :
    layer.doublingsNow frame = min (log.standing since frame) MAX_COOLDOWN_DOUBLINGS := by
  obtain ⟨hchanged, hlatest, hchange, hdoublings⟩ := h
  have hnow : layer.doublingsNow frame =
      if PolicyLog.FORGET_AFTER_FRAMES ≤ frame - layer.policy.lastContentChange then 0
      else layer.policy.cooldownDoublings := rfl
  by_cases hquiet : PolicyLog.FORGET_AFTER_FRAMES ≤ frame - layer.policy.lastContentChange
  · have hzero : log.standing since frame = 0 := by
      refine countP_eq_zero.mpr (fun f hf => ?_)
      simp only [decide_eq_true_eq, not_and, not_forall, not_not]
      refine fun _ => ⟨frame, le_rfl, hdemotions f hf, fun c hc _ => ?_⟩
      have hle := hlatest c hc
      have hpos : 0 < PolicyLog.FORGET_AFTER_FRAMES := by decide
      omega
    rw [hnow, if_pos hquiet, hzero, Nat.zero_min]
  · have hstanding : log.standing since frame = log.standing since layer.policy.lastSeenFrame := by
      refine countP_congr (fun f _ => ?_)
      simp only [decide_eq_true_eq]
      refine and_congr_right (fun _ => ⟨fun hall g hg => hall g (hg.trans hseen), ?_⟩)
      intro hall g hg hfg
      by_cases hgs : g ≤ layer.policy.lastSeenFrame
      · exact hall g hgs hfg
      · -- a quiet frame since would make this one quiet
        intro hquietg
        have hlast := hquietg _ hchanged (by omega)
        omega
    rw [hnow, if_neg hquiet, hstanding, hdoublings]

end Doubles

namespace PolicyLog

variable {log : PolicyLog} {since frame : ℕ} {layer : Layer K ρ} {look : Look K ρ}

lemma quiet_look {g : ℕ} (hg : g ≤ frame) :
    (log.look since frame layer look).Quiet since g ↔ log.Quiet since g := by
  simp only [Quiet, PolicyLog.look]
  split
  · rename_i hnoticed
    constructor
    · intro hall c hc
      refine hall c ?_
      rcases mem_cons.mp hc with rfl | hc
      · exact mem_cons_self
      · refine mem_cons_of_mem _ (mem_filter.mpr ?_)
        obtain ⟨hc, hsince⟩ := mem_filter.mp hc
        exact ⟨mem_cons_of_mem _ hc, hsince⟩
    · intro hall c hc hcg
      rcases mem_cons.mp hc with rfl | hc
      · exact hall 0 mem_cons_self hcg
      obtain ⟨hc, hsince⟩ := mem_filter.mp hc
      rcases mem_cons.mp hc with rfl | hc
      · omega
      · exact hall c (mem_cons_of_mem _ (mem_filter.mpr ⟨hc, hsince⟩)) hcg
  · rfl

lemma standing_look (hsince : since ≤ frame) :
    (log.look since frame layer look).standing since frame =
      log.standing since frame + if layer.demotes frame look then 1 else 0 := by
  have hsame : log.demotions.countP (fun f => since ≤ f ∧ ∀ g ≤ frame, f < g →
      ¬(log.look since frame layer look).Quiet since g) = log.standing since frame := by
    refine countP_congr (fun f _ => ?_)
    simp only [decide_eq_true_eq]
    exact and_congr_right (fun _ => forall₂_congr (fun g hg => by rw [quiet_look hg]))
  have hlast : ∀ g ≤ frame, frame < g → ¬(log.look since frame layer look).Quiet since g :=
    fun g hg hlt => absurd hg (not_le.mpr hlt)
  cases hdemotes : layer.demotes frame look with
  | false =>
    have hd : (log.look since frame layer look).demotions = log.demotions := by
      simp [PolicyLog.look, hdemotes]
    rw [standing, hd, hsame]
    rfl
  | true =>
    have hd : (log.look since frame layer look).demotions = frame :: log.demotions := by
      simp [PolicyLog.look, hdemotes]
    rw [standing, hd, countP_cons_of_pos (by simpa using ⟨hsince, hlast⟩), hsame]
    rfl

end PolicyLog

variable {log : PolicyLog} {since frame : ℕ} {layer : Layer K ρ}

lemma Doubles.decide (look : Look K ρ) (h : Doubles log since layer) (hsince : since ≤ frame)
    (hseen : layer.policy.lastSeenFrame ≤ frame) (hdemotions : ∀ f ∈ log.demotions, f < frame) :
    Doubles (log.look since frame layer look) since (layer.decide frame look).1 := by
  have hnow := h.doublingsNow_eq hseen hdemotions
  refine ⟨?_, ?_, ?_, ?_⟩
  · simp only [PolicyLog.look, Layer.decide_lastContentChange]
    split
    · simp [hsince]
    · exact h.changed
  · simp only [PolicyLog.look, Layer.decide_lastContentChange]
    split
    · intro c hc
      have hle : c ≤ frame ∨ c ∈ 0 :: log.noticed.filter (since ≤ ·) := by
        simp only [mem_cons, mem_filter] at hc ⊢
        rcases hc with rfl | ⟨rfl | hc, hs⟩
        · exact .inr (.inl rfl)
        · exact .inl le_rfl
        · exact .inr (.inr ⟨hc, hs⟩)
      rcases hle with hle | hc
      · exact hle
      · exact (h.latest c hc).trans (h.seen.trans hseen)
    · exact h.latest
  · simp only [Layer.decide_lastContentChange, Layer.decide_lastSeenFrame]
    split
    · exact le_rfl
    · exact h.seen.trans hseen
  · rw [Layer.decide_lastSeenFrame, PolicyLog.standing_look hsince, Layer.decide_cooldownDoublings,
      hnow]
    split
    · omega
    · rfl

lemma Layer.historyNow_bit (layer : Layer K ρ) (frame : ℕ) (look : Look K ρ) {k : ℕ} (hk : k < 16) :
    (layer.historyNow frame look).getLsbD k = true ↔
      (frame - layer.policy.lastSeenFrame ≤ k ∧ layer.policy.changeHistory.getLsbD
          (k - (frame - layer.policy.lastSeenFrame)) = true) ∨
        (k = 0 ∧ (layer.find frame look).changed = true) := by
  have hshifted : (if min (frame - layer.policy.lastSeenFrame) 16 < 16 then
        layer.policy.changeHistory <<< min (frame - layer.policy.lastSeenFrame) 16
      else 0 : BitVec 16).getLsbD k = true ↔
      frame - layer.policy.lastSeenFrame ≤ k ∧ layer.policy.changeHistory.getLsbD
          (k - (frame - layer.policy.lastSeenFrame)) = true := by
    by_cases helapsed : frame - layer.policy.lastSeenFrame < 16
    · have hmin : min (frame - layer.policy.lastSeenFrame) 16 =
          frame - layer.policy.lastSeenFrame := min_eq_left helapsed.le
      rw [hmin, if_pos helapsed, BitVec.getLsbD_shiftLeft]
      simp [hk]
    · have hmin : min (frame - layer.policy.lastSeenFrame) 16 = 16 :=
        min_eq_right (not_lt.mp helapsed)
      rw [hmin, if_neg (lt_irrefl 16)]
      constructor
      · intro hzero
        simp at hzero
      · rintro ⟨hle, -⟩
        omega
  simp only [Layer.historyNow]
  cases hchanged : (layer.find frame look).changed with
  | false => simpa using hshifted
  | true =>
    rw [if_pos rfl, BitVec.getLsbD_or, Bool.or_eq_true, hshifted]
    simp [BitVec.getLsbD_one]

/-- The history of a layer is that of the changes since the last demotion. -/
structure Remembers (log : PolicyLog) (layer : Layer K ρ) : Prop where
  history : ∀ k < 16, layer.policy.changeHistory.getLsbD k = true ↔
    k ≤ layer.policy.lastSeenFrame ∧ layer.policy.lastSeenFrame - k ∈ log.changed ∧
      ∀ f ∈ log.demotions, f < layer.policy.lastSeenFrame - k
  before : ∀ c ∈ log.changed, c ≤ layer.policy.lastSeenFrame
  recent : ∀ c ∈ log.changed, c ≤ layer.lastCompositedFrame ∨
    (∃ until', layer.policy.demotedUntil = some until' ∧
      c + REPROMOTE_AFTER_STABLE_FRAMES ≤ until') ∨
      c + REPROMOTE_AFTER_STABLE_FRAMES ≤ layer.policy.lastSeenFrame

lemma Remembers.decide {look : Look K ρ} (h : Remembers log layer) (hlist : layer.rows.list = false)
    (hempty : layer.policy.demotedUntil.isSome → layer.record = none)
    (hseen : layer.policy.lastSeenFrame ≤ frame) (hdemotions : ∀ f ∈ log.demotions, f < frame) :
    Remembers (log.look since frame layer look) (layer.decide frame look).1 := by
  have hchanged : ∀ c, c ∈ (log.look since frame layer look).changed ↔
      c ∈ log.changed ∨ (c = frame ∧ (layer.find frame look).changed = true) := by
    intro c
    cases hfound : (layer.find frame look).changed with
    | false => simp [PolicyLog.look, hfound]
    | true => simp [PolicyLog.look, hfound, or_comm]
  refine ⟨?_, ?_, ?_⟩
  · intro k hk
    rw [Layer.decide_lastSeenFrame, Layer.decide_changeHistory]
    cases hdemotes : layer.demotes frame look with
    | true =>
      -- cleared: every frame is before the demotion
      have hmem : frame ∈ (log.look since frame layer look).demotions := by
        simp [PolicyLog.look, hdemotes]
      constructor
      · intro hzero
        simp at hzero
      · rintro ⟨-, -, hall⟩
        have := hall frame hmem
        omega
    | false =>
      have hsame : (log.look since frame layer look).demotions = log.demotions := by
        simp [PolicyLog.look, hdemotes]
      rw [if_neg (by simp), layer.historyNow_bit frame look hk, hsame, hchanged]
      constructor
      · rintro (⟨hle, hbit⟩ | ⟨rfl, hfound⟩)
        · obtain ⟨hkept, hmem, hall⟩ := (h.history _ (by omega)).mp hbit
          have hframe : layer.policy.lastSeenFrame -
              (k - (frame - layer.policy.lastSeenFrame)) = frame - k := by omega
          rw [hframe] at hmem hall
          exact ⟨by omega, .inl hmem, hall⟩
        · exact ⟨Nat.zero_le _, .inr ⟨rfl, hfound⟩, hdemotions⟩
      · rintro ⟨hkframe, hmem | ⟨hnow, hfound⟩, hall⟩
        · have hbefore := h.before _ hmem
          refine .inl ⟨by omega, (h.history _ (by omega)).mpr ?_⟩
          have hframe : layer.policy.lastSeenFrame -
              (k - (frame - layer.policy.lastSeenFrame)) = frame - k := by omega
          rw [hframe]
          exact ⟨by omega, hmem, hall⟩
        · exact .inr ⟨by omega, hfound⟩
  · intro c hc
    rw [Layer.decide_lastSeenFrame]
    rcases (hchanged c).mp hc with hc | ⟨rfl, -⟩
    · exact (h.before c hc).trans hseen
    · exact le_rfl
  · intro c hc
    rw [Layer.decide_lastSeenFrame, Layer.decide_demotedUntil]
    rcases (hchanged c).mp hc with hc | ⟨rfl, hfound⟩
    · rcases h.recent c hc with hkept | ⟨until', huntil, hle⟩ | hle
      · left
        have hbefore := h.before c hc
        rcases layer.decide_lastCompositedFrame frame look with hlast | hlast <;> omega
      · cases hdemotes : layer.demotes frame look with
        | true =>
          have hrecord := Layer.record_of_demotes hdemotes
          rw [hempty (by simp [huntil])] at hrecord
          cases hrecord
        | false =>
          rw [if_neg (by simp)]
          by_cases hframe : frame < until'
          · obtain ⟨longer, hlonger, hgrown, -⟩ :=
              Layer.demotedNow_grows look hlist huntil hframe
            exact .inr (.inl ⟨longer, hlonger, hle.trans hgrown⟩)
          · exact .inr (.inr (by omega))
      · exact .inr (.inr (hle.trans hseen))
    · cases hdemotes : layer.demotes c look with
      | true =>
        refine .inr (.inl ⟨_, if_pos rfl, ?_⟩)
        have hpos := Nat.two_pow_pos (layer.doublingsNow c)
        rw [cooldown_eq]
        exact Nat.add_le_add_left (Nat.le_mul_of_pos_right _ hpos) _
      | false => exact .inl (Layer.composited_of_changed hfound hdemotes).ge

end GpuiFast.ScrollLayer
