import GpuiFast.MeasureLog

namespace GpuiFast

open List Option

variable {γ ζ τ μ : Type*}

namespace MeasureLog

def Covers (log : MeasureLog γ ζ) (held : γ → Option (ζ × ScaleFactor)) : Prop :=
  ∀ c size scaleFactor, held c = some (size, scaleFactor) →
    log.overflowed = true ∨ (c, size) ∈ log.entries

def Unique (log : MeasureLog γ ζ) : Prop := (log.entries.map Prod.fst).Nodup

lemma covers_none (log : MeasureLog γ ζ) {held : γ → Option (ζ × ScaleFactor)}
    (h : ∀ c, held c = none) : log.Covers held := by
  intro c size scaleFactor hc
  rw [h c] at hc
  cases hc

lemma Unique.eq_of_mem {log : MeasureLog γ ζ} (h : log.Unique) {c : γ} {size size' : ζ}
    (hm : (c, size) ∈ log.entries) (hm' : (c, size') ∈ log.entries) : size = size' :=
  congrArg Prod.snd (inj_on_of_nodup_map h hm hm' rfl)

section Record

variable [DecidableEq γ]

lemma mem_record_self (log : MeasureLog γ ζ) (c : γ) (size : ζ) :
    (log.record c size).overflowed = true ∨ (c, size) ∈ (log.record c size).entries := by
  rw [record]
  split
  · next h => exact .inl h
  · split
    · exact .inr (by simp)
    · split
      · exact .inl rfl
      · exact .inr (by simp)

lemma mem_record_of_ne (log : MeasureLog γ ζ) {c c' : γ} (hne : c' ≠ c) (size : ζ) {size' : ζ}
    (h : log.overflowed = true ∨ (c', size') ∈ log.entries) :
    (log.record c size).overflowed = true ∨ (c', size') ∈ (log.record c size).entries := by
  rw [record]
  split
  · exact h
  · next hover =>
    have hmem := h.resolve_left hover
    split
    · refine .inr (mem_append_left _ ?_)
      exact (mem_eraseP_of_neg (by simpa using hne)).mpr hmem
    · split
      · exact .inl rfl
      · exact .inr (mem_append_left _ hmem)

variable {log : MeasureLog γ ζ}

variable {held : γ → Option (ζ × ScaleFactor)}

lemma Covers.record (h : log.Covers held) {c : γ} {size : ζ}
    (hc : ∀ size' scaleFactor, held c = some (size', scaleFactor) → size' = size) :
    (log.record c size).Covers held := by
  intro c' size' scaleFactor hheld
  by_cases hne : c' = c
  · subst hne
    rw [hc size' scaleFactor hheld]
    exact log.mem_record_self c' size
  · exact log.mem_record_of_ne hne size (h c' size' scaleFactor hheld)

lemma Covers.record_update (h : log.Covers held) (c : γ) (size : ζ) (scaleFactor : ScaleFactor) :
    (log.record c size).Covers (Function.update held c (some (size, scaleFactor))) := by
  intro c' size' scaleFactor' hheld
  by_cases hne : c' = c
  · subst hne
    rw [Function.update_self, some.injEq, Prod.mk.injEq] at hheld
    rw [← hheld.1]
    exact log.mem_record_self c' size
  · rw [Function.update_of_ne hne] at hheld
    exact log.mem_record_of_ne hne size (h c' size' scaleFactor' hheld)

lemma Unique.record (h : log.Unique) (c : γ) (size : ζ) : (log.record c size).Unique := by
  rw [MeasureLog.record]
  split
  · exact h
  · split
    · next hany =>
      rw [Unique, map_append, nodup_append]
      refine ⟨h.sublist (eraseP_sublist.map _), by simp, ?_⟩
      rintro x hx y hy rfl
      -- the one entry under the constraint is the one erased
      obtain ⟨entry, hmem, hc⟩ := any_eq_true.mp hany
      obtain ⟨erased, before, after, -, hc, hsplit, herased⟩ := exists_of_eraseP
        (p := fun entry => decide (entry.1 = c)) hmem hc
      rw [Unique, hsplit, map_append, map_cons, nodup_middle, nodup_cons,
        ← map_append, ← herased] at h
      have hc : erased.1 = c := by simpa using hc
      have hx' : x = c := by simpa using hy
      exact h.1 (hc.trans hx'.symm ▸ hx)
    · split
      · simp [Unique]
      · next hany _ =>
        rw [Unique, map_append, nodup_append]
        refine ⟨h, by simp, ?_⟩
        rintro x hx y hy rfl
        obtain ⟨⟨c', size'⟩, hmem, rfl⟩ := mem_map.mp hx
        refine hany (any_eq_true.mpr ⟨(c', size'), hmem, ?_⟩)
        simpa using hy

lemma record_of_mem (h : log.Unique) (hover : log.overflowed = false) {c : γ} {size : ζ}
    (hmem : (c, size) ∈ log.entries) :
    (log.record c size).overflowed = false ∧
      ∀ entry, entry ∈ (log.record c size).entries ↔ entry ∈ log.entries := by
  have hany : log.entries.any (fun entry => entry.1 = c) = true :=
    any_eq_true.mpr ⟨(c, size), hmem, by simp⟩
  rw [MeasureLog.record, if_neg (by simp [hover]), if_pos hany]
  refine ⟨hover, fun ⟨c', size'⟩ => ?_⟩
  rw [mem_append, mem_singleton]
  constructor
  · rintro (hm | heq)
    · exact mem_of_mem_eraseP hm
    · rw [heq]
      exact hmem
  · intro hm
    by_cases hc : c' = c
    · subst hc
      rw [h.eq_of_mem hm hmem]
      exact .inr rfl
    · exact .inl ((mem_eraseP_of_neg (by simpa using hc)).mpr hm)

lemma Unique.foldl_record (h : log.Unique) (answers : List (γ × ζ)) :
    (answers.foldl (fun log a => log.record a.1 a.2) log).Unique := by
  induction answers generalizing log with
  | nil => exact h
  | cons a answers ih => exact ih (h.record a.1 a.2)

lemma foldl_record_of_mem (h : log.Unique) (hover : log.overflowed = false) {answers : List (γ × ζ)}
    (hmem : ∀ a ∈ answers, a ∈ log.entries) :
    (answers.foldl (fun log a => log.record a.1 a.2) log).overflowed = false ∧
      ∀ entry, entry ∈ (answers.foldl (fun log a => log.record a.1 a.2) log).entries ↔
        entry ∈ log.entries := by
  induction answers generalizing log with
  | nil => exact ⟨hover, fun _ => Iff.rfl⟩
  | cons a answers ih =>
    obtain ⟨hover', hentries⟩ := record_of_mem h hover (hmem a (mem_cons_self ..))
    obtain ⟨hover'', hentries'⟩ := ih (h.record a.1 a.2) hover'
      (fun b hb => (hentries b).mpr (hmem b (mem_cons_of_mem _ hb)))
    exact ⟨hover'', fun entry => (hentries' entry).trans (hentries entry)⟩

end Record

end MeasureLog

lemma replay_eq [DecidableEq ζ] {measure : Closure γ ζ} {t : ℕ} {entries : List (γ × ζ)}
    (h : (replay measure t entries).2 = true) : (replay measure t entries).1 = entries := by
  induction entries generalizing t with
  | nil => rfl
  | cons entry entries ih =>
    obtain ⟨c, size⟩ := entry
    rw [replay] at h ⊢
    split
    · next hs =>
      rw [if_pos hs] at h
      exact congrArg _ (ih h)
    · next hs =>
      rw [if_neg hs] at h
      cases h

namespace MeasureEngine

lemma foldl_recordInto [DecidableEq γ] (ids : List ℕ) (answers : List (γ × ζ)) (logs : ℕ → MeasureLog γ ζ) (l : ℕ) :
    answers.foldl (fun logs (a : γ × ζ) => recordInto logs ids a.1 a.2) logs l =
      if l ∈ ids then answers.foldl (fun log a => log.record a.1 a.2) (logs l) else logs l := by
  induction answers generalizing logs with
  | nil => simp
  | cons a answers ih =>
    rw [foldl_cons, ih, recordInto]
    split <;> rfl

/-- What holds of the retained node: its closure records into its log, which has what Taffy holds
and is no other node's. -/
structure NodeHolds (e : MeasureEngine γ ζ τ μ) (n : MeasuredNode γ ζ τ μ) : Prop where
  log_lt : ∀ l, n.measureLog = some l → l < e.nextLog
  leaf : (n.leaf = none ∧ ∀ c, n.held c = none) ∨ ∃ leaf l, n.leaf = some leaf ∧
    n.measureLog = some l ∧ l ∈ leaf.logs ∧ (e.logs l).Covers n.held
  twins : ∀ twin ∈ e.twins, ∀ l ∈ twin.logs, n.measureLog ≠ some l
  pending : ∀ l ∈ e.pendingReplays,
    n.measureLog = some l ∧ (e.logs l).overflowed = false ∨ ∀ c, n.held c = none

structure Holds (e : MeasureEngine γ ζ τ μ) : Prop where
  unique : ∀ l, (e.logs l).Unique
  twins_lt : ∀ twin ∈ e.twins, ∀ l ∈ twin.logs, l < e.nextLog
  node : ∀ n, e.node = some n → NodeHolds e n

def ScaleHolds (e : MeasureEngine γ ζ τ μ) : Prop :=
  ∀ n, e.node = some n → ∀ c size scaleFactor, n.held c = some (size, scaleFactor) →
    scaleFactor = e.scaleFactor

variable {e : MeasureEngine γ ζ τ μ} {n : MeasuredNode γ ζ τ μ} {l : ℕ}

lemma NodeHolds.covers (h : NodeHolds e n) (hl : n.measureLog = some l) :
    (e.logs l).Covers n.held := by
  rcases h.leaf with ⟨-, hheld⟩ | ⟨leaf, l', -, hl', -, hcovers⟩
  · exact (e.logs l).covers_none hheld
  · rw [hl] at hl'
    rw [some.inj hl']
    exact hcovers

lemma NodeHolds.markDirty {e' : MeasureEngine γ ζ τ μ} (h : NodeHolds e n)
    (hnext : e'.nextLog = e.nextLog) (htwins : e'.twins = e.twins) : NodeHolds e' n.markDirty := by
  refine ⟨by rw [hnext]; exact h.log_lt, ?_, by rw [htwins]; exact h.twins,
    fun _ _ => .inr (fun _ => rfl)⟩
  rcases h.leaf with ⟨hleaf, -⟩ | ⟨leaf, l, hleaf, hl, hmem, -⟩
  · exact .inl ⟨hleaf, fun _ => rfl⟩
  · exact .inr ⟨leaf, l, hleaf, hl, hmem, MeasureLog.covers_none _ (fun _ => rfl)⟩

lemma newLog_logs (hl : l < e.nextLog) : e.newLog.logs l = e.logs l :=
  Function.update_of_ne (Nat.ne_of_lt hl) _ _

lemma Holds.newLog (h : e.Holds) : e.newLog.Holds := by
  refine ⟨fun l => ?_, fun t ht l hl => (h.twins_lt t ht l hl).trans (Nat.lt_succ_self _),
    fun n hn => ?_⟩
  · rw [MeasureEngine.newLog]
    dsimp only
    rw [Function.update_apply]
    split
    · exact nodup_nil
    · exact h.unique l
  · have hnode := h.node n hn
    refine ⟨fun l hl => (hnode.log_lt l hl).trans (Nat.lt_succ_self _), ?_, hnode.twins,
      fun l hl => ?_⟩
    · refine hnode.leaf.imp_right ?_
      rintro ⟨leaf, l, hleaf, hl, hmem, hcovers⟩
      exact ⟨leaf, l, hleaf, hl, hmem, by rw [newLog_logs (hnode.log_lt l hl)]; exact hcovers⟩
    · refine (hnode.pending l hl).imp_left (fun ⟨hl', hover⟩ => ⟨hl', ?_⟩)
      rw [newLog_logs (hnode.log_lt l hl')]
      exact hover

lemma nodeHolds_fresh {leaf : Leaf γ ζ} (hleaf : n.leaf = some leaf) (hl : n.measureLog = some l)
    (hmem : l ∈ leaf.logs) (hheld : ∀ c, n.held c = none) (hlt : l < e.nextLog)
    (htwins : ∀ twin ∈ e.twins, l ∉ twin.logs) : NodeHolds e n := by
  refine ⟨fun l' hl' => ?_, .inr ⟨leaf, l, hleaf, hl, hmem, MeasureLog.covers_none _ hheld⟩,
    fun twin ht l' hl' heq => ?_, fun _ _ => .inr hheld⟩
  · rw [hl] at hl'
    rw [← some.inj hl']
    exact hlt
  · rw [hl] at heq
    exact htwins twin ht (some.inj heq ▸ hl')

lemma vouching_eq_some (h : e.vouching = some l) :
    ∃ n, e.node = some n ∧ n.measureLog = some l ∧ (e.logs l).vouches = true := by
  rw [vouching, filter_eq_some_iff, bind_eq_some_iff] at h
  obtain ⟨⟨n, hn, hl⟩, hv⟩ := h
  exact ⟨n, hn, hl, hv⟩

variable {log : MeasureLog γ ζ}

lemma not_overflowed_of_vouches (h : log.vouches = true) : log.overflowed = false := by
  rw [MeasureLog.vouches, Bool.and_eq_true] at h
  simpa using h.1

lemma Holds.carry (h : e.Holds) (hn : e.node = some n) (hleaf : n.leaf.isSome) (state : μ)
    (measure : Closure γ ζ) : (e.carry n state measure).Holds := by
  have hnode := h.node n hn
  obtain ⟨leaf, l, -, hl, -, hcovers⟩ := hnode.leaf.resolve_left (by
    rintro ⟨hnone, -⟩
    rw [hnone] at hleaf
    cases hleaf)
  rw [MeasureEngine.carry, hl, isSome_some, if_pos rfl]
  refine ⟨h.unique, h.twins_lt, fun n' hn' => ?_⟩
  obtain rfl := some.inj hn'
  exact ⟨fun l' hl' => hnode.log_lt l' (hl.trans hl'), .inr ⟨_, l, rfl, rfl, by simp, hcovers⟩,
    fun t ht l' hl' heq => hnode.twins t ht l' hl' (hl.trans heq),
    fun l' hl' => (hnode.pending l' hl').imp_left (fun hp => ⟨hl.symm.trans hp.1, hp.2⟩)⟩

lemma Holds.claim (h : e.Holds) (hn : e.node = some n) (claimed : Bool) :
    ({ e with node := some { n with claimed := claimed } } : MeasureEngine γ ζ τ μ).Holds := by
  have hnode := h.node n hn
  refine ⟨h.unique, h.twins_lt, fun n' hn' => ?_⟩
  obtain rfl := some.inj hn'
  exact ⟨hnode.log_lt, hnode.leaf, hnode.twins, hnode.pending⟩

structure Sound (e : MeasureEngine γ ζ τ μ) : Prop extends e.Holds where
  agrees : ∀ a ∈ e.accepted, a.Agrees

lemma Sound.carry (h : e.Sound) (hn : e.node = some n) (hleaf : n.leaf.isSome) (state : μ)
    (measure : Closure γ ζ) : (e.carry n state measure).Sound := by
  refine ⟨h.toHolds.carry hn hleaf state measure, ?_⟩
  rw [MeasureEngine.carry]
  dsimp only
  split
  · exact h.agrees
  · exact h.agrees

lemma Sound.accept (h : e.Sound) {a : Accepted γ ζ} (ha : a.Agrees) : (e.accept a).Sound := by
  refine ⟨⟨h.unique, h.twins_lt, fun n hn => ?_⟩, fun b hb => ?_⟩
  · have hnode := h.node n hn
    exact ⟨hnode.log_lt, hnode.leaf, hnode.twins, hnode.pending⟩
  · rcases mem_append.mp hb with hb | hb
    · exact h.agrees b hb
    · rw [mem_singleton.mp hb]
      exact ha

lemma Sound.tick (h : e.Sound) (asked : ℕ) :
    ({ e with clock := e.clock + asked } : MeasureEngine γ ζ τ μ).Sound := by
  refine ⟨⟨h.unique, h.twins_lt, fun n hn => ?_⟩, h.agrees⟩
  have hnode := h.node n hn
  exact ⟨hnode.log_lt, hnode.leaf, hnode.twins, hnode.pending⟩

lemma agrees_of_covers {held : γ → Option (ζ × ScaleFactor)} (h : log.Covers held)
    (hover : log.overflowed = false) {answers : List (γ × ζ)} (hanswers : answers = log.entries)
    {scaleFactor : ScaleFactor} (hscale : ∀ c size s, held c = some (size, s) → s = scaleFactor) :
    (⟨answers, held, scaleFactor⟩ : Accepted γ ζ).Agrees := by
  intro c size s hc
  refine ⟨?_, hscale c size s hc⟩
  rw [hanswers]
  exact (h c size s hc).resolve_left (by simp [hover])

section Steps

variable [DecidableEq τ]

variable {e : MeasureEngine γ ζ τ μ} {n : MeasuredNode γ ζ τ μ} {leaf : Leaf γ ζ} {l : ℕ}

lemma NodeHolds.applyRequestedStyle (h : NodeHolds e n) (fingerprint : UInt64) (style : τ) :
    NodeHolds e (n.applyRequestedStyle fingerprint style) := by
  rw [MeasuredNode.applyRequestedStyle]
  split
  · exact h
  · split
    · exact ⟨h.log_lt, h.leaf, h.twins, h.pending⟩
    · exact NodeHolds.markDirty (e := e) ⟨h.log_lt, h.leaf, h.twins, h.pending⟩ rfl rfl

lemma applyRequestedStyle_measureLog (n : MeasuredNode γ ζ τ μ) (fingerprint : UInt64) (style : τ) :
    (n.applyRequestedStyle fingerprint style).measureLog = n.measureLog := by
  rw [MeasuredNode.applyRequestedStyle]
  split
  · rfl
  · split <;> rfl

lemma Holds.giveMeasure_dirty (h : e.Holds) (fingerprint : UInt64) (style : τ)
    (hmem : l ∈ leaf.logs) (hlt : ∀ l' ∈ leaf.logs, l' < e.nextLog)
    (hnode : ∀ n, e.node = some n → ∀ l' ∈ leaf.logs, n.measureLog ≠ some l')
    (htwins : ∀ twin ∈ e.twins, ∀ l' ∈ leaf.logs, l' ∉ twin.logs) :
    (e.giveMeasure fingerprint style leaf l false).1.Holds := by
  rw [giveMeasure]
  split
  · refine ⟨h.unique, h.twins_lt, fun n hn => ?_⟩
    obtain rfl := some.inj hn
    exact nodeHolds_fresh rfl rfl hmem (fun _ => rfl) (hlt l hmem) (fun t ht => htwins t ht l hmem)
  · next n hn =>
    split
    · -- the retained node has another log than the twin that is made
      refine ⟨h.unique, fun t ht l' hl' => ?_, fun n' hn' => ?_⟩
      · rcases mem_append.mp ht with ht | ht
        · exact h.twins_lt t ht l' hl'
        · rw [mem_singleton.mp ht] at hl'
          exact hlt l' hl'
      · have hn'' := h.node n' hn'
        refine ⟨hn''.log_lt, hn''.leaf, fun t ht l' hl' => ?_, hn''.pending⟩
        rcases mem_append.mp ht with ht | ht
        · exact hn''.twins t ht l' hl'
        · rw [mem_singleton.mp ht] at hl'
          exact hnode n' hn' l' hl'
    · refine ⟨h.unique, h.twins_lt, fun n' hn' => ?_⟩
      obtain rfl := some.inj hn'
      exact nodeHolds_fresh rfl rfl hmem (fun _ => rfl) (hlt l hmem)
        (fun t ht => htwins t ht l hmem)

lemma Holds.giveMeasure_clean (h : e.Holds) (fingerprint : UInt64) (style : τ)
    (hn : e.node = some n) (hclaimed : n.claimed = false) (hl : n.measureLog = some l)
    (hover : (e.logs l).overflowed = false) (hmem : l ∈ leaf.logs) :
    (e.giveMeasure fingerprint style leaf l true).1.Holds := by
  rw [giveMeasure, hn]
  dsimp only
  rw [hclaimed, if_neg (by simp)]
  refine ⟨h.unique, h.twins_lt, fun n' hn' => ?_⟩
  obtain rfl := some.inj hn'
  have hnode := (h.node n hn).applyRequestedStyle fingerprint style
  have hlog := (applyRequestedStyle_measureLog n fingerprint style).trans hl
  refine ⟨fun l' hl' => ?_, .inr ⟨leaf, l, rfl, rfl, hmem, hnode.covers hlog⟩,
    fun t ht l' hl' heq => ?_, fun l' hl' => ?_⟩
  · rw [← some.inj hl']
    exact hnode.log_lt l hlog
  · obtain rfl := some.inj heq
    exact hnode.twins t ht l hl' hlog
  · rcases mem_append.mp hl' with hl' | hl'
    · rcases hnode.pending l' hl' with ⟨heq, hover'⟩ | hheld
      · rw [hlog] at heq
        exact .inl ⟨heq, hover'⟩
      · exact .inr hheld
    · rw [mem_singleton.mp hl']
      exact .inl ⟨rfl, hover⟩

lemma Holds.requestRetainedMeasuredLayout (h : e.Holds)
    (hclaimed : ∀ n l, e.node = some n → n.claimed = true → n.measureLog = some l →
      (e.logs l).vouches = false) (fingerprint : UInt64) (style : τ) (measure : Closure γ ζ) :
    (e.requestRetainedMeasuredLayout fingerprint style measure).Holds := by
  rw [MeasureEngine.requestRetainedMeasuredLayout, requestMeasuredNode, if_pos rfl]
  split
  · next l hl =>
    obtain ⟨n, hn, hl, hv⟩ := vouching_eq_some hl
    refine h.giveMeasure_clean fingerprint style hn ?_ hl (not_overflowed_of_vouches hv) (by simp)
    by_contra hc
    rw [hclaimed n l hn (by simpa using hc) hl] at hv
    cases hv
  · refine h.newLog.giveMeasure_dirty fingerprint style (by simp) (fun l' hl' => ?_)
      (fun n hn l' hl' heq => ?_) (fun t ht l' hl' hmem => ?_)
    · rw [mem_singleton.mp hl']
      exact Nat.lt_succ_self _
    · have hlt := (h.node n hn).log_lt l' heq
      rw [mem_singleton.mp hl'] at hlt
      exact lt_irrefl _ hlt
    · have hlt := h.twins_lt t ht l' hmem
      rw [mem_singleton.mp hl'] at hlt
      exact lt_irrefl _ hlt

lemma giveMeasure_dirty_node {fingerprint : UInt64} {style : τ}
    (h : (e.giveMeasure fingerprint style leaf l false).2 = true) :
    (e.giveMeasure fingerprint style leaf l false).1.twins = e.twins ∧
      (e.giveMeasure fingerprint style leaf l false).1.nextLog = e.nextLog ∧
      ∃ n, (e.giveMeasure fingerprint style leaf l false).1.node = some n ∧ n.leaf = some leaf ∧
        ∀ c, n.held c = none := by
  rw [giveMeasure] at h ⊢
  split
  · exact ⟨rfl, rfl, _, rfl, rfl, fun _ => rfl⟩
  · next n hn =>
    rw [hn] at h
    dsimp only at h
    split
    · next hc =>
      rw [if_pos hc] at h
      cases h
    · exact ⟨rfl, rfl, _, rfl, rfl, fun _ => rfl⟩

lemma Holds.measureAfresh (h : e.Holds) (fingerprint : UInt64) (style : τ) (state : μ)
    (measure : Closure γ ζ) : (e.measureAfresh fingerprint style state measure).Holds := by
  -- the closure records into two new logs, and the first is the node's
  have hlt : ∀ l ∈ [e.nextLog] ++ [e.newLog.nextLog], e.nextLog ≤ l ∧ l < e.newLog.newLog.nextLog := by
    have h1 : e.newLog.nextLog = e.nextLog + 1 := rfl
    have h2 : e.newLog.newLog.nextLog = e.nextLog + 2 := rfl
    intro l hl
    rw [mem_append, mem_singleton, mem_singleton] at hl
    omega
  have hmem : e.newLog.nextLog ∈ (⟨measure, [e.nextLog] ++ [e.newLog.nextLog]⟩ : Leaf γ ζ).logs :=
    mem_append_right _ (mem_singleton_self _)
  have hgiven := h.newLog.newLog.giveMeasure_dirty fingerprint style hmem
    (fun l hl => (hlt l hl).2)
    (fun n hn l hl heq => absurd ((h.node n hn).log_lt l heq) (not_lt.mpr (hlt l hl).1))
    (fun t ht l hl hmem => absurd (h.twins_lt t ht l hmem) (not_lt.mpr (hlt l hl).1))
  have hreq : e.newLog.requestMeasuredNode fingerprint style measure [e.nextLog] false =
      e.newLog.newLog.giveMeasure fingerprint style ⟨measure, [e.nextLog] ++ [e.newLog.nextLog]⟩
        e.newLog.nextLog false := rfl
  rw [MeasureEngine.measureAfresh, hreq]
  split
  · next hr =>
    obtain ⟨htwins, hnext, n, hn, hleaf, hheld⟩ := giveMeasure_dirty_node hr
    refine ⟨hgiven.unique, hgiven.twins_lt, fun n' hn' => ?_⟩
    rw [hn] at hn'
    obtain rfl := some.inj hn'
    refine nodeHolds_fresh hleaf rfl (by simp) hheld ?_ (fun t ht hmem => ?_)
    · dsimp only
      rw [hnext]
      exact (hlt e.nextLog (by simp)).2
    · dsimp only at ht
      rw [htwins] at ht
      exact lt_irrefl _ (h.twins_lt t ht _ hmem)
  · exact hgiven

lemma giveMeasure_accepted (e : MeasureEngine γ ζ τ μ) (fingerprint : UInt64) (style : τ)
    (leaf : Leaf γ ζ) (l : ℕ) (clean : Bool) :
    (e.giveMeasure fingerprint style leaf l clean).1.accepted = e.accepted := by
  rw [giveMeasure]
  split
  · rfl
  · split <;> rfl

lemma requestMeasuredNode_accepted (e : MeasureEngine γ ζ τ μ) (fingerprint : UInt64) (style : τ)
    (measure : Closure γ ζ) (ids : List ℕ) (checked : Bool) :
    (e.requestMeasuredNode fingerprint style measure ids checked).1.accepted = e.accepted := by
  rw [requestMeasuredNode]
  split
  · exact giveMeasure_accepted ..
  · exact giveMeasure_accepted ..

lemma measureAfresh_accepted (e : MeasureEngine γ ζ τ μ) (fingerprint : UInt64) (style : τ)
    (state : μ) (measure : Closure γ ζ) :
    (e.measureAfresh fingerprint style state measure).accepted = e.accepted := by
  rw [MeasureEngine.measureAfresh]
  split
  · exact requestMeasuredNode_accepted ..
  · exact requestMeasuredNode_accepted ..

lemma Sound.measureAfresh (h : e.Sound) (fingerprint : UInt64) (style : τ) (state : μ)
    (measure : Closure γ ζ) : (e.measureAfresh fingerprint style state measure).Sound := by
  refine ⟨h.toHolds.measureAfresh fingerprint style state measure, ?_⟩
  rw [measureAfresh_accepted]
  exact h.agrees

lemma Sound.keepOr {kept : MeasureEngine γ ζ τ μ} (h : e.Sound) (hn : e.node = some n)
    (hkept : n.leaf.isSome → kept.Sound) (fingerprint : UInt64) (style : τ) (state : μ)
    (measure : Closure γ ζ) : (e.keepOr n fingerprint style state measure kept).Sound := by
  rw [MeasureEngine.keepOr]
  split
  · next hleaf => exact hkept hleaf
  · exact Sound.measureAfresh ⟨h.toHolds.claim hn true, h.agrees⟩ fingerprint style state measure

lemma Sound.requestRetainedCarriedMeasuredLayout [DecidableEq ζ] (h : e.Sound)
    (fingerprint : UInt64) (style : τ) (state : μ) (adopt : μ → Adopted) (measure : Closure γ ζ)
    (hscale : ∀ n, e.node = some n → n.claimed = false → n.styleFingerprint = fingerprint →
      ∀ c size s, n.held c = some (size, s) → s = e.scaleFactor) :
    (e.requestRetainedCarriedMeasuredLayout fingerprint style state adopt measure).Sound := by
  rw [MeasureEngine.requestRetainedCarriedMeasuredLayout]
  split
  · exact h.measureAfresh ..
  · next n hn =>
    split
    · next hreusable =>
      split
      · exact h.keepOr hn (fun _ => ⟨h.toHolds.claim hn true, h.agrees⟩) ..
      · exact h.keepOr hn (fun hleaf => h.carry hn hleaf state measure) ..
      · split
        · exact h.measureAfresh ..
        · next l hl =>
          split
          · next hv =>
            have hclock := h.tick (replay measure e.clock (e.logs l).entries).1.length
            dsimp only
            split
            · next hstands =>
              refine hclock.keepOr hn (fun hleaf => ?_) ..
              refine (hclock.carry hn hleaf state measure).accept ?_
              exact agrees_of_covers ((h.node n hn).covers hl) (not_overflowed_of_vouches hv)
                (replay_eq hstands) (hscale n hn (by simpa using hreusable.1) hreusable.2.2)
            · exact hclock.measureAfresh ..
          · exact h.measureAfresh ..
    · exact h.measureAfresh ..

lemma Holds.requestRetainedLayout (h : e.Holds) (fingerprint : UInt64) (style : τ) :
    (e.requestRetainedLayout fingerprint style).Holds := by
  rw [MeasureEngine.requestRetainedLayout]
  split
  · refine ⟨h.unique, h.twins_lt, fun n hn => ?_⟩
    obtain rfl := some.inj hn
    exact ⟨by simp, .inl ⟨rfl, fun _ => rfl⟩, by simp, fun _ _ => .inr (fun _ => rfl)⟩
  · next n hn =>
    split
    · exact h
    · have hnode := (h.node n hn).applyRequestedStyle fingerprint style
      refine ⟨h.unique, h.twins_lt, fun n' hn' => ?_⟩
      obtain rfl := some.inj hn'
      split
      · exact ⟨by simp [MeasuredNode.markDirty], .inl ⟨rfl, fun _ => rfl⟩,
          by simp [MeasuredNode.markDirty], fun _ _ => .inr (fun _ => rfl)⟩
      · exact ⟨hnode.log_lt, hnode.leaf, hnode.twins, hnode.pending⟩

end Steps

section Layouts

variable [DecidableEq γ]

lemma unique_recordInto {logs : ℕ → MeasureLog γ ζ} (h : ∀ l, (logs l).Unique) (ids : List ℕ) (c : γ)
    (size : ζ) (l : ℕ) : (recordInto logs ids c size l).Unique := by
  rw [recordInto]
  split
  · exact (h l).record c size
  · exact h l

lemma Holds.measure {e : MeasureEngine γ ζ τ μ} (h : e.Holds) (hpending : e.pendingReplays = [])
    (c : γ) : (e.measure c).Holds := by
  rw [MeasureEngine.measure]
  split
  · exact h
  · next n hn =>
    split
    · exact h
    · next leaf hleaf =>
      have hnode := h.node n hn
      refine ⟨unique_recordInto h.unique leaf.logs _ _, h.twins_lt, fun n' hn' => ?_⟩
      obtain rfl := some.inj hn'
      refine ⟨hnode.log_lt, .inr ?_, hnode.twins, fun l hl => ?_⟩
      · obtain ⟨leaf', l, hleaf', hl, hmem, hcovers⟩ := hnode.leaf.resolve_left (by
          rintro ⟨hnone, -⟩
          rw [hnone] at hleaf
          cases hleaf)
        rw [hleaf] at hleaf'
        obtain rfl := some.inj hleaf'
        refine ⟨leaf, l, hleaf, hl, hmem, ?_⟩
        have hlog : (e.ask leaf c).logs l = (e.logs l).record c (leaf.measure e.clock c) :=
          if_pos hmem
        dsimp only
        rw [hlog]
        exact hcovers.record_update c _ _
      · have hl : l ∈ e.pendingReplays := hl
        rw [hpending] at hl
        cases hl

lemma Holds.ask {e : MeasureEngine γ ζ τ μ} (h : e.Holds) (hpending : e.pendingReplays = [])
    (leaf : Leaf γ ζ) (c : γ)
    (hc : ∀ n l, e.node = some n → n.measureLog = some l → l ∈ leaf.logs →
      ∀ size s, n.held c = some (size, s) → size = leaf.measure e.clock c) :
    (e.ask leaf c).Holds := by
  refine ⟨unique_recordInto h.unique leaf.logs _ _, h.twins_lt, fun n hn => ?_⟩
  have hnode := h.node n hn
  refine ⟨hnode.log_lt, hnode.leaf.imp_right ?_, hnode.twins, fun l hl => ?_⟩
  · rintro ⟨leaf', l, hleaf', hl, hmem, hcovers⟩
    refine ⟨leaf', l, hleaf', hl, hmem, ?_⟩
    have hlog : (e.ask leaf c).logs l = recordInto e.logs leaf.logs c (leaf.measure e.clock c) l := rfl
    rw [hlog, recordInto]
    split
    · next hin => exact hcovers.record (hc n l hn hl hin)
    · exact hcovers
  · have hl : l ∈ e.pendingReplays := hl
    rw [hpending] at hl
    cases hl

end Layouts

section Replays

variable [DecidableEq γ] [DecidableEq ζ]

lemma replayPending_fields (e : MeasureEngine γ ζ τ μ) (l : ℕ) :
    (e.replayPending l).pendingReplays = e.pendingReplays ∧
      (e.replayPending l).scaleFactor = e.scaleFactor ∧
      ((e.replayPending l).node = e.node ∨
        (e.replayPending l).node = e.node.map MeasuredNode.markDirty) := by
  rw [replayPending]
  split
  · exact ⟨rfl, rfl, .inl rfl⟩
  · next n hn =>
    split
    · exact ⟨rfl, rfl, .inl rfl⟩
    · dsimp only
      split
      · exact ⟨rfl, rfl, .inl rfl⟩
      · exact ⟨rfl, rfl, .inr (by rw [hn]; rfl)⟩

variable {e : MeasureEngine γ ζ τ μ}

lemma Sound.replayPending (h : e.Sound) {l : ℕ} (hl : l ∈ e.pendingReplays) (hscale : e.ScaleHolds) :
    (e.replayPending l).Sound := by
  rw [MeasureEngine.replayPending]
  split
  · exact h
  next n hn =>
  have hnode := h.node n hn
  split
  · exact h
  next leaf hleaf =>
  have hunique : ∀ l', ((replay leaf.measure e.clock (e.logs l).entries).1.foldl
      (fun logs (a : γ × ζ) => recordInto logs leaf.logs a.1 a.2) e.logs l').Unique := by
    intro l'
    rw [foldl_recordInto]
    split
    · exact (h.unique l').foldl_record _
    · exact h.unique l'
  dsimp only
  split
  · next hstands =>
    have hanswers := replay_eq hstands
    -- the log replayed is the node's, or Taffy holds nothing
    rcases hnode.pending l hl with ⟨hlog, hover⟩ | hheld
    · obtain ⟨leaf', l', hleaf', hl', hmem, hcovers⟩ := hnode.leaf.resolve_left (by
        rintro ⟨hnone, -⟩
        rw [hnone] at hleaf
        cases hleaf)
      obtain rfl := some.inj (hlog.symm.trans hl')
      obtain rfl := some.inj (hleaf.symm.trans hleaf')
      have hrecorded : ∀ a ∈ (replay leaf.measure e.clock (e.logs l).entries).1,
          a ∈ (e.logs l).entries := by
        rw [hanswers]
        exact fun _ ha => ha
      obtain ⟨hover', hentries⟩ := MeasureLog.foldl_record_of_mem (h.unique l) hover hrecorded
      refine Sound.accept ?_ (agrees_of_covers hcovers hover hanswers (hscale n hn))
      refine ⟨⟨hunique, h.twins_lt, fun n' hn' => ?_⟩, h.agrees⟩
      obtain rfl := some.inj (hn.symm.trans hn')
      refine ⟨hnode.log_lt, .inr ⟨leaf, l, hleaf, hlog, hmem, ?_⟩, hnode.twins, fun l' hp => ?_⟩
      · intro c size s hc
        refine .inr ?_
        dsimp only
        rw [foldl_recordInto, if_pos hmem]
        exact (hentries (c, size)).mpr ((hcovers c size s hc).resolve_left (by simp [hover]))
      · rcases hnode.pending l' hp with ⟨hlog', -⟩ | hheld
        · obtain rfl := some.inj (hlog.symm.trans hlog')
          refine .inl ⟨hlog, ?_⟩
          dsimp only
          rw [foldl_recordInto, if_pos hmem]
          exact hover'
        · exact .inr hheld
    · refine Sound.accept ?_ ?_
      · refine ⟨⟨hunique, h.twins_lt, fun n' hn' => ?_⟩, h.agrees⟩
        obtain rfl := some.inj (hn.symm.trans hn')
        refine ⟨hnode.log_lt, hnode.leaf.imp_right ?_, hnode.twins, fun _ _ => .inr hheld⟩
        rintro ⟨leaf', l', hleaf', hl', hmem, -⟩
        exact ⟨leaf', l', hleaf', hl', hmem, MeasureLog.covers_none _ hheld⟩
      · intro c size s hc
        have hc : n.held c = some (size, s) := hc
        rw [hheld c] at hc
        cases hc
  · refine ⟨⟨hunique, h.twins_lt, fun n' hn' => ?_⟩, h.agrees⟩
    obtain rfl := some.inj hn'
    exact hnode.markDirty rfl rfl

lemma ScaleHolds.replayPending (h : e.ScaleHolds) (l : ℕ) : (e.replayPending l).ScaleHolds := by
  obtain ⟨-, hscale, hnode⟩ := e.replayPending_fields l
  intro n hn c size s hc
  rw [hscale]
  rcases hnode with hnode | hnode
  · exact h n (hnode.symm.trans hn) c size s hc
  · rw [hnode, map_eq_some_iff] at hn
    obtain ⟨n', -, rfl⟩ := hn
    cases hc

lemma Sound.replayPendingMeasures (h : e.Sound) (hscale : e.pendingReplays ≠ [] → e.ScaleHolds) :
    e.replayPendingMeasures.Sound := by
  have hfold : ∀ (ls : List ℕ) (e : MeasureEngine γ ζ τ μ), e.Sound → (ls ≠ [] → e.ScaleHolds) →
      (∀ l ∈ ls, l ∈ e.pendingReplays) → (ls.foldl MeasureEngine.replayPending e).Sound := by
    intro ls
    induction ls with
    | nil => exact fun e h _ _ => h
    | cons l ls ih =>
      intro e h hscale hls
      have hscale := hscale (cons_ne_nil _ _)
      refine ih _ (h.replayPending (hls l (mem_cons_self ..)) hscale)
        (fun _ => hscale.replayPending l) (fun l' hl' => ?_)
      rw [(e.replayPending_fields l).1]
      exact hls l' (mem_cons_of_mem _ hl')
  have hall := hfold e.pendingReplays e h hscale (fun _ hl => hl)
  refine ⟨⟨hall.unique, hall.twins_lt, fun n hn => ?_⟩, hall.agrees⟩
  have hnode := hall.node n hn
  exact ⟨hnode.log_lt, hnode.leaf, hnode.twins, by simp [MeasureEngine.replayPendingMeasures]⟩

end Replays

lemma sound_new (scaleFactor : ScaleFactor) : (new scaleFactor : MeasureEngine γ ζ τ μ).Sound :=
  ⟨⟨fun _ => nodup_nil, by simp [new], by simp [new]⟩, by simp [new]⟩

section Runs

variable [DecidableEq γ] [DecidableEq ζ] [DecidableEq τ]

/-- What a step must not do: give a further element's closure the log of the key's node, check a
closure against sizes taken under another scale factor, or measure the node once more under a
constraint Taffy holds another size for. -/
def StepSafe (e : MeasureEngine γ ζ τ μ) : Event γ ζ τ μ → Prop
  | .requestMeasured _ _ _ => ∀ n l, e.node = some n → n.claimed = true → n.measureLog = some l →
      (e.logs l).vouches = false
  | .requestCarried fingerprint _ _ _ _ => ∀ n, e.node = some n → n.claimed = false →
      n.styleFingerprint = fingerprint →
        ∀ c size s, n.held c = some (size, s) → s = e.scaleFactor
  | .replayPendingMeasures => e.pendingReplays ≠ [] → e.ScaleHolds
  | .settle c => e.pendingReplays = [] → ∀ n leaf, e.node = some n → n.leaf = some leaf →
      ∀ size s, n.held c = some (size, s) → size = leaf.measure e.clock c
  | _ => True

/-- Whether every step from `e` on is safe. -/
def Safe : MeasureEngine γ ζ τ μ → List (Event γ ζ τ μ) → Prop
  | _, [] => True
  | e, event :: events => e.StepSafe event ∧ Safe (e.step event) events

lemma Sound.step {e : MeasureEngine γ ζ τ μ} (h : e.Sound) {event : Event γ ζ τ μ}
    (hsafe : e.StepSafe event) : (e.step event).Sound := by
  cases event with
  | setScaleFactor s =>
    refine ⟨⟨h.unique, h.twins_lt, fun n hn => ?_⟩, h.agrees⟩
    have hnode := h.node n hn
    exact ⟨hnode.log_lt, hnode.leaf, hnode.twins, hnode.pending⟩
  | requestMeasured fingerprint style measure =>
    refine ⟨h.toHolds.requestRetainedMeasuredLayout hsafe fingerprint style measure, ?_⟩
    rw [MeasureEngine.step, MeasureEngine.requestRetainedMeasuredLayout,
      requestMeasuredNode_accepted]
    exact h.agrees
  | requestCarried fingerprint style state adopt measure =>
    exact h.requestRetainedCarriedMeasuredLayout fingerprint style state adopt measure hsafe
  | requestLayout fingerprint style =>
    refine ⟨h.toHolds.requestRetainedLayout fingerprint style, ?_⟩
    rw [MeasureEngine.step, MeasureEngine.requestRetainedLayout]
    split
    · exact h.agrees
    · split <;> exact h.agrees
  | keep claimed =>
    refine ⟨⟨h.unique, h.twins_lt, fun n hn => ?_⟩, h.agrees⟩
    obtain ⟨n', hn', rfl⟩ := map_eq_some_iff.mp hn
    have hnode := h.node n' hn'
    exact ⟨hnode.log_lt, hnode.leaf, hnode.twins, hnode.pending⟩
  | replayPendingMeasures => exact h.replayPendingMeasures hsafe
  | measure c =>
    rw [MeasureEngine.step]
    split
    · next hp =>
      refine ⟨h.toHolds.measure (isEmpty_iff.mp hp) c, ?_⟩
      rw [MeasureEngine.measure]
      split
      · exact h.agrees
      · split <;> exact h.agrees
    · exact h
  | measureTwin i c =>
    rw [MeasureEngine.step]
    split
    · next hp =>
      rw [MeasureEngine.measureTwin]
      split
      · exact h
      · next leaf hi =>
        have ht := mem_of_getElem? hi
        refine ⟨h.toHolds.ask (isEmpty_iff.mp hp) leaf c (fun n l hn hl hmem => ?_), h.agrees⟩
        exact absurd hl ((h.node n hn).twins leaf ht l hmem)
    · exact h
  | settle c =>
    rw [MeasureEngine.step]
    split
    · next hp =>
      have hp := isEmpty_iff.mp hp
      rw [MeasureEngine.settle]
      split
      · exact h
      · next leaf hleaf =>
        obtain ⟨n, hn, hleaf⟩ := bind_eq_some_iff.mp hleaf
        refine ⟨h.toHolds.ask hp leaf c (fun n' l hn' _ _ => ?_), h.agrees⟩
        obtain rfl := some.inj (hn.symm.trans hn')
        exact hsafe hp n leaf hn hleaf
    · exact h
  | markDirty =>
    refine ⟨⟨h.unique, h.twins_lt, fun n hn => ?_⟩, h.agrees⟩
    obtain ⟨n', hn', rfl⟩ := map_eq_some_iff.mp hn
    exact (h.node n' hn').markDirty rfl rfl
  | endFrame lingers =>
    refine ⟨⟨h.unique, by simp [MeasureEngine.step, MeasureEngine.endFrame], fun n hn => ?_⟩, h.agrees⟩
    obtain ⟨n', hn', rfl⟩ := map_eq_some_iff.mp hn
    have hn' := (filter_eq_some_iff.mp hn').1
    have hnode : NodeHolds e n' := by
      split at hn'
      · exact h.node n' hn'
      · obtain ⟨n'', hn'', rfl⟩ := map_eq_some_iff.mp hn'
        exact (h.node n'' hn'').markDirty rfl rfl
    exact ⟨hnode.log_lt, hnode.leaf, by simp [MeasureEngine.step, MeasureEngine.endFrame],
      by simp [MeasureEngine.step, MeasureEngine.endFrame]⟩

lemma Sound.foldl {e : MeasureEngine γ ζ τ μ} (h : e.Sound) {events : List (Event γ ζ τ μ)}
    (hsafe : Safe e events) : (events.foldl MeasureEngine.step e).Sound := by
  induction events generalizing e with
  | nil => exact h
  | cons event events ih => exact ih (h.step hsafe.1) hsafe.2

/-- In every run of safe steps, each closure taken without dirtying the node gave the size Taffy
held, under every constraint it held one for. -/
theorem run_accepted_agrees (scaleFactor : ScaleFactor) (events : List (Event γ ζ τ μ))
    (hsafe : Safe (new scaleFactor) events) : ∀ a ∈ (run scaleFactor events).accepted, a.Agrees :=
  ((sound_new scaleFactor).foldl hsafe).agrees

end Runs

def measuredAgain : List (Event ℕ ℕ ℕ ℕ) :=
  [.requestMeasured 0 0 (fun _ _ => 1), .replayPendingMeasures, .measure 7, .endFrame false,
    .requestMeasured 0 0 (fun _ _ => 1), .replayPendingMeasures]

theorem run_accepted_agrees_measuredAgain :
    (run 2 measuredAgain).accepted =
        [⟨[(7, 1)], Function.update (fun _ => none) 7 (some (1, 2)), 2⟩] ∧
      ∀ a ∈ (run 2 measuredAgain).accepted, a.Agrees := by
  refine ⟨rfl, run_accepted_agrees 2 measuredAgain ⟨?_, ?_, trivial, trivial, ?_, ?_, trivial⟩⟩
  · intro n l hn
    cases hn
  · exact fun h => absurd rfl h
  · intro n l hn hc
    obtain rfl := some.inj hn
    cases hc
  · intro _ n hn c size s hc
    obtain rfl := some.inj hn
    have hc : Function.update (fun _ : ℕ => (none : Option (ℕ × ScaleFactor))) 7 (some (1, 2)) c =
        some (size, s) := hc
    rw [Function.update_apply] at hc
    split at hc
    · rw [some.injEq, Prod.mk.injEq] at hc
      exact hc.2.symm
    · cases hc

/-- Two elements that resolve to one key, the second measuring otherwise, and then one that
measures as the second did. -/
def measuredTwice : List (Event ℕ ℕ ℕ ℕ) :=
  [.requestMeasured 0 0 (fun _ _ => 1), .replayPendingMeasures, .measure 7, .endFrame false,
    .requestMeasured 0 0 (fun _ _ => 1), .requestMeasured 0 0 (fun _ _ => 2), .replayPendingMeasures,
    .measureTwin 0 7, .endFrame false, .requestMeasured 0 0 (fun _ _ => 2), .replayPendingMeasures]

/-- The second element's closure writes the size it gives into the log of the first one's node. -/
theorem not_run_accepted_agrees_measuredTwice :
    ¬ ∀ (scaleFactor : ScaleFactor) (events : List (Event ℕ ℕ ℕ ℕ)),
      ∀ a ∈ (run scaleFactor events).accepted, a.Agrees := by
  intro h
  have hlast : ∃ a ∈ (run 2 measuredTwice).accepted, a.answers = [(7, 2)] ∧ a.held 7 = some (1, 2) := by
    have haccepted : (run 2 measuredTwice).accepted =
        [⟨[(7, 1)], Function.update (fun _ => none) 7 (some (1, 2)), 2⟩,
          ⟨[(7, 2)], Function.update (fun _ => none) 7 (some (1, 2)), 2⟩] := rfl
    rw [haccepted]
    exact ⟨_, mem_cons_of_mem _ (mem_cons_self ..), rfl, rfl⟩
  obtain ⟨a, ha, hanswers, hheld⟩ := hlast
  have hmem := (h 2 measuredTwice a ha 7 1 2 hheld).1
  rw [hanswers] at hmem
  simp at hmem

end MeasureEngine

end GpuiFast
