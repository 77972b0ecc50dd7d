import GpuiFast.JournalRing

/-! An invariant of every interleaving: a slot that no writer owns carries the entry offered under its
sequence number, and a collector has told of every position from its creation up to its cursor,
each by its own entry or inside a discontinuity. -/

namespace GpuiFast.Journal

open List Option JournalRing

/-- The positions an entry returned by a collector stands for: its own, or as many as were lost. -/
def JournalEntry.expand : JournalEntry → List (Option JournalEntry)
  | .discontinuity lost => List.replicate lost none
  | e => [some e]

def expand (es : List JournalEntry) : List (Option JournalEntry) := es.flatMap JournalEntry.expand

def view (log : List JournalEntry) (missed : List (ℕ × Unavailable)) (position : ℕ) :
    Option JournalEntry :=
  if position ∈ missed.map Prod.fst then none else log[position]?

def Unavailable.Holds (capacity position : ℕ) : Unavailable → Prop
  | .beforeRetained finish => position + capacity < finish
  | .held users => users &&& slotWriter ≠ 0 ∨ users = slotReaderMask
  | .otherSequence seen => seen ≠ some position

def Collector.output (c : Collector) : List JournalEntry :=
  c.drained.flatMap DrainedEntries.entries ++ c.entries

structure Collector.Told (c : Collector) (capacity : ℕ) (log : List JournalEntry) : Prop where
  created_le : c.created ≤ c.cursor
  cursor_le : c.cursor ≤ log.length
  output_eq : expand c.output =
    (range' c.created (c.cursor - c.created)).map (view log c.missed)
  missed_mem : ∀ m ∈ c.missed, c.created ≤ m.1 ∧ m.1 < c.cursor
  reasons : ∀ m ∈ c.missed, m.2.Holds capacity m.1
  positive : ∀ lost, JournalEntry.discontinuity lost ∈ c.output → 0 < lost
  drained_lost : ∀ d ∈ c.drained, d.lost = losses d.entries
  lost_eq : c.lost = losses c.entries

lemma expand_append (es fs : List JournalEntry) : expand (es ++ fs) = expand es ++ expand fs := by
  simp [expand]

variable {e : JournalEntry} {c : Collector}

lemma expand_singleton (he : e.isDiscontinuity = false) : expand [e] = [some e] := by
  cases e with
  | discontinuity => simp [JournalEntry.isDiscontinuity] at he
  | event | boundary | frameState | platformSignal | reentrantFrameSkipped => rfl

lemma losses_singleton (he : e.isDiscontinuity = false) : losses [e] = 0 := by
  cases e with
  | discontinuity => simp [JournalEntry.isDiscontinuity] at he
  | event | boundary | frameState | platformSignal | reentrantFrameSkipped => rfl

namespace Collector

variable (entries : List JournalEntry) {missed : List (ℕ × Unavailable)} {position : ℕ}

lemma pushLost_cases :
    (∃ es lost, entries = es ++ [.discontinuity lost] ∧
        pushLost entries = es ++ [.discontinuity (lost + 1)]) ∨
      pushLost entries = entries ++ [.discontinuity 1] := by
  unfold pushLost
  split
  · rename_i lost hlast
    exact .inl ⟨entries.dropLast, lost, (dropLast_append_getLast? _ hlast).symm, rfl⟩
  · exact .inr rfl

lemma expand_pushLost : expand (pushLost entries) = expand entries ++ [none] := by
  obtain ⟨es, lost, rfl, heq⟩ | heq := pushLost_cases entries
  · rw [heq, expand_append, expand_append, append_assoc]
    congr 1
    simp [expand, JournalEntry.expand, replicate_succ']
  · rw [heq, expand_append]
    rfl

lemma losses_pushLost : losses (pushLost entries) = losses entries + 1 := by
  obtain ⟨es, lost, rfl, heq⟩ | heq := pushLost_cases entries
  · rw [heq, losses_append, losses_append]
    simp [losses, JournalEntry.losses, Nat.add_assoc]
  · rw [heq, losses_append]
    rfl

lemma mem_pushLost {entries : List JournalEntry} {lost : ℕ}
    (h : JournalEntry.discontinuity lost ∈ pushLost entries) :
    JournalEntry.discontinuity lost ∈ entries ∨ 0 < lost := by
  obtain ⟨es, n, rfl, heq⟩ | heq := pushLost_cases entries
  · rw [heq] at h
    rcases mem_append.1 h with h | h
    · exact .inl (mem_append_left _ h)
    · right
      have heq : lost = n + 1 := by simpa using h
      omega
  · rw [heq] at h
    rcases mem_append.1 h with h | h
    · exact .inl h
    · right
      have heq : lost = 1 := by simpa using h
      omega

variable {cursor : ℕ}

lemma view_append {log : List JournalEntry} {more : List (ℕ × Unavailable)}
    (hmore : ∀ m ∈ more, cursor ≤ m.1) (hp : position < cursor) :
    view log (missed ++ more) position = view log missed position := by
  have hnot : position ∉ more.map Prod.fst := by
    intro hmem
    obtain ⟨m, hm, rfl⟩ := mem_map.1 hmem
    exact absurd (hmore m hm) (by omega)
  simp only [view, map_append, mem_append, hnot, or_false]

lemma view_missed {log : List JournalEntry} (h : position ∈ missed.map Prod.fst) :
    view log missed position = none := by
  simp only [view, if_pos h]

lemma view_offered {log : List JournalEntry} (h : ∀ m ∈ missed, m.1 < position) :
    view log missed position = log[position]? := by
  have hnot : position ∉ missed.map Prod.fst := by
    intro hmem
    obtain ⟨m, hm, rfl⟩ := mem_map.1 hmem
    exact absurd (h m hm) (by omega)
  simp only [view, if_neg hnot]

lemma output_extend {log es : List JournalEntry} (more : List (ℕ × Unavailable)) {created : ℕ}
    (hc : created ≤ cursor)
    (h : expand es = (range' created (cursor - created)).map (view log missed))
    (hmore : ∀ m ∈ more, cursor ≤ m.1) (n : ℕ) :
    expand es ++ (range' cursor n).map (view log (missed ++ more)) =
      (range' created (cursor + n - created)).map (view log (missed ++ more)) := by
  have hsplit : range' created (cursor + n - created) =
      range' created (cursor - created) ++ range' cursor n := by
    have happend := @range'_append_1 created (cursor - created) n
    rw [show created + (cursor - created) = cursor by omega] at happend
    rw [happend]
    congr 1
    omega
  rw [hsplit, map_append, h]
  congr 1
  refine map_congr_left (fun position hp => (view_append hmore ?_).symm)
  have := mem_range'_1.1 hp
  omega

variable {c : Collector} {capacity : ℕ} {log : List JournalEntry}

lemma Told.new (offered : ℕ) (h : offered ≤ log.length) : (new offered).Told capacity log :=
  ⟨le_rfl, h, by simp [Collector.new, Collector.output, expand], by simp [Collector.new],
    by simp [Collector.new], by simp [Collector.new, Collector.output], by simp [Collector.new],
    rfl⟩

section

variable (h : c.Told capacity log)
include h

lemma Told.offer {log' : List JournalEntry} (hlog : log <+: log') : c.Told capacity log' := by
  refine ⟨h.created_le, h.cursor_le.trans hlog.length_le, ?_, h.missed_mem, h.reasons,
    h.positive, h.drained_lost, h.lost_eq⟩
  rw [h.output_eq]
  refine map_congr_left (fun position hp => ?_)
  have hrange := mem_range'_1.1 hp
  have hlt : position < log.length := by
    have := h.cursor_le
    have := h.created_le
    omega
  unfold view
  rw [prefix_iff_getElem?.1 hlog position hlt, getElem?_eq_getElem hlt]

lemma Told.pc (pc : ReaderPc) : ({ c with pc := pc } : Collector).Told capacity log :=
  ⟨h.created_le, h.cursor_le, h.output_eq, h.missed_mem, h.reasons, h.positive, h.drained_lost,
    h.lost_eq⟩

lemma Told.take {entry : JournalEntry} (hlog : log[c.cursor]? = some entry)
    (he : entry.isDiscontinuity = false) (finish : ℕ) :
    (c.take finish entry).Told capacity log := by
  have hview : view log c.missed c.cursor = some entry := by
    rw [view_offered (fun m hm => (h.missed_mem m hm).2), hlog]
  have hlt : c.cursor < log.length := (List.getElem?_eq_some_iff.1 hlog).1
  refine ⟨h.created_le.trans (Nat.le_succ _), hlt, ?_,
    fun m hm => ⟨(h.missed_mem m hm).1, Nat.lt_succ_of_lt (h.missed_mem m hm).2⟩, h.reasons,
    fun lost hm => ?_, h.drained_lost, ?_⟩
  · have hextend := output_extend [] h.created_le h.output_eq (by simp) 1
    simp only [append_nil] at hextend
    refine Eq.trans ?_ hextend
    simp only [Collector.output, Collector.take, ← append_assoc, expand_append,
      expand_singleton he, range'_one, map_cons, map_nil, hview]
  · simp only [Collector.output, Collector.take, ← append_assoc, mem_append,
    mem_singleton] at hm
    rcases hm with hm | rfl
    · exact h.positive lost (mem_append.2 hm)
    · simp [JournalEntry.isDiscontinuity] at he
  · simp only [Collector.take, losses_append, losses_singleton he, Nat.add_zero]
    exact h.lost_eq

lemma Told.miss (hlt : c.cursor < log.length) (finish : ℕ) {reason : Unavailable}
    (hreason : reason.Holds capacity c.cursor) : (c.miss finish reason).Told capacity log := by
  have hview : view log (c.missed ++ [(c.cursor, reason)]) c.cursor = none :=
    view_missed (by simp)
  refine ⟨h.created_le.trans (Nat.le_succ _), hlt, ?_, fun m hm => ?_, fun m hm => ?_,
    fun lost hm => ?_, h.drained_lost, ?_⟩
  · have hextend := output_extend [(c.cursor, reason)] h.created_le h.output_eq (by simp) 1
    refine Eq.trans ?_ hextend
    simp only [Collector.output, Collector.miss, expand_append, expand_pushLost,
      append_assoc, range'_one, map_cons, map_nil, hview]
  · rcases mem_append.1 hm with hm | hm
    · exact ⟨(h.missed_mem m hm).1, Nat.lt_succ_of_lt (h.missed_mem m hm).2⟩
    · obtain rfl := mem_singleton.1 hm
      exact ⟨h.created_le, Nat.lt_succ_self _⟩
  · rcases mem_append.1 hm with hm | hm
    · exact h.reasons m hm
    · obtain rfl := mem_singleton.1 hm
      exact hreason
  · rcases mem_append.1 hm with hm | hm
    · exact h.positive lost (mem_append_left _ hm)
    · rcases mem_pushLost hm with hm | hm
      · exact h.positive lost (mem_append_right _ hm)
      · exact hm
  · simp only [Collector.miss, losses_pushLost, h.lost_eq]

lemma Told.finishDrain : c.finishDrain.Told capacity log := by
  have hout : c.finishDrain.output = c.output := by
    simp [Collector.output, Collector.finishDrain]
  refine ⟨h.created_le, h.cursor_le, hout ▸ h.output_eq, h.missed_mem, h.reasons,
    hout ▸ h.positive, fun d hd => ?_, rfl⟩
  rcases mem_append.1 hd with hd | hd
  · exact h.drained_lost d hd
  · obtain rfl := mem_singleton.1 hd
    exact h.lost_eq

lemma Told.begin (hentries : c.entries = []) {finish : ℕ} (hfinish : finish ≤ log.length) :
    (c.begin capacity finish).Told capacity log := by
  have hout : c.output = c.drained.flatMap DrainedEntries.entries := by
    simp [Collector.output, hentries]
  unfold Collector.begin
  split_ifs with hseen
  · have hsame : ({ c with loaded := finish, drained := c.drained ++ [⟨[], 0⟩] } :
        Collector).output = c.output := by
      simp [Collector.output]
    refine ⟨h.created_le, h.cursor_le, hsame ▸ h.output_eq, h.missed_mem, h.reasons,
      hsame ▸ h.positive, fun d hd => ?_, h.lost_eq⟩
    rcases mem_append.1 hd with hd | hd
    · exact h.drained_lost d hd
    · obtain rfl := mem_singleton.1 hd
      rfl
  · obtain ⟨n, hn⟩ : ∃ n, n = finish - capacity - c.cursor := ⟨_, rfl⟩
    have hmax : max c.cursor (finish - capacity) = c.cursor + n := by omega
    have hmore : ∀ m ∈ (range' c.cursor n).map
        (fun position => (position, Unavailable.beforeRetained finish)),
        c.cursor ≤ m.1 ∧ m.1 < c.cursor + n ∧ m.2 = .beforeRetained finish := by
      intro m hm
      obtain ⟨position, hp, rfl⟩ := mem_map.1 hm
      exact ⟨(mem_range'_1.1 hp).1, (mem_range'_1.1 hp).2, rfl⟩
    have hcursor := h.created_le
    have hcursor_le := h.cursor_le
    simp only [← hn, hmax]
    refine ⟨by simp only; omega, by simp only; omega, ?_, fun m hm => ?_, fun m hm => ?_, fun lost hm => ?_,
      h.drained_lost, ?_⟩
    · have hextend := output_extend _ h.created_le h.output_eq (fun m hm => (hmore m hm).1) n
      have hnone : (range' c.cursor n).map (view log (c.missed ++
          (range' c.cursor n).map (fun position => (position, .beforeRetained finish)))) =
          List.replicate n none := by
        rw [eq_replicate_iff]
        refine ⟨by simp, fun x hx => ?_⟩
        obtain ⟨position, hp, rfl⟩ := mem_map.1 hx
        refine view_missed (mem_map.2 ⟨(position, .beforeRetained finish), ?_, rfl⟩)
        exact mem_append_right _ (mem_map.2 ⟨position, hp, rfl⟩)
      refine Eq.trans ?_ hextend
      rw [hnone, hout]
      simp only [Collector.output, expand_append]
      congr 1
      split_ifs with hpos
      · simp [expand, JournalEntry.expand]
      · simp [expand, show n = 0 by omega]
    · rcases mem_append.1 hm with hm | hm
      · obtain ⟨hge, hlt⟩ := h.missed_mem m hm
        exact ⟨hge, by simp only; omega⟩
      · obtain ⟨hge, hlt, -⟩ := hmore m hm
        exact ⟨by simp only; omega, hlt⟩
    · rcases mem_append.1 hm with hm | hm
      · exact h.reasons m hm
      · obtain ⟨hge, hlt, hreason⟩ := hmore m hm
        rw [hreason]
        show m.1 + capacity < finish
        omega
    · rcases mem_append.1 hm with hm | hm
      · exact h.positive lost (mem_append_left _ hm)
      · split_ifs at hm with hpos
        · have heq : lost = n := by simpa using hm
          omega
        · simp at hm
    · simp only
      split_ifs with hpos
      · simp [losses, JournalEntry.losses]
      · simp [losses]
        omega

end

end Collector

def WriterPc.todo : WriterPc → List JournalEntry
  | .idle => []
  | .flushing todo => todo
  | .flushed todo => todo
  | .offered _ todo => todo
  | .publishing _ _ _ todo => todo

def WriterPc.inHand : WriterPc → ℕ
  | .offered _ _ => 1
  | .publishing _ _ false _ => 1
  | _ => 0

def WriterPc.owned : WriterPc → Option (PublishStage × PendingJournalEntry)
  | .publishing .released _ _ _ => none
  | .publishing stage item _ _ => some (stage, item)
  | _ => none

def JournalState.AtHand (st : JournalState) : Prop :=
  match st.writer with
  | .offered item _ =>
      item.sequence + 1 = st.log.length ∧ st.log[item.sequence]? = some item.entry
  | .publishing _ item true _ => st.publisher.pending.head? = some item
  | .publishing _ item false _ =>
      st.publisher.pending = [] ∧ st.publisher.droppedAfterPending = 0 ∧
        item.sequence = st.ring.finalized ∧ st.log[item.sequence]? = some item.entry
  | _ => True

def Collector.pinned (c : Collector) : Bool :=
  match c.pc with
  | .pinned _ => true
  | .matched _ => true
  | .unpinning _ _ _ => true
  | _ => false

def Collector.pins (capacity i : ℕ) (c : Collector) : Bool :=
  c.pinned && decide (c.cursor % capacity = i)

lemma Collector.pins_iff {capacity i : ℕ} :
    c.pins capacity i = true ↔ c.pinned = true ∧ c.cursor % capacity = i := by
  simp [Collector.pins]

def Collector.Knows (ring : JournalRing) (log : List JournalEntry) (c : Collector) : Prop :=
  match c.pc with
  | .idle => c.cursor = max c.created c.loaded ∧ c.entries = [] ∧ c.lost = 0
  | .reading finish => finish = c.loaded ∧ c.cursor ≤ finish
  | .adding finish _ => finish = c.loaded ∧ c.cursor < finish
  | .pinned finish => finish = c.loaded ∧ c.cursor < finish
  | .matched finish =>
      (finish = c.loaded ∧ c.cursor < finish) ∧ (ring.slot c.cursor).sequence = some c.cursor
  | .unpinning finish seen none => (finish = c.loaded ∧ c.cursor < finish) ∧ seen ≠ some c.cursor
  | .unpinning finish _ (some entry) =>
      (finish = c.loaded ∧ c.cursor < finish) ∧ log[c.cursor]? = some entry

structure Collector.Sound (ring : JournalRing) (log : List JournalEntry) (c : Collector) :
    Prop where
  told : c.Told ring.capacity log
  loaded_le : c.loaded ≤ ring.finalized
  knows : c.Knows ring log

/-- A slot no writer owns: its users are the collectors that pinned it, and its entry is the one
offered under its sequence number. -/
structure FreeSlot (slot : JournalSlot) (readers : ℕ) (log : List JournalEntry) : Prop where
  users_eq : slot.users = readers
  logged : ∀ q, slot.sequence = some q → ∃ e, slot.entry = some e ∧ log[q]? = some e

structure OwnedSlot (slot : JournalSlot) (readers : ℕ) (stage : PublishStage)
    (item : PendingJournalEntry) : Prop where
  users_eq : slot.users = slotWriter
  unread : readers = 0
  written : stage ≠ .locked → slot.entry = some item.entry
  sequenced : stage = .sequenced → slot.sequence = some item.sequence

def JournalState.readers (st : JournalState) (i : ℕ) : ℕ :=
  st.collectors.countP (Collector.pins st.ring.capacity i)

structure JournalState.Inv (st : JournalState) : Prop where
  capacity_pos : 0 < st.ring.capacity
  offered_eq : st.ring.offered = st.log.length
  next_eq : st.publisher.nextSequence = st.log.length
  recorded : ∀ e ∈ st.log, e.isDiscontinuity = false
  todo_recorded : ∀ e ∈ st.writer.todo, e.isDiscontinuity = false
  counted : st.ring.finalized + st.publisher.pending.length + st.publisher.droppedAfterPending +
    st.writer.inHand = st.log.length
  pending_at : ∀ k item, st.publisher.pending[k]? = some item →
    item.sequence = st.ring.finalized + k ∧ st.log[item.sequence]? = some item.entry
  atHand : st.AtHand
  free : ∀ i, (∀ stage item, st.writer.owned = some (stage, item) →
    st.ring.index item.sequence ≠ i) → FreeSlot (st.ring.slots i) (st.readers i) st.log
  owned : ∀ stage item, st.writer.owned = some (stage, item) →
    OwnedSlot (st.ring.slot item.sequence) (st.readers (st.ring.index item.sequence)) stage item
  sound : ∀ c ∈ st.collectors, c.Sound st.ring st.log

lemma Collector.Sound.write {ring ring' : JournalRing} {log log' : List JournalEntry}
    (hs : c.Sound ring log) (hcapacity : ring'.capacity = ring.capacity)
    (hfinalized : ring.finalized ≤ ring'.finalized) (hlog : log <+: log') (hslot : c.pinned = true →
      (ring'.slot c.cursor).sequence = (ring.slot c.cursor).sequence) : c.Sound ring' log' := by
  refine ⟨hcapacity ▸ hs.told.offer hlog, hs.loaded_le.trans hfinalized, ?_⟩
  have hknows := hs.knows
  unfold Collector.Knows at hknows ⊢
  cases hpc : c.pc with
  | idle | reading | adding | pinned =>
    simp only [hpc] at hknows ⊢
    exact hknows
  | matched finish =>
    simp only [hpc] at hknows ⊢
    rw [hslot (by simp [Collector.pinned, hpc])]
    exact hknows
  | unpinning finish seen found =>
    cases found with
    | none =>
      simp only [hpc] at hknows ⊢
      exact hknows
    | some entry =>
      simp only [hpc] at hknows ⊢
      obtain ⟨hlt, hget⟩ := List.getElem?_eq_some_iff.1 hknows.2
      refine ⟨hknows.1, ?_⟩
      rw [prefix_iff_getElem?.1 hlog _ hlt, hget]

namespace JournalState

variable {st st' : JournalState}

lemma inv_new (capacity pendingCapacity : ℕ) : (new capacity pendingCapacity).Inv := by
  refine ⟨?_, rfl, rfl, by simp [new], by simp [new, WriterPc.todo], rfl,
    by simp [new, JournalPublisher.new], trivial, fun i _ => ⟨rfl, fun q hq => ?_⟩,
    fun stage item h => ?_, by simp [new]⟩
  · show 0 < max capacity 1
    omega
  · cases hq
  · cases h

lemma Inv.finalized_le (h : st.Inv) : st.ring.finalized ≤ st.log.length := by
  have := h.counted
  omega

variable {c : Collector} {i : ℕ} {c' : Collector} {item : PendingJournalEntry} {queued : Bool}
  {todo : List JournalEntry}

section

variable (h : st.Inv)
include h

lemma Inv.not_owned (hc : c ∈ st.collectors) (hpin : c.pins st.ring.capacity i = true) :
    ∀ stage item, st.writer.owned = some (stage, item) → st.ring.index item.sequence ≠ i := by
  rintro stage item howned rfl
  have hzero := (h.owned stage item howned).unread
  have hpos : 0 < st.readers (st.ring.index item.sequence) :=
    countP_pos_iff.2 ⟨c, hc, hpin⟩
  omega

lemma Inv.publish {entries : List JournalEntry} (hstep : st.publish entries = some st') :
    st'.Inv := by
  unfold JournalState.publish at hstep
  split_ifs at hstep with hidle
  obtain rfl := some.inj hstep
  obtain ⟨hwriter, hentries⟩ := hidle
  have hcounted := h.counted
  have hfree := h.free
  simp only [hwriter, WriterPc.inHand, WriterPc.owned] at hcounted hfree
  exact ⟨h.capacity_pos, h.offered_eq, h.next_eq, h.recorded, hentries, hcounted, h.pending_at,
    trivial, hfree, (fun _ _ howned => by cases howned), h.sound⟩

lemma Inv.collector : st.collector.Inv := by
  have hreaders : ∀ i, st.collector.readers i = st.readers i := by
    intro i
    simp [readers, JournalState.collector, countP_append, Collector.new, Collector.pins,
      Collector.pinned]
  refine ⟨h.capacity_pos, h.offered_eq, h.next_eq, h.recorded, h.todo_recorded, h.counted,
    h.pending_at, h.atHand, fun i hi => ?_, fun stage item howned => ?_, fun c hc => ?_⟩
  · rw [hreaders]
    exact h.free i hi
  · rw [hreaders]
    exact h.owned stage item howned
  · rcases mem_append.1 hc with hc | hc
    · exact h.sound c hc
    · obtain rfl := mem_singleton.1 hc
      refine ⟨.new _ h.offered_eq.le, Nat.zero_le _, ?_, rfl, rfl⟩
      exact (Nat.max_zero _).symm

lemma Inv.replace (hi : st.collectors[i]? = some c) (users : ℕ → ℕ)
    (husers : ∀ j, users j + (c.pins st.ring.capacity j).toNat =
      (st.ring.slots j).users + (c'.pins st.ring.capacity j).toNat)
    (howned : ∀ stage item, st.writer.owned = some (stage, item) →
      c'.pins st.ring.capacity (st.ring.index item.sequence) = false)
    (hsound : c'.Sound st.ring st.log) :
    ({ st with
      ring := { st.ring with slots := fun j => { st.ring.slots j with users := users j } }
      collectors := st.collectors.set i c' } : JournalState).Inv := by
  obtain ⟨hlt, hget⟩ := List.getElem?_eq_some_iff.1 hi
  have hmem : c ∈ st.collectors := mem_of_getElem? hi
  have hreaders : ∀ j, (st.collectors.set i c').countP (Collector.pins st.ring.capacity j) +
      (c.pins st.ring.capacity j).toNat = st.readers j + (c'.pins st.ring.capacity j).toNat := by
    intro j
    have hset := countP_set (p := Collector.pins st.ring.capacity j) (a := c') hlt
    rw [hget] at hset
    have hpos : c.pins st.ring.capacity j = true →
        0 < st.collectors.countP (Collector.pins st.ring.capacity j) :=
      fun hp => countP_pos_iff.2 ⟨c, hmem, hp⟩
    rw [hset, readers]
    cases hc : c.pins st.ring.capacity j with
    | false => cases hc' : c'.pins st.ring.capacity j <;> simp
    | true =>
      have := hpos hc
      cases hc' : c'.pins st.ring.capacity j <;> simp <;> omega
  have hsame : ∀ d : Collector, d.Sound st.ring st.log → d.Sound
      { st.ring with slots := fun j => { st.ring.slots j with users := users j } } st.log :=
    fun d hd => ⟨hd.told, hd.loaded_le, hd.knows⟩
  refine ⟨h.capacity_pos, h.offered_eq, h.next_eq, h.recorded, h.todo_recorded, h.counted,
    h.pending_at, h.atHand, fun j hj => ?_, fun stage item hown => ?_, fun d hd => hsame d ?_⟩
  · have hfree := h.free j hj
    refine ⟨?_, hfree.logged⟩
    have h1 := hfree.users_eq
    have h2 := hreaders j
    have h3 := husers j
    show users j = (st.collectors.set i c').countP (Collector.pins st.ring.capacity j)
    omega
  · have hold := h.owned stage item hown
    have hc' := howned stage item hown
    have hc : c.pins st.ring.capacity (st.ring.index item.sequence) = false := by
      by_contra hpin
      exact h.not_owned hmem (Bool.not_eq_false _ ▸ hpin) stage item hown rfl
    have h2 := hreaders (st.ring.index item.sequence)
    have h3 := husers (st.ring.index item.sequence)
    simp only [hc, hc', Bool.toNat_false, Nat.add_zero] at h2 h3
    refine ⟨?_, ?_, hold.written, hold.sequenced⟩
    · exact h3.trans hold.users_eq
    · exact h2.trans hold.unread
  · rcases mem_or_eq_of_mem_set hd with hd | rfl
    · exact h.sound d hd
    · exact hsound

lemma Inv.replace_unpinned (hi : st.collectors[i]? = some c)
    (hc : ∀ j, c.pins st.ring.capacity j = false) (hc' : ∀ j, c'.pins st.ring.capacity j = false)
    (hsound : c'.Sound st.ring st.log) :
    ({ st with collectors := st.collectors.set i c' } : JournalState).Inv :=
  h.replace hi (fun j => (st.ring.slots j).users) (fun j => by rw [hc, hc'])
    (fun _ _ _ => hc' _) hsound

lemma Inv.collect (hstep : st.collect i = some st') : st'.Inv := by
  simp only [JournalState.collect, bind_eq_bind, bind_eq_some_iff] at hstep
  obtain ⟨c, hi, hstep⟩ := hstep
  split_ifs at hstep with hidle
  obtain rfl := some.inj hstep
  have hs := h.sound c (mem_of_getElem? hi)
  have hknows := hs.knows
  simp only [Collector.Knows, hidle] at hknows
  obtain ⟨hcursor, hentries, hlost⟩ := hknows
  refine h.replace_unpinned hi (fun j => by simp [Collector.pins, Collector.pinned, hidle]) (fun j => ?_)
    ⟨hs.told.begin hentries h.finalized_le, ?_, ?_⟩
  · unfold Collector.begin
    split_ifs <;> simp [Collector.pins, Collector.pinned, hidle]
  · unfold Collector.begin
    split_ifs <;> exact le_rfl
  · unfold Collector.begin
    have hloaded := hs.loaded_le
    split_ifs with hseen
    · simp only [Collector.Knows, hidle]
      exact ⟨by omega, hentries, hlost⟩
    · refine ⟨rfl, ?_⟩
      have := h.capacity_pos
      simp only
      omega

lemma Inv.retry (hstep : st.retry i = some st') : st'.Inv := by
  simp only [JournalState.retry, bind_eq_bind, bind_eq_some_iff] at hstep
  obtain ⟨c, hi, hstep⟩ := hstep
  have hs := h.sound c (mem_of_getElem? hi)
  split at hstep
  · rename_i finish users hpc
    split_ifs at hstep
    obtain rfl := some.inj hstep
    have hknows := hs.knows
    simp only [Collector.Knows, hpc] at hknows
    exact h.replace_unpinned hi (fun j => by simp [Collector.pins, Collector.pinned, hpc])
      (fun j => by simp [Collector.pins, Collector.pinned]) ⟨hs.told.pc _, hs.loaded_le, hknows⟩
  · cases hstep

end

lemma setSlot_users (r : JournalRing) (q users : ℕ) :
    r.setSlot q { r.slot q with users := users } =
      { r with slots := fun j =>
          { r.slots j with users := if j = r.index q then users else (r.slots j).users } } := by
  unfold setSlot
  congr 1
  funext j
  by_cases hj : j = r.index q
  · subst hj
    simp [JournalRing.slot]
  · simp [hj]

section

variable (h : st.Inv)
include h

variable {users : ℕ} {writer : WriterPc} {stage : PublishStage}

lemma Inv.replace_at (hi : st.collectors[i]? = some c)
    (hcursor : c'.pinned = true → c'.cursor = c.cursor)
    (husers : users + c.pinned.toNat = (st.ring.slot c.cursor).users + c'.pinned.toNat)
    (howned : c'.pinned = true → ∀ stage item, st.writer.owned = some (stage, item) →
      st.ring.index item.sequence ≠ st.ring.index c.cursor) (hsound : c'.Sound st.ring st.log) :
    ({ st with
      ring := st.ring.setSlot c.cursor { st.ring.slot c.cursor with users := users }
      collectors := st.collectors.set i c' } : JournalState).Inv := by
  have hpins' : ∀ j, c'.pins st.ring.capacity j =
      (c'.pinned && decide (st.ring.index c.cursor = j)) := by
    intro j
    cases hp : c'.pinned with
    | false => simp [Collector.pins, hp]
    | true =>
      rw [Collector.pins, hp, hcursor hp]
      rfl
  rw [setSlot_users]
  refine h.replace hi _ (fun j => ?_) (fun stage item hown => ?_) hsound
  · rw [hpins']
    by_cases hj : j = st.ring.index c.cursor
    · subst hj
      simpa [Collector.pins, index, JournalRing.slot] using husers
    · have hj' : ¬st.ring.index c.cursor = j := fun heq => hj heq.symm
      have hj'' : ¬c.cursor % st.ring.capacity = j := hj'
      simp [Collector.pins, hj, hj', hj'']
  · rw [hpins']
    cases hp : c'.pinned with
    | false => rfl
    | true => simpa using (howned hp stage item hown).symm

lemma Inv.cursor_lt (hs : c.Sound st.ring st.log) {finish : ℕ}
    (hfinish : finish = c.loaded ∧ c.cursor < finish) : c.cursor < st.log.length := by
  have := hs.loaded_le
  have := h.finalized_le
  omega

lemma Inv.pinned_slot (hc : c ∈ st.collectors) (hpin : c.pinned = true) :
    (∀ stage item, st.writer.owned = some (stage, item) →
        st.ring.index item.sequence ≠ st.ring.index c.cursor) ∧ 0 < (st.ring.slot c.cursor).users ∧
      ∀ q, (st.ring.slot c.cursor).sequence = some q →
        ∃ e, (st.ring.slot c.cursor).entry = some e ∧ st.log[q]? = some e := by
  have hpins : c.pins st.ring.capacity (st.ring.index c.cursor) = true :=
    Collector.pins_iff.2 ⟨hpin, rfl⟩
  have howned := h.not_owned hc hpins
  have hfree := h.free _ howned
  refine ⟨howned, ?_, hfree.logged⟩
  have hpos : 0 < st.readers (st.ring.index c.cursor) := countP_pos_iff.2 ⟨c, hc, hpins⟩
  have husers := hfree.users_eq
  show 0 < (st.ring.slots (st.ring.index c.cursor)).users
  omega

lemma Inv.not_owned_of_users {q : ℕ} (hflag : users &&& slotWriter = 0)
    (husers : (st.ring.slot q).users = users) :
    ∀ stage item, st.writer.owned = some (stage, item) →
      st.ring.index item.sequence ≠ st.ring.index q := by
  intro stage item hown heq
  have hw := (h.owned stage item hown).users_eq
  rw [JournalRing.slot, heq] at hw
  rw [JournalRing.slot, hw] at husers
  rw [← husers, Nat.and_self] at hflag
  exact absurd hflag (by decide)

lemma Inv.read (hstep : st.read i = some st') : st'.Inv := by
  simp only [JournalState.read, bind_eq_bind, bind_eq_some_iff] at hstep
  obtain ⟨c, hi, ⟨c', users⟩, hread, hstep⟩ := hstep
  obtain rfl := some.inj hstep
  have hc : c ∈ st.collectors := mem_of_getElem? hi
  have hs := h.sound c hc
  have hknows := hs.knows
  unfold readSlot at hread
  unfold Collector.Knows at hknows
  cases hpc : c.pc with
  | idle => simp [hpc] at hread
  | reading finish =>
    simp only [hpc] at hread hknows
    split_ifs at hread with hlt
    · obtain ⟨rfl, rfl⟩ := Prod.mk.inj (some.inj hread)
      exact h.replace_at hi (by simp [Collector.pinned]) (by simp [Collector.pinned, hpc])
        (by simp [Collector.pinned]) ⟨hs.told.pc _, hs.loaded_le, hknows.1, hlt⟩
    · obtain ⟨rfl, rfl⟩ := Prod.mk.inj (some.inj hread)
      have hcreated := hs.told.created_le
      refine h.replace_at hi (by simp [Collector.pinned, Collector.finishDrain])
        (by simp [Collector.pinned, Collector.finishDrain, hpc])
        (by simp [Collector.pinned, Collector.finishDrain])
        ⟨hs.told.finishDrain, hs.loaded_le, ?_, rfl, rfl⟩
      show c.cursor = max c.created c.loaded
      omega
  | adding finish seen =>
    simp only [hpc] at hread hknows
    split_ifs at hread with hflag huser
    · obtain ⟨rfl, rfl⟩ := Prod.mk.inj (some.inj hread)
      exact h.replace_at hi (by simp [Collector.pinned, Collector.miss])
        (by simp [Collector.pinned, Collector.miss, hpc])
        (by simp [Collector.pinned, Collector.miss])
        ⟨hs.told.miss (h.cursor_lt hs hknows) finish hflag, hs.loaded_le, hknows.1, hknows.2⟩
    · obtain ⟨rfl, rfl⟩ := Prod.mk.inj (some.inj hread)
      have hbit : seen &&& slotWriter = 0 := by
        by_contra hne
        exact hflag (.inl hne)
      exact h.replace_at hi (fun _ => rfl) (by simp [Collector.pinned, hpc, huser])
        (fun _ => h.not_owned_of_users hbit huser) ⟨hs.told.pc _, hs.loaded_le, hknows⟩
    · obtain ⟨rfl, rfl⟩ := Prod.mk.inj (some.inj hread)
      exact h.replace_at hi (by simp [Collector.pinned]) (by simp [Collector.pinned, hpc])
        (by simp [Collector.pinned]) ⟨hs.told.pc _, hs.loaded_le, hknows⟩
  | pinned finish =>
    simp only [hpc] at hread hknows
    obtain ⟨howned, hpos, -⟩ := h.pinned_slot hc (by simp [Collector.pinned, hpc])
    split_ifs at hread with hseq
    · obtain ⟨rfl, rfl⟩ := Prod.mk.inj (some.inj hread)
      exact h.replace_at hi (fun _ => rfl) (by simp [Collector.pinned, hpc]) (fun _ => howned)
        ⟨hs.told.pc _, hs.loaded_le, hknows, hseq⟩
    · obtain ⟨rfl, rfl⟩ := Prod.mk.inj (some.inj hread)
      exact h.replace_at hi (fun _ => rfl) (by simp [Collector.pinned, hpc]) (fun _ => howned)
        ⟨hs.told.pc _, hs.loaded_le, hknows, hseq⟩
  | matched finish =>
    simp only [hpc] at hread hknows
    obtain ⟨howned, hpos, hlogged⟩ := h.pinned_slot hc (by simp [Collector.pinned, hpc])
    obtain ⟨rfl, rfl⟩ := Prod.mk.inj (some.inj hread)
    obtain ⟨entry, hentry, hlog⟩ := hlogged c.cursor hknows.2
    refine h.replace_at hi (fun _ => rfl) (by simp [Collector.pinned, hpc]) (fun _ => howned)
      ⟨hs.told.pc _, hs.loaded_le, ?_⟩
    simp only [Collector.Knows, hentry]
    exact ⟨hknows.1, hlog⟩
  | unpinning finish seen found =>
    obtain ⟨-, hpos, -⟩ := h.pinned_slot hc (by simp [Collector.pinned, hpc])
    cases found with
    | none =>
      simp only [hpc] at hread hknows
      obtain ⟨rfl, rfl⟩ := Prod.mk.inj (some.inj hread)
      refine h.replace_at hi (by simp [Collector.pinned, Collector.miss]) ?_
        (by simp [Collector.pinned, Collector.miss])
        ⟨hs.told.miss (h.cursor_lt hs hknows.1) finish hknows.2, hs.loaded_le, hknows.1⟩
      simp only [Collector.pinned, Collector.miss, hpc, Bool.toNat_true, Bool.toNat_false]
      omega
    | some entry =>
      simp only [hpc] at hread hknows
      obtain ⟨rfl, rfl⟩ := Prod.mk.inj (some.inj hread)
      have hrecorded := h.recorded entry (mem_of_getElem? hknows.2)
      refine h.replace_at hi (by simp [Collector.pinned, Collector.take]) ?_
        (by simp [Collector.pinned, Collector.take])
        ⟨hs.told.take hknows.2 hrecorded finish, hs.loaded_le, hknows.1⟩
      simp only [Collector.pinned, Collector.take, hpc, Bool.toNat_true, Bool.toNat_false]
      omega

lemma Inv.advance {publisher : JournalPublisher} {finalized : ℕ}
    (hfinalized : st.ring.finalized ≤ finalized) (hnext : publisher.nextSequence = st.log.length)
    (htodo : writer.todo = st.writer.todo)
    (hcounted : finalized + publisher.pending.length + publisher.droppedAfterPending +
      writer.inHand = st.log.length) (hpending : ∀ k item, publisher.pending[k]? = some item →
      item.sequence = finalized + k ∧ st.log[item.sequence]? = some item.entry) (hhand : ({ st with
      ring := { st.ring with finalized := finalized }
      publisher := publisher
      writer := writer } : JournalState).AtHand) (hnone : st.writer.owned = none)
    (hnone' : writer.owned = none) :
    ({ st with
      ring := { st.ring with finalized := finalized }
      publisher := publisher
      writer := writer } : JournalState).Inv := by
  refine ⟨h.capacity_pos, h.offered_eq, hnext, h.recorded, htodo ▸ h.todo_recorded, hcounted,
    hpending, hhand, fun i _ => ?_, fun stage item hown => ?_, fun c hc => ?_⟩
  · exact h.free i (fun stage item hown => by simp [hnone] at hown)
  · simp [hnone'] at hown
  · exact (h.sound c hc).write rfl hfinalized (prefix_refl _) (fun _ => rfl)

lemma Inv.touch {slot : JournalSlot} (htodo : writer.todo = st.writer.todo)
    (hinHand : writer.inHand = st.writer.inHand) (hhand : ({ st with
      ring := st.ring.setSlot item.sequence slot
      writer := writer } : JournalState).AtHand)
    (hold : ∀ stage' item', st.writer.owned = some (stage', item') → item' = item)
    (hnew : ∀ stage' item', writer.owned = some (stage', item') → item' = item)
    (hunread : st.readers (st.ring.index item.sequence) = 0)
    (hfree : writer.owned = none → FreeSlot slot 0 st.log)
    (howned : ∀ stage, writer.owned = some (stage, item) → OwnedSlot slot 0 stage item) :
    ({ st with
      ring := st.ring.setSlot item.sequence slot
      writer := writer } : JournalState).Inv := by
  have hreaders : ∀ i, ({ st with
      ring := st.ring.setSlot item.sequence slot
      writer := writer } : JournalState).readers i = st.readers i := fun i => rfl
  refine ⟨h.capacity_pos, h.offered_eq, h.next_eq, h.recorded, htodo ▸ h.todo_recorded, ?_,
    h.pending_at, hhand, fun i hi => ?_, fun stage item' hown => ?_, fun c hc => ?_⟩
  · rw [hinHand]
    exact h.counted
  · rw [hreaders]
    by_cases hidx : i = st.ring.index item.sequence
    · subst hidx
      have hnone : writer.owned = none := by
        by_contra hne
        obtain ⟨⟨stage, item'⟩, hown⟩ := ne_none_iff_exists'.1 hne
        obtain rfl := hnew stage item' hown
        exact hi stage item' hown rfl
      rw [hunread]
      simpa [setSlot] using hfree hnone
    · have hslot : (st.ring.setSlot item.sequence slot).slots i = st.ring.slots i := by
        simp [setSlot, hidx]
      simp only [hslot]
      refine h.free i (fun stage item' hown heq => hidx ?_)
      obtain rfl := hold stage item' hown
      exact heq.symm
  · obtain rfl := hnew stage item' hown
    have hsame : (st.ring.setSlot item'.sequence slot).slot item'.sequence = slot := by
      simp [setSlot, JournalRing.slot, index]
    rw [hreaders]
    show OwnedSlot ((st.ring.setSlot item'.sequence slot).slot item'.sequence)
      (st.readers (st.ring.index item'.sequence)) stage item'
    rw [hsame, hunread]
    exact howned stage hown
  · refine (h.sound c hc).write rfl le_rfl (prefix_refl _) (fun hpin => ?_)
    have hne : st.ring.index c.cursor ≠ st.ring.index item.sequence := by
      intro heq
      have hpos : 0 < st.readers (st.ring.index item.sequence) :=
        countP_pos_iff.2 ⟨c, hc, Collector.pins_iff.2 ⟨hpin, heq⟩⟩
      omega
    have hslot : (st.ring.setSlot item.sequence slot).slot c.cursor = st.ring.slot c.cursor := by
      show Function.update st.ring.slots (st.ring.index item.sequence) slot
        (st.ring.index c.cursor) = st.ring.slots (st.ring.index c.cursor)
      exact Function.update_of_ne hne _ _
    rw [hslot]

lemma Inv.pending_append (hseq : item.sequence = st.ring.finalized + st.publisher.pending.length)
    (hlog : st.log[item.sequence]? = some item.entry) :
    ∀ k item', (st.publisher.pending ++ [item])[k]? = some item' →
      item'.sequence = st.ring.finalized + k ∧ st.log[item'.sequence]? = some item'.entry := by
  intro k item' hk
  rcases Nat.lt_trichotomy k st.publisher.pending.length with hlt | rfl | hgt
  · rw [getElem?_append_left hlt] at hk
    exact h.pending_at k item' hk
  · rw [getElem?_concat_length] at hk
    obtain rfl := some.inj hk
    exact ⟨hseq, hlog⟩
  · rw [getElem?_eq_none (by simp; omega)] at hk
    cases hk

lemma Inv.publishing (hwriter : st.writer = .publishing stage item queued todo) :
    item.sequence = st.ring.finalized ∧ st.log[item.sequence]? = some item.entry := by
  have hhand := h.atHand
  cases queued with
  | true =>
    simp only [AtHand, hwriter, head?_eq_getElem?] at hhand
    exact h.pending_at 0 item hhand
  | false =>
    simp only [AtHand, hwriter] at hhand
    exact ⟨hhand.2.2.1, hhand.2.2.2⟩

lemma Inv.lock (hnone : st.writer.owned = none) (htodo : st.writer.todo = todo)
    (hinHand : st.writer.inHand = (WriterPc.publishing .locked item queued todo).inHand)
    (husers : (st.ring.slot item.sequence).users = 0) (hhand : (st.lock item queued todo).AtHand) :
    (st.lock item queued todo).Inv := by
  have hslot := h.free (st.ring.index item.sequence)
    (fun stage item' hown => by simp [hnone] at hown)
  have hunread : st.readers (st.ring.index item.sequence) = 0 := by
    rw [← hslot.users_eq]
    exact husers
  refine h.touch htodo.symm hinHand.symm hhand (fun stage item' hown => ?_)
    (fun stage item' hown => ?_) hunread (fun hown => ?_) (fun stage hown => ?_)
  · simp [hnone] at hown
  · simp only [WriterPc.owned, some.injEq, Prod.mk.injEq] at hown
    exact hown.2.symm
  · simp [WriterPc.owned] at hown
  · simp only [WriterPc.owned, some.injEq, Prod.mk.injEq] at hown
    obtain ⟨rfl, -⟩ := hown
    exact ⟨rfl, rfl, by simp, by simp⟩

lemma Inv.publishNext (hwriter : st.writer = .publishing stage item queued todo) :
    (st.publishNext stage item queued todo).Inv := by
  obtain ⟨hseq, hlog⟩ := h.publishing hwriter
  have hhand := h.atHand
  have htodo : todo = st.writer.todo := by rw [hwriter]; rfl
  have hinHand : ∀ stage', (WriterPc.publishing stage' item queued todo).inHand =
      st.writer.inHand := by
    intro stage'
    rw [hwriter]
    cases queued <;> rfl
  have hold : ∀ stage' item', st.writer.owned = some (stage', item') → item' = item := by
    intro stage' item' hown
    rw [hwriter] at hown
    cases stage <;> simp [WriterPc.owned] at hown <;> exact hown.2.symm
  cases stage with
  | locked =>
    have howned := h.owned .locked item (by rw [hwriter]; rfl)
    refine h.touch htodo (hinHand _) ?_ hold ?_ howned.unread ?_ (fun stage hown => ?_)
    · cases queued <;> simpa [AtHand, hwriter, setSlot] using hhand
    · intro stage' item' hown
      simp only [WriterPc.owned, some.injEq, Prod.mk.injEq] at hown
      exact hown.2.symm
    · simp [WriterPc.owned]
    · simp only [WriterPc.owned, some.injEq, Prod.mk.injEq] at hown
      obtain ⟨rfl, -⟩ := hown
      exact ⟨howned.users_eq, rfl, fun _ => rfl, by simp⟩
  | written =>
    have howned := h.owned .written item (by rw [hwriter]; rfl)
    refine h.touch htodo (hinHand _) ?_ hold ?_ howned.unread ?_ (fun stage hown => ?_)
    · cases queued <;> simpa [AtHand, hwriter, setSlot] using hhand
    · intro stage' item' hown
      simp only [WriterPc.owned, some.injEq, Prod.mk.injEq] at hown
      exact hown.2.symm
    · simp [WriterPc.owned]
    · simp only [WriterPc.owned, some.injEq, Prod.mk.injEq] at hown
      obtain ⟨rfl, -⟩ := hown
      exact ⟨howned.users_eq, rfl, fun _ => howned.written (by simp), fun _ => rfl⟩
  | sequenced =>
    have howned := h.owned .sequenced item (by rw [hwriter]; rfl)
    refine h.touch htodo (hinHand _) ?_ hold ?_ howned.unread (fun _ => ⟨rfl, fun q hq => ?_⟩) ?_
    · cases queued <;> simpa [AtHand, hwriter, setSlot] using hhand
    · simp [WriterPc.owned]
    · have hsequenced := howned.sequenced rfl
      simp only [hsequenced, some.injEq] at hq
      subst hq
      exact ⟨item.entry, howned.written (by simp), hlog⟩
    · simp [WriterPc.owned]
  | released =>
    have hcounted := h.counted
    have hnext := h.next_eq
    have hnone : st.writer.owned = none := by rw [hwriter]; rfl
    refine h.advance (by omega) hnext htodo ?_ (fun k item' hk => ?_) trivial hnone rfl
    · cases queued with
      | true =>
        simp only [AtHand, hwriter] at hhand
        rw [hwriter] at hcounted
        cases hp : st.publisher.pending with
        | nil => simp [hp] at hhand
        | cons first rest =>
          simp only [hp, length_cons, WriterPc.inHand, if_true, tail_cons] at hcounted ⊢
          omega
      | false =>
        simp only [AtHand, hwriter] at hhand
        simp only [hwriter, WriterPc.inHand] at hcounted
        simp only [WriterPc.inHand, Bool.false_eq_true, if_false]
        omega
    · cases queued with
      | true =>
        simp only [if_true, getElem?_tail] at hk
        have hat := h.pending_at (k + 1) item' hk
        exact ⟨by omega, hat.2⟩
      | false =>
        simp only [AtHand, hwriter] at hhand
        simp [hhand.1] at hk

lemma Inv.offer {entry : JournalEntry} (hwriter : st.writer = .flushed (entry :: todo)) :
    ({ st with
      publisher := { st.publisher with nextSequence := st.publisher.nextSequence + 1 }
      ring := { st.ring with offered := st.publisher.nextSequence + 1 }
      log := st.log ++ [entry]
      writer := .offered ⟨st.publisher.nextSequence, entry⟩ todo } : JournalState).Inv := by
  have hnext := h.next_eq
  have hcounted := h.counted
  have htodo := h.todo_recorded
  rw [hwriter] at hcounted htodo
  have hgrow : ∀ (q : ℕ) (e : JournalEntry), st.log[q]? = some e → (st.log ++ [entry])[q]? = some e := by
    intro q e hq
    rw [getElem?_append_left (List.getElem?_eq_some_iff.1 hq).1]
    exact hq
  refine ⟨h.capacity_pos, by simp [hnext], by simp [hnext], ?_, ?_, ?_, ?_, ?_, ?_, ?_, ?_⟩
  · intro e he
    rcases mem_append.1 he with he | he
    · exact h.recorded e he
    · obtain rfl := mem_singleton.1 he
      exact htodo e mem_cons_self
  · exact fun e he => htodo e (mem_cons_of_mem _ he)
  · simp only [WriterPc.inHand, length_append, length_singleton] at hcounted ⊢
    omega
  · intro k item hk
    exact ⟨(h.pending_at k item hk).1, hgrow _ _ (h.pending_at k item hk).2⟩
  · simp [AtHand, hnext]
  · intro i _
    have hfree := h.free i (fun stage item hown => by simp [hwriter, WriterPc.owned] at hown)
    refine ⟨hfree.users_eq, fun q hq => ?_⟩
    obtain ⟨e, he, hlog⟩ := hfree.logged q hq
    exact ⟨e, he, hgrow q e hlog⟩
  · intro stage item hown
    simp [WriterPc.owned] at hown
  · exact fun c hc => (h.sound c hc).write rfl le_rfl (prefix_append _ _) (fun _ => rfl)

lemma Inv.write (hstep : st.write = some st') : st'.Inv := by
  have hcounted := h.counted
  have hhand := h.atHand
  unfold JournalState.write at hstep
  unfold AtHand at hhand
  cases hwriter : st.writer with
  | idle => simp [hwriter] at hstep
  | flushing todo =>
    have hnone : st.writer.owned = none := by rw [hwriter]; rfl
    have htodo : todo = st.writer.todo := by rw [hwriter]; rfl
    simp only [hwriter] at hstep
    rw [hwriter] at hcounted
    split at hstep
    · rename_i item rest hp
      split_ifs at hstep with husers
      · obtain rfl := some.inj hstep
        exact h.lock hnone htodo.symm (by rw [hwriter]; rfl) husers
          (by simp [AtHand, JournalState.lock, hp])
      · obtain rfl := some.inj hstep
        exact h.advance le_rfl h.next_eq htodo hcounted h.pending_at trivial hnone rfl
    · rename_i hp
      split_ifs at hstep with hdropped
      · obtain rfl := some.inj hstep
        refine h.advance (h.next_eq ▸ h.finalized_le) h.next_eq htodo ?_
          (fun k item hk => by simp [hp] at hk) trivial hnone rfl
        simp [WriterPc.inHand, hp, h.next_eq]
      · obtain rfl := some.inj hstep
        exact h.advance le_rfl h.next_eq htodo hcounted h.pending_at trivial hnone rfl
  | flushed todo =>
    have hnone : st.writer.owned = none := by rw [hwriter]; rfl
    rw [hwriter] at hcounted
    cases todo with
    | nil =>
      simp only [hwriter] at hstep
      obtain rfl := some.inj hstep
      exact h.advance le_rfl h.next_eq (by rw [hwriter]; rfl) hcounted h.pending_at trivial
        hnone rfl
    | cons entry todo =>
      simp only [hwriter] at hstep
      obtain rfl := some.inj hstep
      exact h.offer hwriter
  | offered item todo =>
    have hnone : st.writer.owned = none := by rw [hwriter]; rfl
    have htodo : todo = st.writer.todo := by rw [hwriter]; rfl
    simp only [hwriter] at hstep hhand
    simp only [hwriter, WriterPc.inHand] at hcounted
    obtain ⟨hseq, hlog⟩ := hhand
    have hqueued : st.publisher.droppedAfterPending = 0 →
        st.ring.finalized + (st.publisher.pending ++ [item]).length +
          st.publisher.droppedAfterPending + 0 = st.log.length := by
      rw [length_append, length_singleton]
      omega
    have hdrop : st.ring.finalized + st.publisher.pending.length +
        (st.publisher.droppedAfterPending + 1) + 0 = st.log.length := by
      omega
    split_ifs at hstep with hbehind husers hroom
    · obtain rfl := some.inj hstep
      unfold park
      split_ifs with hpark
      · exact h.advance le_rfl h.next_eq htodo (hqueued hpark.1)
          (h.pending_append (by omega) hlog) trivial hnone rfl
      · exact h.advance le_rfl h.next_eq htodo hdrop h.pending_at trivial hnone rfl
    · obtain rfl := some.inj hstep
      push Not at hbehind
      obtain ⟨hpending, hdropped⟩ := hbehind
      rw [hpending, length_nil] at hcounted
      refine h.lock hnone htodo.symm (by rw [hwriter]; rfl) husers ?_
      refine ⟨hpending, by simp only [JournalState.lock]; omega, ?_, hlog⟩
      simp only [JournalState.lock, setSlot]
      omega
    · obtain rfl := some.inj hstep
      push Not at hbehind
      exact h.advance le_rfl h.next_eq htodo (hqueued (by omega))
        (h.pending_append (by omega) hlog) trivial hnone rfl
    · obtain rfl := some.inj hstep
      push Not at hbehind
      have hone : st.publisher.droppedAfterPending + 1 = 1 := by omega
      exact h.advance le_rfl h.next_eq htodo (hone ▸ hdrop) h.pending_at trivial hnone rfl
  | publishing stage item queued todo =>
    simp only [hwriter] at hstep
    obtain rfl := some.inj hstep
    exact h.publishNext hwriter

lemma Inv.step {action : JournalAction} (hstep : st.step action = some st') : st'.Inv := by
  cases action with
  | publish entries => exact h.publish hstep
  | write => exact h.write hstep
  | collector =>
    obtain rfl := some.inj hstep
    exact h.collector
  | collect i => exact h.collect hstep
  | read i => exact h.read hstep
  | retry i => exact h.retry hstep

lemma Inv.run {actions : List JournalAction} (hrun : st.run actions = some st') : st'.Inv := by
  induction actions generalizing st with
  | nil =>
    obtain rfl := some.inj hrun
    exact h
  | cons action actions ih =>
    simp only [JournalState.run, bind_eq_bind, bind_eq_some_iff] at hrun
    obtain ⟨next, hstep, hrest⟩ := hrun
    exact ih (h.step hstep) hrest

end

end JournalState

/-- Whatever the interleaving, a collector has told of every position from its creation to its
cursor, which after a drain is the `finalized` that the drain loaded.  Whatever the batches, the
sealer's snapshots account for the stretches of the stream, and their intervals are disjoint when
the stream is timely from the sealer's start on. -/
theorem journal_loses_nothing (capacity pendingCapacity : ℕ) :
    (∀ actions st, (JournalState.new capacity pendingCapacity).run actions = some st →
      ∀ c ∈ st.collectors, c.Told st.ring.capacity st.log ∧
        (c.pc = .idle → c.cursor = max c.created c.loaded) ∧
        c.loaded ≤ st.ring.finalized ∧ st.ring.finalized ≤ st.log.length ∧
        st.ring.offered = st.log.length ∧ ∀ e ∈ st.log, e.isDiscontinuity = false) ∧
      ∀ start batches,
        Forall₂ FrameSnapshot.Accounts ((IntervalSealer.new start).feed batches).2
            ((stretches batches.flatten).1.filter (fun stretch => ¬Vacant stretch)) ∧
          ((IntervalSealer.new start).feed batches).1.Accounts (stretches batches.flatten).2 ∧
          (Timely start (stretches batches.flatten).1 →
            Disjoint ((IntervalSealer.new start).feed batches).2) := by
  constructor
  · intro actions st hrun c hc
    have h := (JournalState.inv_new capacity pendingCapacity).run hrun
    have hs := h.sound c hc
    refine ⟨hs.told, fun hidle => ?_, hs.loaded_le, h.finalized_le, h.offered_eq, h.recorded⟩
    have hknows := hs.knows
    simp only [Collector.Knows, hidle] at hknows
    exact hknows.1
  · intro start batches
    rw [IntervalSealer.feed_eq]
    have hnew : (IntervalSealer.new start).Accounts [] := IntervalSealer.has_new start
    obtain ⟨hsnapshots, hopen⟩ := IntervalSealer.pushEntries_accounts hnew batches.flatten
    exact ⟨hsnapshots, hopen, fun htimely => (IntervalSealer.pushEntries_disjoint htimely).2⟩

lemma timely_action : Timely 0 (stretches [.event (.action ⟨1, 2⟩), .boundary (.idle 3)]).1 :=
  ⟨by simp, by simp [stretches, stretchesFrom],
    by simp [stretches, stretchesFrom, JournalEntry.began, ForegroundEvent.startTime,
      IntervalBoundary.endTime],
    by simp [stretches, stretchesFrom, IntervalBoundary.work]⟩

def overwritingRun : List JournalAction :=
  [.collector, .publish [.event (.action ⟨1, 2⟩), .boundary (.idle 3)]] ++
    List.replicate 15 .write ++ [.collect 0] ++ List.replicate 6 (.read 0)

/-- The first entry is overwritten before the drain, in a ring of one slot. -/
theorem journal_loses_nothing_overwritten :
    (∃ st, (JournalState.new 1 1).run overwritingRun = some st ∧
      st.collectors.map Collector.drained = [[⟨[.discontinuity 1, .boundary (.idle 3)], 1⟩]] ∧
      ∀ c ∈ st.collectors, c.Told st.ring.capacity st.log) ∧
    Timely 0 (stretches [.event (.action ⟨1, 2⟩), .boundary (.idle 3)]).1 ∧
      Disjoint ((IntervalSealer.new 0).feed
        [[.event (.action ⟨1, 2⟩)], [.boundary (.idle 3)]]).2 := by
  refine ⟨?_, timely_action, ?_⟩
  · have hdrained : ((JournalState.new 1 1).run overwritingRun).map
        (fun st => st.collectors.map Collector.drained) =
          some [[⟨[.discontinuity 1, .boundary (.idle 3)], 1⟩]] := by
      decide +kernel
    obtain ⟨st, hrun, hst⟩ := map_eq_some_iff.1 hdrained
    exact ⟨st, hrun, hst, fun c hc => ((journal_loses_nothing 1 1).1 _ st hrun c hc).1⟩
  · exact ((journal_loses_nothing 1 1).2 0 [[.event (.action ⟨1, 2⟩)], [.boundary (.idle 3)]]).2.2
      timely_action

/-- A sealer started after the first boundary seals an interval that ends before it starts. -/
theorem late_sealer_negative :
    Timely 0 (stretches [.event (.action ⟨1, 2⟩), .boundary (.idle 3)]).1 ∧
      ¬Disjoint ((IntervalSealer.new 5).feed
        [[.event (.action ⟨1, 2⟩), .boundary (.idle 3)]]).2 := by
  refine ⟨timely_action, ?_⟩
  rintro ⟨hnonneg, -⟩
  have hsnapshot := hnonneg ⟨5, .idle 3, [.action ⟨1, 2⟩], [], 0, false⟩ (by decide)
  exact absurd hsnapshot (by decide)

end GpuiFast.Journal
