import GpuiFast.Dependencies

/-! Every recording returns what was read while it was open, and as its own what was read outside the
recordings nested in it and the replays into it. -/

namespace GpuiFast

open List Option ReadingApp

section

variable {α : Type*} [LinearOrder α]

variable {l : List α}

variable {x : α}

lemma mem_dedupAdjacent : x ∈ dedupAdjacent l ↔ x ∈ l := by
  induction l using dedupAdjacent.induct with
  | case1 a l ih => simp [dedupAdjacent, ih]
  | case2 a b l h ih => simp only [dedupAdjacent, if_neg h, mem_cons, ih]
  | case3 l h =>
    rw [dedupAdjacent]
    exact h

lemma mem_sortUnique : x ∈ sortUnique l ↔ x ∈ l := by
  rw [sortUnique, mem_dedupAdjacent, mem_insertionSort]

lemma pairwise_dedupAdjacent (h : l.Pairwise (· ≤ ·)) : (dedupAdjacent l).Pairwise (· < ·) := by
  induction l using dedupAdjacent.induct with
  | case1 a l ih =>
    rw [dedupAdjacent, if_pos rfl]
    exact ih (pairwise_cons.mp h).2
  | case2 a b l hab ih =>
    obtain ⟨ha, hrest⟩ := pairwise_cons.mp h
    rw [dedupAdjacent, if_neg hab, pairwise_cons]
    refine ⟨fun x hx => ?_, ih hrest⟩
    have hle : b ≤ x := by
      rcases mem_cons.mp (mem_dedupAdjacent.mp hx) with rfl | hx
      · exact le_refl x
      · exact (pairwise_cons.mp hrest).1 x hx
    exact lt_of_lt_of_le (lt_of_le_of_ne (ha b (by simp)) hab) hle
  | case3 l hl =>
    rw [dedupAdjacent]
    · match l, hl with
      | [], _ => exact Pairwise.nil
      | [a], _ => exact pairwise_singleton _ a
      | a :: b :: l, hl => exact absurd rfl (hl a b l)
    · exact hl

lemma pairwise_sortUnique (l : List α) : (sortUnique l).Pairwise (· < ·) := by
  exact pairwise_dedupAdjacent (pairwise_insertionSort _ l)

end

section

variable {V : Type*} [DecidableEq V]

def firstVersion (states : List (V × UInt64)) (v : V) : Option UInt64 :=
  (states.find? (fun s => s.1 = v)).map Prod.snd

lemma find_uniqueStates (v : V) (states : List (V × UInt64)) :
    ∀ unique : List (V × UInt64),
      (states.foldl (fun unique state => if unique.any (fun u => u.1 = state.1) then unique
        else unique ++ [state]) unique).find? (fun s => s.1 = v) =
      (unique ++ states).find? (fun s => s.1 = v) := by
  induction states with
  | nil => simp
  | cons s states ih =>
    intro unique
    rw [foldl_cons, ih]
    split
    · rename_i hany
      rw [find?_append, find?_append, find?_cons]
      by_cases hs : s.1 = v
      · -- `v` is found among those kept
        obtain ⟨u, hu, hus⟩ := any_eq_true.mp hany
        have hfound : (unique.find? (fun s => s.1 = v)).isSome = true := by
          rw [find?_isSome]
          exact ⟨u, hu, by simpa [hs] using hus⟩
        obtain ⟨w, hw⟩ := isSome_iff_exists.mp hfound
        simp [hw]
      · simp [hs]
    · simp [find?_append]

variable (states : List (V × UInt64))

lemma nodup_uniqueStates :
    ∀ unique : List (V × UInt64), (unique.map Prod.fst).Nodup →
      ((states.foldl (fun unique state => if unique.any (fun u => u.1 = state.1) then unique
        else unique ++ [state]) unique).map Prod.fst).Nodup := by
  induction states with
  | nil => exact fun _ h => h
  | cons s states ih =>
    intro unique h
    rw [foldl_cons]
    refine ih _ ?_
    split
    · exact h
    · rename_i hany
      rw [map_append, nodup_append]
      refine ⟨h, by simp, fun a ha b hb hab => ?_⟩
      obtain ⟨u, hu, rfl⟩ := mem_map.mp ha
      have hb' : b = s.1 := by simpa using hb
      exact hany (any_eq_true.mpr ⟨u, hu, by simp [hab, hb']⟩)

lemma uniqueStates_spec :
    ((uniqueStates states).map Prod.fst).Nodup ∧
      ∀ v n, (v, n) ∈ uniqueStates states ↔ firstVersion states v = some n := by
  have hnodup : ((uniqueStates states).map Prod.fst).Nodup := nodup_uniqueStates states [] (by simp)
  refine ⟨hnodup, fun v n => ?_⟩
  have hfind : (uniqueStates states).find? (fun s => s.1 = v) =
      states.find? (fun s => s.1 = v) := find_uniqueStates v states []
  rw [firstVersion, ← hfind]
  constructor
  · intro hmem
    have hsome : ((uniqueStates states).find? (fun s => s.1 = v)).isSome = true := by
      rw [find?_isSome]
      exact ⟨(v, n), hmem, by simp⟩
    obtain ⟨w, hw⟩ := isSome_iff_exists.mp hsome
    have hwv : w.1 = v := by simpa using find?_some hw
    have hwn : w = (v, n) :=
      inj_on_of_nodup_map hnodup (mem_of_find?_eq_some hw) hmem hwv
    rw [hw, hwn]
    rfl
  · intro h
    obtain ⟨w, hw, rfl⟩ := map_eq_some_iff.mp h
    have hwv : w.1 = v := by simpa using find?_some hw
    subst hwv
    exact mem_of_find?_eq_some hw

end

variable {E G V : Type}

namespace ReadOp

def bracket : ReadOp E G V → Bracket
  | beginRecording => .opened
  | finishRecording => .closed
  | _ => .inside

def entityEvent : ReadOp E G V → LogEvent E
  | beginRecording => .opened
  | finishRecording => .closed
  | access entity | update entity => .read [entity]
  | replay dependencies => .replayed dependencies.entities
  | _ => .read []

def globalEvent : ReadOp E G V → LogEvent G
  | beginRecording => .opened
  | finishRecording => .closed
  | globalRead global => .read [global]
  | replay dependencies => .replayed dependencies.globals
  | _ => .read []

def stateEvent : ReadOp E G V → LogEvent (V × UInt64)
  | beginRecording => .opened
  | finishRecording => .closed
  | stateRead version readAt => .read [(version, readAt)]
  | replay dependencies => .replayed dependencies.states
  | _ => .read []

variable (op : ReadOp E G V)

lemma entityEvent_bracket : op.entityEvent.bracket = op.bracket := by
  cases op <;> rfl

lemma globalEvent_bracket : op.globalEvent.bracket = op.bracket := by
  cases op <;> rfl

lemma stateEvent_bracket : op.stateEvent.bracket = op.bracket := by
  cases op <;> rfl

end ReadOp

structure OpenNotes (E G V : Type) where
  entities : List (Notes E) := []
  globals : List (Notes G) := []
  states : List (Notes (V × UInt64)) := []

def OpenNotes.note (n : OpenNotes E G V) (op : ReadOp E G V) : OpenNotes E G V where
  entities := LogEvent.note n.entities op.entityEvent
  globals := LogEvent.note n.globals op.globalEvent
  states := LogEvent.note n.states op.stateEvent

def frames (start : DependencyRecording → ℕ) (range : LogRanges → ℕ × ℕ)
    (opened : List DependencyRecording) (nested : List (List LogRanges)) : List Frame :=
  zipWith (fun r ranges => ⟨start r, ranges.map range⟩) opened nested

namespace Drawing

structure Keeps (s : Drawing E G V) (n : OpenNotes E G V) : Prop where
  recordings : s.app.access.recordings = s.opened.length
  nested : s.app.nested.length = s.opened.length
  boundary_le : s.app.access.boundary ≤ s.app.access.accessLog.length
  /-- No recording or replay began or ended past the boundary. -/
  boundary : ∀ f ∈ (frames (·.entities) (·.entities) s.opened s.app.nested).head?,
    Within f.start f.nested s.app.access.boundary
  entities : Attributed SameMembers s.app.access.accessLog s.app.access.accessLog.length
    (frames (·.entities) (·.entities) s.opened s.app.nested) n.entities
  globals : Attributed Eq s.app.globalReadLog s.app.globalReadLog.length
    (frames (·.globals) (·.globals) s.opened s.app.nested) n.globals
  states : Attributed Eq s.app.stateReadLog s.app.stateReadLog.length
    (frames (·.states) (·.states) s.opened s.app.nested) n.states

lemma Keeps.init : Keeps ({} : Drawing E G V) {} :=
  ⟨rfl, rfl, Nat.le_refl _, by simp [frames], trivial, trivial, trivial⟩

variable {s : Drawing E G V}

variable {s' : Drawing E G V} (ops : List (ReadOp E G V))

lemma Keeps.congr {n : OpenNotes E G V} (h : Keeps s n)
    (hlog : s'.app.access.accessLog = s.app.access.accessLog)
    (hboundary : s'.app.access.boundary = s.app.access.boundary)
    (hrecordings : s'.app.access.recordings = s.app.access.recordings)
    (hglobals : s'.app.globalReadLog = s.app.globalReadLog)
    (hstates : s'.app.stateReadLog = s.app.stateReadLog) (hnested : s'.app.nested = s.app.nested)
    (hopened : s'.opened = s.opened) : Keeps s' n := by
  obtain ⟨h₁, h₂, h₃, h₄, h₅, h₆, h₇⟩ := h
  refine ⟨?_, ?_, ?_, ?_, ?_, ?_, ?_⟩
  · rw [hrecordings, hopened, h₁]
  · rw [hnested, hopened, h₂]
  · rw [hboundary, hlog]
    exact h₃
  · rw [hnested, hopened, hboundary]
    exact h₄
  · rw [hnested, hopened, hlog]
    exact h₅
  · rw [hnested, hopened, hglobals]
    exact h₆
  · rw [hnested, hopened, hstates]
    exact h₇

section Steps

variable {s : Drawing E G V} {n : OpenNotes E G V}

lemma Keeps.isRecording (h : Keeps s n) : s.app.access.isRecording = !s.opened.isEmpty := by
  rw [EntityAccessLog.isRecording, h.recordings]
  cases s.opened <;> simp

lemma Keeps.closed_nested (h : Keeps s n) (hopened : s.opened = []) : s.app.nested = [] :=
  length_eq_zero_iff.mp (by rw [h.nested, hopened]; rfl)

variable {r : DependencyRecording} {opened : List DependencyRecording}

lemma Keeps.opened_nested (h : Keeps s n) (hopened : s.opened = r :: opened) :
    ∃ rs nested, s.app.nested = rs :: nested ∧ nested.length = opened.length := by
  have hlen := h.nested
  rw [hopened] at hlen
  cases hn : s.app.nested with
  | nil => simp [hn] at hlen
  | cons rs nested => exact ⟨rs, nested, rfl, by simpa [hn] using hlen⟩

lemma Keeps.begun (h : Keeps s n) :
    Keeps ⟨(s.app.beginRecordingDependencies).1,
      (s.app.beginRecordingDependencies).2 :: s.opened⟩ (n.note .beginRecording) where
  recordings := by
    change s.app.access.recordings + 1 = _
    rw [h.recordings]
    rfl
  nested := by
    change s.app.nested.length + 1 = _
    rw [h.nested]
    rfl
  boundary_le := Nat.le_refl _
  boundary := by
    intro f hf
    obtain rfl : _ = f := by simpa [frames, beginRecordingDependencies] using hf
    exact Nat.le_refl _
  entities := Attributed.opened (fun _ => Iff.rfl) h.entities
  globals := Attributed.opened rfl h.globals
  states := Attributed.opened rfl h.states

variable [LinearOrder E] [LinearOrder G] [DecidableEq V]

lemma Keeps.finished (h : Keeps s n) (hopened : s.opened = r :: opened) :
    Keeps ⟨(s.app.finishRecordingDependencies r).1, opened⟩ (n.note .finishRecording) := by
  obtain ⟨rs, nested, hnested, hlen⟩ := h.opened_nested hopened
  have hrec := h.recordings
  have hent := h.entities
  have hglob := h.globals
  have hst := h.states
  rw [hopened, length_cons] at hrec
  rw [hopened, hnested] at hent hglob hst
  have hopen : (s.app.access.closeRecording).isRecording = !opened.isEmpty := by
    change decide (s.app.access.recordings - 1 > 0) = _
    rw [hrec]
    cases opened <;> simp
  cases opened with
  | nil =>
    obtain rfl := length_eq_zero_iff.mp hlen
    have hclosed : (s.app.finishRecordingDependencies r).1.nested = [] := by
      simp [finishRecordingDependencies, hnested, pushNested]
    obtain ⟨e, es, he⟩ := hent.notes_cons
    obtain ⟨g, gs, hg⟩ := hglob.notes_cons
    obtain ⟨v, vs, hv⟩ := hst.notes_cons
    rw [he] at hent
    rw [hg] at hglob
    rw [hv] at hst
    obtain rfl := hent.2.2.2.notes_nil
    obtain rfl := hglob.2.2.2.notes_nil
    obtain rfl := hst.2.2.2.notes_nil
    refine ⟨?_, ?_, Nat.le_refl _, ?_, ?_, ?_, ?_⟩
    · change s.app.access.recordings - 1 = _
      rw [hrec]
      rfl
    · rw [hclosed]
      rfl
    · simp [frames]
    · rw [hclosed]
      simp [OpenNotes.note, ReadOp.entityEvent, LogEvent.note, he, frames, Attributed]
    · rw [hclosed]
      simp [OpenNotes.note, ReadOp.globalEvent, LogEvent.note, hg, frames, Attributed]
    · rw [hclosed]
      simp [OpenNotes.note, ReadOp.stateEvent, LogEvent.note, hv, frames, Attributed]
  | cons r' opened =>
    obtain ⟨rs', nested, rfl⟩ : ∃ rs' nested', nested = rs' :: nested' := by
      cases nested with
      | nil => simp at hlen
      | cons rs' nested => exact ⟨rs', nested, rfl⟩
    obtain ⟨e, es, he⟩ := hent.notes_cons
    obtain ⟨g, gs, hg⟩ := hglob.notes_cons
    obtain ⟨v, vs, hv⟩ := hst.notes_cons
    rw [he] at hent
    rw [hg] at hglob
    rw [hv] at hst
    have hlog : (s.app.finishRecordingDependencies r).1.access.accessLog =
        s.app.access.accessLog := by
      change (if s.app.access.recordings - 1 = 0 then [] else s.app.access.accessLog) = _
      rw [hrec, if_neg (by simp)]
    have hglobals : (s.app.finishRecordingDependencies r).1.globalReadLog = s.app.globalReadLog := by
      change (if (s.app.access.closeRecording).isRecording then s.app.globalReadLog else []) = _
      rw [hopen, if_pos (by simp)]
    have hstates : (s.app.finishRecordingDependencies r).1.stateReadLog = s.app.stateReadLog := by
      change (if (s.app.access.closeRecording).isRecording then s.app.stateReadLog else []) = _
      rw [hopen, if_pos (by simp)]
    have hranges : (s.app.finishRecordingDependencies r).1.nested =
        (rs' ++ [⟨(r.entities, s.app.access.accessLog.length),
          (r.globals, s.app.globalReadLog.length), (r.states, s.app.stateReadLog.length)⟩]) ::
            nested := by
      simp [finishRecordingDependencies, hnested, pushNested]
    have hboundary : (s.app.finishRecordingDependencies r).1.access.boundary =
        s.app.access.accessLog.length := by
      rw [← hlog]
      rfl
    have hent' := hent.closed
    refine ⟨?_, ?_, ?_, ?_, ?_, ?_, ?_⟩
    · change s.app.access.recordings - 1 = _
      rw [hrec]
      rfl
    · rw [hranges]
      simpa using hlen
    · rw [hboundary, hlog]
    · intro f hf
      rw [hranges] at hf
      obtain rfl : _ = f := by simpa [frames] using hf
      rw [hboundary]
      simpa using hent'.within
    · rw [hranges, hlog]
      simpa [OpenNotes.note, ReadOp.entityEvent, LogEvent.note, he, frames] using hent'
    · rw [hranges, hglobals]
      simpa [OpenNotes.note, ReadOp.globalEvent, LogEvent.note, hg, frames] using hglob.closed
    · rw [hranges, hstates]
      simpa [OpenNotes.note, ReadOp.stateEvent, LogEvent.note, hv, frames] using hst.closed

variable (log : EntityAccessLog E) (e : E)

lemma noteAccess_fields :
    (log.noteAccess e).boundary = log.boundary ∧ (log.noteAccess e).recordings = log.recordings := by
  rw [EntityAccessLog.noteAccess]
  split_ifs <;> exact ⟨rfl, rfl⟩

omit [LinearOrder G] [DecidableEq V] in
lemma Keeps.accessed (h : Keeps s n) (e : E) :
    Attributed SameMembers (s.app.access.noteAccess e).accessLog
      (s.app.access.noteAccess e).accessLog.length
      (frames (·.entities) (·.entities) s.opened s.app.nested)
      (LogEvent.note n.entities (.read [e])) ∧
    s.app.access.accessLog.length ≤ (s.app.access.noteAccess e).accessLog.length := by
  have hent := h.entities
  have hlogged := Attributed.logged sameMembers_append [e] hent
  rw [EntityAccessLog.noteAccess, h.isRecording]
  cases hopened : s.opened with
  | nil =>
    rw [hopened] at hent hlogged
    exact ⟨hlogged, Nat.le_refl _⟩
  | cons r opened =>
    obtain ⟨rs, nested, hnested, -⟩ := h.opened_nested hopened
    have hbound := h.boundary
    rw [hopened, hnested] at hent hlogged hbound
    rw [if_pos (by simp), hnested]
    split
    · rename_i hrepeat
      simp only [Bool.and_eq_true, decide_eq_true_eq] at hrepeat
      obtain ⟨m, rest, hm⟩ := hent.notes_cons
      rw [hm] at hent ⊢
      exact ⟨hent.repeated (hbound _ rfl) hrepeat.1 hrepeat.2, Nat.le_refl _⟩
    · exact ⟨hlogged, by simp⟩

lemma stampUpdate_fields :
    (log.stampUpdate e).accessLog = log.accessLog ∧ (log.stampUpdate e).boundary = log.boundary ∧
      (log.stampUpdate e).recordings = log.recordings := by
  rw [EntityAccessLog.stampUpdate]
  split_ifs <;> exact ⟨rfl, rfl, rfl⟩

lemma noteUpdate_fields :
    (log.noteUpdate e).accessLog = (log.noteAccess e).accessLog ∧
      (log.noteUpdate e).boundary = log.boundary ∧
      (log.noteUpdate e).recordings = log.recordings := by
  obtain ⟨hb, hr⟩ := noteAccess_fields log e
  rw [EntityAccessLog.noteUpdate]
  split
  · dsimp only
    split
    · exact ⟨rfl, hb, hr⟩
    · obtain ⟨h₁, h₂, h₃⟩ := stampUpdate_fields { log.noteAccess e with rendering := none } e
      exact ⟨h₁, h₂.trans hb, h₃.trans hr⟩
  · obtain ⟨h₁, h₂, h₃⟩ := stampUpdate_fields (log.noteAccess e) e
    exact ⟨h₁, h₂.trans hb, h₃.trans hr⟩

lemma noteNotify_fields :
    (log.noteNotify e).accessLog = log.accessLog ∧ (log.noteNotify e).boundary = log.boundary ∧
      (log.noteNotify e).recordings = log.recordings := by
  rw [EntityAccessLog.noteNotify]
  split_ifs <;> exact ⟨rfl, rfl, rfl⟩

omit [LinearOrder G] [DecidableEq V] in
lemma Keeps.modifyAccess (h : Keeps s n) (e : E) {f : EntityAccessLog E → EntityAccessLog E}
    (hf : (f s.app.access).accessLog = (s.app.access.noteAccess e).accessLog ∧
      (f s.app.access).boundary = s.app.access.boundary ∧
      (f s.app.access).recordings = s.app.access.recordings) :
    Keeps (s.modifyAccess f) ⟨LogEvent.note n.entities (.read [e]), n.globals, n.states⟩ := by
  obtain ⟨hlog, hboundary, hrecordings⟩ := hf
  obtain ⟨hent, hle⟩ := h.accessed e
  refine ⟨hrecordings.trans h.recordings, h.nested, ?_, ?_, ?_, h.globals, h.states⟩
  · change (f s.app.access).boundary ≤ (f s.app.access).accessLog.length
    rw [hboundary, hlog]
    exact h.boundary_le.trans hle
  · change ∀ g ∈ _, Within _ _ (f s.app.access).boundary
    rw [hboundary]
    exact h.boundary
  · change Attributed SameMembers (f s.app.access).accessLog (f s.app.access).accessLog.length _ _
    rw [hlog]
    exact hent

omit [LinearOrder E] [LinearOrder G] [DecidableEq V] in
lemma frames_isEmpty {start : DependencyRecording → ℕ} {range : LogRanges → ℕ × ℕ}
    (h : Keeps s n) : (frames start range s.opened s.app.nested).isEmpty = s.opened.isEmpty := by
  cases hopened : s.opened with
  | nil => rfl
  | cons r opened =>
    obtain ⟨rs, nested, hnested, -⟩ := h.opened_nested hopened
    rw [hnested]
    rfl

omit [LinearOrder E] [LinearOrder G] [DecidableEq V] in
lemma Keeps.globalRead (h : Keeps s n) (g : G) :
    Keeps { s with app := s.app.noteGlobalRead g }
      ⟨n.entities, LogEvent.note n.globals (.read [g]), n.states⟩ := by
  have hlogged := h.globals.logged append_eq [g]
  rw [frames_isEmpty h] at hlogged
  rw [noteGlobalRead, h.isRecording]
  cases hopened : s.opened.isEmpty with
  | true =>
    rw [hopened] at hlogged
    exact ⟨h.recordings, h.nested, h.boundary_le, h.boundary, h.entities, hlogged, h.states⟩
  | false =>
    rw [hopened] at hlogged
    exact ⟨h.recordings, h.nested, h.boundary_le, h.boundary, h.entities, hlogged, h.states⟩

omit [LinearOrder E] [LinearOrder G] [DecidableEq V] in
lemma Keeps.stateRead (h : Keeps s n) (v : V) :
    Keeps { s with app := s.app.noteStateRead v }
      ⟨n.entities, n.globals, LogEvent.note n.states (.read [(v, s.app.versions v)])⟩ := by
  have hlogged := h.states.logged append_eq [(v, s.app.versions v)]
  rw [frames_isEmpty h] at hlogged
  rw [noteStateRead, h.isRecording]
  cases hopened : s.opened.isEmpty with
  | true =>
    rw [hopened] at hlogged
    exact ⟨h.recordings, h.nested, h.boundary_le, h.boundary, h.entities, h.globals, hlogged⟩
  | false =>
    rw [hopened] at hlogged
    exact ⟨h.recordings, h.nested, h.boundary_le, h.boundary, h.entities, h.globals, hlogged⟩

omit [LinearOrder E] [LinearOrder G] [DecidableEq V] in
lemma Keeps.replayed (h : Keeps s n) (d : RenderDependencies E G V) :
    Keeps { s with app := s.app.replayDependencies d } (n.note (.replay d)) := by
  have hrec := h.isRecording
  cases hopened : s.opened with
  | nil =>
    rw [hopened] at hrec
    have hnested := h.closed_nested hopened
    have hent := h.entities
    have hglob := h.globals
    have hst := h.states
    rw [hopened] at hent hglob hst
    have hne := hent.notes_nil
    have hng := hglob.notes_nil
    have hns := hst.notes_nil
    have happ : s.app.replayDependencies d =
        { s.app with access := s.app.access.markAccessBoundary } := by
      have hclosed : (s.app.access.markAccessBoundary).isRecording = false := hrec
      have hext : s.app.access.markAccessBoundary.extendAccessedRecorded d.entities =
          s.app.access.markAccessBoundary := if_neg (by rw [hclosed]; simp)
      have hclosed' : (s.app.access.markAccessBoundary.markAccessBoundary).isRecording = false :=
        hrec
      rw [replayDependencies, hext, hclosed', if_neg (by simp)]
      rfl
    rw [happ]
    refine ⟨?_, ?_, Nat.le_refl _, ?_, ?_, ?_, ?_⟩
    · change s.app.access.recordings = _
      rw [h.recordings, hopened]
    · change s.app.nested.length = _
      rw [hnested]
      rfl
    · simp [frames]
    · rw [OpenNotes.note, hne]
      exact trivial
    · rw [OpenNotes.note, hng]
      exact trivial
    · rw [OpenNotes.note, hns]
      exact trivial
  | cons r opened =>
    obtain ⟨rs, nested, hnested, hlen⟩ := h.opened_nested hopened
    have hent := h.entities
    have hglob := h.globals
    have hst := h.states
    rw [hopened, hnested] at hent hglob hst
    rw [hopened] at hrec
    obtain ⟨e, es, he⟩ := hent.notes_cons
    obtain ⟨g, gs, hg⟩ := hglob.notes_cons
    obtain ⟨v, vs, hv⟩ := hst.notes_cons
    rw [he] at hent
    rw [hg] at hglob
    rw [hv] at hst
    have happ : s.app.replayDependencies d =
        { s.app with
          access :=
            { s.app.access with
              accessLog := s.app.access.accessLog ++ d.entities
              boundary := (s.app.access.accessLog ++ d.entities).length }
          globalReadLog := s.app.globalReadLog ++ d.globals
          stateReadLog := s.app.stateReadLog ++ d.states
          nested := (rs ++ [⟨(s.app.access.accessLog.length,
            (s.app.access.accessLog ++ d.entities).length),
            (s.app.globalReadLog.length, (s.app.globalReadLog ++ d.globals).length),
            (s.app.stateReadLog.length, (s.app.stateReadLog ++ d.states).length)⟩]) :: nested } := by
      rw [replayDependencies, EntityAccessLog.extendAccessedRecorded]
      have hrec' : (s.app.access.markAccessBoundary).isRecording = true := hrec
      rw [hrec', if_pos rfl]
      simp only [EntityAccessLog.markAccessBoundary, EntityAccessLog.isRecording, hnested,
        pushNested]
      rw [if_pos (by simpa [EntityAccessLog.isRecording] using hrec)]
    have hent' := Attributed.replayed sameMembers_append d.entities hent
    have hglob' := Attributed.replayed append_eq d.globals hglob
    have hst' := Attributed.replayed append_eq d.states hst
    rw [happ]
    refine ⟨?_, ?_, Nat.le_refl _, ?_, ?_, ?_, ?_⟩
    · change s.app.access.recordings = _
      rw [h.recordings, hopened]
    · simpa using hlen
    · intro f hf
      obtain rfl : _ = f := by simpa [frames] using hf
      simpa using hent'.within
    · simpa [OpenNotes.note, ReadOp.entityEvent, LogEvent.note, he, frames] using hent'
    · simpa [OpenNotes.note, ReadOp.globalEvent, LogEvent.note, hg, frames] using hglob'
    · simpa [OpenNotes.note, ReadOp.stateEvent, LogEvent.note, hv, frames] using hst'

lemma Keeps.step {s' : Drawing E G V} {r : Option (RecordedDependencies E G V)}
    {op : ReadOp E G V} (h : Keeps s n) (hstep : s.step op = some (s', r)) :
    Keeps s' (n.note op) := by
  have hsame : ∀ op' : ReadOp E G V, op'.entityEvent = .read [] → op'.globalEvent = .read [] →
      op'.stateEvent = .read [] → n.note op' = n := by
    intro op' he hg hs
    rw [OpenNotes.note, he, hg, hs, LogEvent.note_read_nil, LogEvent.note_read_nil,
      LogEvent.note_read_nil]
  cases op with
  | beginRecording =>
    obtain ⟨rfl, -⟩ := Prod.mk.inj (some.inj hstep)
    exact h.begun
  | finishRecording =>
    rw [Drawing.step] at hstep
    split at hstep
    · exact absurd hstep (by simp)
    · rename_i hopened
      obtain ⟨rfl, -⟩ := Prod.mk.inj (some.inj hstep)
      exact h.finished hopened
  | access e =>
    obtain ⟨rfl, -⟩ := Prod.mk.inj (some.inj hstep)
    have hkeeps : Keeps (s.modifyAccess (·.noteAccess e)) _ :=
      h.modifyAccess e ⟨rfl, noteAccess_fields s.app.access e⟩
    simpa [OpenNotes.note, ReadOp.entityEvent, ReadOp.globalEvent, ReadOp.stateEvent,
      LogEvent.note_read_nil] using hkeeps
  | update e =>
    obtain ⟨rfl, -⟩ := Prod.mk.inj (some.inj hstep)
    have hkeeps : Keeps (s.modifyAccess (·.noteUpdate e)) _ :=
      h.modifyAccess e (noteUpdate_fields s.app.access e)
    simpa [OpenNotes.note, ReadOp.entityEvent, ReadOp.globalEvent, ReadOp.stateEvent,
      LogEvent.note_read_nil] using hkeeps
  | notify e =>
    obtain ⟨rfl, -⟩ := Prod.mk.inj (some.inj hstep)
    obtain ⟨h₁, h₂, h₃⟩ := noteNotify_fields s.app.access e
    rw [hsame _ rfl rfl rfl]
    exact h.congr h₁ h₂ h₃ rfl rfl rfl rfl
  | renderNext e | setQueried e | forget e | globalChanged e | bump e =>
    obtain ⟨rfl, -⟩ := Prod.mk.inj (some.inj hstep)
    rw [hsame _ rfl rfl rfl]
    exact h.congr rfl rfl rfl rfl rfl rfl rfl
  | globalRead g =>
    obtain ⟨rfl, -⟩ := Prod.mk.inj (some.inj hstep)
    simpa [OpenNotes.note, ReadOp.entityEvent, ReadOp.globalEvent, ReadOp.stateEvent,
      LogEvent.note_read_nil] using h.globalRead g
  | stateRead v readAt =>
    rw [Drawing.step] at hstep
    split at hstep
    · rename_i hread
      obtain ⟨rfl, -⟩ := Prod.mk.inj (some.inj hstep)
      simpa [OpenNotes.note, ReadOp.entityEvent, ReadOp.globalEvent, ReadOp.stateEvent,
        LogEvent.note_read_nil, hread] using h.stateRead v
    · exact absurd hstep (by simp)
  | replay d =>
    obtain ⟨rfl, -⟩ := Prod.mk.inj (some.inj hstep)
    exact h.replayed d

lemma Keeps.run (ops : List (ReadOp E G V)) :
    ∀ {s s' : Drawing E G V} {n : OpenNotes E G V} {rs : List (RecordedDependencies E G V)},
      Keeps s n → s.run ops = some (s', rs) → Keeps s' (ops.foldl OpenNotes.note n) := by
  induction ops with
  | nil =>
    intro s s' n rs h hrun
    obtain ⟨rfl, -⟩ := Prod.mk.inj (some.inj hrun)
    exact h
  | cons op ops ih =>
    intro s s' n rs h hrun
    rw [Drawing.run] at hrun
    obtain ⟨⟨s₁, r⟩, hstep, hrest⟩ := bind_eq_some_iff.mp hrun
    obtain ⟨⟨s₂, rs'⟩, hrun', hend⟩ := bind_eq_some_iff.mp hrest
    obtain ⟨rfl, -⟩ := Prod.mk.inj (some.inj hend)
    exact ih (h.step hstep) hrun'

end Steps

lemma foldl_note_fields :
    ∀ n : OpenNotes E G V, ops.foldl OpenNotes.note n =
      ⟨(ops.map ReadOp.entityEvent).foldl LogEvent.note n.entities,
        (ops.map ReadOp.globalEvent).foldl LogEvent.note n.globals,
        (ops.map ReadOp.stateEvent).foldl LogEvent.note n.states⟩ := by
  induction ops with
  | nil => exact fun _ => rfl
  | cons op ops ih => exact fun n => ih (n.note op)

variable [LinearOrder E] [LinearOrder G] [DecidableEq V]

/-- A set of dependencies names exactly these entities and globals, and each of these states once
with the version it was first read at. -/
structure Names (d : RenderDependencies E G V) (entities : List E) (globals : List G)
    (states : List (V × UInt64)) : Prop where
  entities : ∀ e, e ∈ d.entities ↔ e ∈ entities
  entities_sorted : d.entities.Pairwise (· < ·)
  globals : ∀ g, g ∈ d.globals ↔ g ∈ globals
  globals_sorted : d.globals.Pairwise (· < ·)
  states_once : (d.states.map Prod.fst).Nodup
  states : ∀ v n, (v, n) ∈ d.states ↔ firstVersion states v = some n

lemma Keeps.returned {e : Notes E} {es : List (Notes E)} {g : Notes G} {gs : List (Notes G)}
    {v : Notes (V × UInt64)} {vs : List (Notes (V × UInt64))} {r : DependencyRecording}
    {opened : List DependencyRecording} (h : Keeps s ⟨e :: es, g :: gs, v :: vs⟩)
    (hopened : s.opened = r :: opened) :
    Names (s.app.finishRecordingDependencies r).2.all e.all g.all v.all ∧
      Names (s.app.finishRecordingDependencies r).2.own e.own g.own v.own := by
  obtain ⟨rs, nested, hnested, -⟩ := h.opened_nested hopened
  have hent := h.entities
  have hglob := h.globals
  have hst := h.states
  rw [hopened, hnested] at hent hglob hst
  obtain ⟨-, heall, heown, -⟩ := hent
  obtain ⟨-, hgall, hgown, -⟩ := hglob
  obtain ⟨-, hvall, hvown, -⟩ := hst
  have hhead : s.app.nested.head?.getD [] = rs := by
    rw [hnested]
    rfl
  constructor
  · refine ⟨fun x => ?_, pairwise_sortUnique _, fun x => ?_, pairwise_sortUnique _,
      (uniqueStates_spec _).1, ?_⟩
    · rw [← heall x]
      change x ∈ sortUnique (slice _ _ _) ↔ _
      rw [mem_sortUnique, slice_length]
    · rw [← hgall]
      change x ∈ sortUnique (slice _ _ _) ↔ _
      rw [mem_sortUnique, slice_length]
    · rw [← hvall]
      change ∀ v n, (v, n) ∈ uniqueStates (slice _ _ _) ↔ _
      rw [slice_length]
      exact (uniqueStates_spec _).2
  · refine ⟨fun x => ?_, pairwise_sortUnique _, fun x => ?_, pairwise_sortUnique _,
      (uniqueStates_spec _).1, ?_⟩
    · rw [← heown x]
      change x ∈ sortUnique (outside _ _ _ ((s.app.nested.head?.getD []).map _)) ↔ _
      rw [mem_sortUnique, hhead]
    · rw [← hgown]
      change x ∈ sortUnique (outside _ _ _ ((s.app.nested.head?.getD []).map _)) ↔ _
      rw [mem_sortUnique, hhead]
    · rw [← hvown]
      change ∀ v n, (v, n) ∈ uniqueStates (outside _ _ _ ((s.app.nested.head?.getD []).map _)) ↔ _
      rw [hhead]
      exact (uniqueStates_spec _).2

lemma run_append (ops' : List (ReadOp E G V)) :
    ∀ {s s' : Drawing E G V} {rs : List (RecordedDependencies E G V)},
      s.run (ops ++ ops') = some (s', rs) → ∃ s₁ rs₁ rs₂, s.run ops = some (s₁, rs₁) ∧
        s₁.run ops' = some (s', rs₂) ∧ rs = rs₁ ++ rs₂ := by
  induction ops with
  | nil =>
    intro s s' rs h
    exact ⟨s, [], rs, rfl, h, rfl⟩
  | cons op ops ih =>
    intro s s' rs h
    rw [cons_append, run] at h
    obtain ⟨⟨s₁, r⟩, hstep, hrest⟩ := bind_eq_some_iff.mp h
    obtain ⟨⟨s₂, rs'⟩, hrun, hend⟩ := bind_eq_some_iff.mp hrest
    obtain ⟨rfl, rfl⟩ := Prod.mk.inj (some.inj hend)
    obtain ⟨s₃, rs₁, rs₂, h₁, h₂, rfl⟩ := ih hrun
    refine ⟨s₃, r.toList ++ rs₁, rs₂, ?_, h₂, by simp⟩
    rw [run, hstep]
    change (s₁.run ops).bind _ = _
    rw [h₁]
    rfl

lemma run_finish {rs : List (RecordedDependencies E G V)}
    (h : s.run [.finishRecording] = some (s', rs)) :
    ∃ r opened, s.opened = r :: opened ∧ rs = [(s.app.finishRecordingDependencies r).2] := by
  rw [run] at h
  obtain ⟨⟨s₁, r⟩, hstep, hrest⟩ := bind_eq_some_iff.mp h
  obtain ⟨-, rfl⟩ := Prod.mk.inj (some.inj hrest)
  rw [step] at hstep
  split at hstep
  · exact absurd hstep (by simp)
  · rename_i r' opened hopened
    obtain ⟨-, rfl⟩ := Prod.mk.inj (some.inj hstep)
    exact ⟨r', opened, hopened, rfl⟩

/-- What a recording returns in any run: all that was read or replayed while it was open, and as
its own what was read outside the recordings nested in it and the replays into it. -/
theorem recorded_reads {ops body : List (ReadOp E G V)} {s s' : Drawing E G V}
    {earlier rs : List (RecordedDependencies E G V)}
    (hrun : ({} : Drawing E G V).run ops = some (s, earlier))
    (hbody : Bracket.depth 0 (body.map ReadOp.bracket) = some 0)
    (hrecord : s.run (.beginRecording :: body ++ [.finishRecording]) = some (s', rs)) :
    ∃ inner r, rs = inner ++ [r] ∧
      Names r.all (LogEvent.allReads (body.map ReadOp.entityEvent))
        (LogEvent.allReads (body.map ReadOp.globalEvent))
        (LogEvent.allReads (body.map ReadOp.stateEvent)) ∧
      Names r.own (LogEvent.ownReads 0 (body.map ReadOp.entityEvent))
        (LogEvent.ownReads 0 (body.map ReadOp.globalEvent))
        (LogEvent.ownReads 0 (body.map ReadOp.stateEvent)) := by
  have hkeeps := Keeps.init.run ops hrun
  obtain ⟨s₁, inner, last, hopen, hfinish, rfl⟩ := run_append _ _ hrecord
  obtain ⟨r, opened, hopened, rfl⟩ := run_finish hfinish
  refine ⟨inner, _, rfl, ?_⟩
  have hkeeps₁ := hkeeps.run _ hopen
  rw [foldl_cons, foldl_note_fields] at hkeeps₁
  -- the three logs run through the same brackets
  have hdepth : ∀ {α : Type} (event : ReadOp E G V → LogEvent α),
      (∀ op, (event op).bracket = op.bracket) → ∀ ns : List (Notes α),
      (body.map event).foldl LogEvent.note (.empty :: ns) =
        ⟨LogEvent.allReads (body.map event), LogEvent.ownReads 0 (body.map event)⟩ ::
          ns.map (Notes.readNested (LogEvent.allReads (body.map event))) := by
    intro α event hevent ns
    have hbrackets : (body.map event).map LogEvent.bracket = body.map ReadOp.bracket := by
      rw [List.map_map]
      exact map_congr_left (fun op _ => hevent op)
    obtain ⟨pre', hlen, hfold⟩ := @LogEvent.foldl_note _ (body.map event) [] ns .empty 0
      (by rw [hbrackets]; exact hbody)
    obtain rfl := length_eq_zero_iff.mp hlen
    simpa [Notes.empty] using hfold
  set n := ops.foldl OpenNotes.note {}
  change Keeps s₁ ⟨(body.map ReadOp.entityEvent).foldl LogEvent.note (.empty :: n.entities),
    (body.map ReadOp.globalEvent).foldl LogEvent.note (.empty :: n.globals),
    (body.map ReadOp.stateEvent).foldl LogEvent.note (.empty :: n.states)⟩ at hkeeps₁
  rw [hdepth _ ReadOp.entityEvent_bracket, hdepth _ ReadOp.globalEvent_bracket,
    hdepth _ ReadOp.stateEvent_bracket] at hkeeps₁
  exact hkeeps₁.returned hopened

/-- An entity read before and inside a nested recording. -/
theorem recorded_reads_nested :
    ∃ inner r s', ({} : Drawing ℕ ℕ ℕ).run [.beginRecording, .access 1, .stateRead 5 0,
        .beginRecording, .access 1, .access 2, .globalRead 7, .finishRecording, .bump 5,
        .stateRead 5 1, .finishRecording] = some (s', inner ++ [r]) ∧
      Names r.all [1, 1, 2] [7] [(5, 0), (5, 1)] ∧ Names r.own [1] [] [(5, 0), (5, 1)] := by
  obtain ⟨inner, r, hrs, hall, hown⟩ := @recorded_reads ℕ ℕ ℕ _ _ _ []
    [.access 1, .stateRead 5 0, .beginRecording, .access 1, .access 2, .globalRead 7,
      .finishRecording, .bump 5, .stateRead 5 1] _ _ _ _ rfl rfl rfl
  exact ⟨inner, r, _, congrArg (fun rs => some (_, rs)) hrs, hall, hown⟩

end Drawing

end GpuiFast
