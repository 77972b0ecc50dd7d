import Mathlib.Data.List.Basic

/-! One log is appended to while any number of nested recordings are open. A recording knows where in
the log it began and which stretches came from recordings nested in it. What a recording would have
noted for itself, all that was read while it was open and what was read outside the recordings
nested in it, is found in the log again. -/

namespace GpuiFast

open List

variable {α : Type*}

def slice (log : List α) (start stop : ℕ) : List α := (log.take stop).drop start

/-- The entries of `log` up to `stop` that fall outside every range nested, from a cursor on. -/
def outside (log : List α) (stop : ℕ) : (cursor : ℕ) → List (ℕ × ℕ) → List α
  | cursor, [] => if stop > cursor then slice log cursor stop else []
  | cursor, nested :: rest =>
    (if nested.1 > cursor then slice log cursor nested.1 else []) ++
      outside log stop (max cursor nested.2) rest

/-- Ranges one after the other between two places. -/
def Within : ℕ → List (ℕ × ℕ) → ℕ → Prop
  | cursor, [], limit => cursor ≤ limit
  | cursor, nested :: rest, limit => cursor ≤ nested.1 ∧ nested.1 ≤ nested.2 ∧ Within nested.2 rest limit

variable {log : List α} {start stop : ℕ} {more : List α} {cursor limit : ℕ} {rs : List (ℕ × ℕ)}

lemma slice_of_le (h : stop ≤ start) : slice log start stop = [] := by
  rw [slice, drop_eq_nil_iff, length_take]
  omega

lemma slice_if : (if stop > start then slice log start stop else []) = slice log start stop := by
  split
  · rfl
  · rw [slice_of_le (by omega)]

lemma slice_length : slice log start log.length = log.drop start := by
  rw [slice, take_length]

lemma slice_append (h : stop ≤ log.length) :
    slice (log ++ more) start stop = slice log start stop := by
  rw [slice, slice, take_append_of_le_length h]

lemma slice_append_slice {a b c : ℕ} (hab : a ≤ b) (hbc : b ≤ c) (hc : c ≤ log.length) :
    slice log a b ++ slice log b c = slice log a c := by
  have hsplit := take_append_drop b (log.take c)
  rw [take_take, Nat.min_eq_left hbc] at hsplit
  have hlength : (log.take b).length = b := by
    rw [length_take, Nat.min_eq_left (Nat.le_trans hbc hc)]
  calc slice log a b ++ slice log b c
      = (log.take b ++ slice log b c).drop a := by
        rw [drop_append_of_le_length (by omega)]
        rfl
    _ = slice log a c := by rw [slice, slice, hsplit]

lemma slice_stretch (front log back : List α) :
    slice (front ++ log ++ back) front.length (front.length + log.length) = log := by
  rw [slice, ← length_append, take_left, drop_left]

lemma Within.le (h : Within cursor rs limit) : cursor ≤ limit := by
  induction rs generalizing cursor with
  | nil => exact h
  | cons r rs ih => exact Nat.le_trans h.1 (Nat.le_trans h.2.1 (ih h.2.2))

lemma Within.mono {limit' : ℕ} (h : Within cursor rs limit) (hle : limit ≤ limit') :
    Within cursor rs limit' := by
  induction rs generalizing cursor with
  | nil => exact Nat.le_trans h hle
  | cons r rs ih => exact ⟨h.1, h.2.1, ih h.2.2⟩

lemma Within.concat (h : Within cursor rs limit) (hle : limit ≤ stop) :
    Within cursor (rs ++ [(limit, stop)]) stop := by
  induction rs generalizing cursor with
  | nil => exact ⟨h, hle, Nat.le_refl stop⟩
  | cons r rs ih => exact ⟨h.1, h.2.1, ih h.2.2⟩

lemma outside_grow (h : Within cursor rs stop) (hstop : stop ≤ log.length) :
    outside (log ++ more) stop cursor rs = outside log stop cursor rs := by
  induction rs generalizing cursor with
  | nil => rw [outside, outside, slice_append hstop]
  | cons r rs ih =>
    have hr : r.1 ≤ r.2 := h.2.1
    have hle := h.2.2.le
    rw [outside, outside, Nat.max_eq_right (Nat.le_trans h.1 h.2.1), ih h.2.2, slice_append (by omega)]

lemma outside_append (h : Within cursor rs log.length) :
    outside (log ++ more) (log ++ more).length cursor rs =
      outside log log.length cursor rs ++ more := by
  induction rs generalizing cursor with
  | nil =>
    have hle : cursor ≤ log.length := h
    rw [outside, outside, slice_if, slice_if, slice_length, slice_length,
      drop_append_of_le_length hle]
  | cons r rs ih =>
    have hr : r.1 ≤ r.2 := h.2.1
    have hle := h.2.2.le
    rw [outside, outside, Nat.max_eq_right (Nat.le_trans h.1 h.2.1), ih h.2.2, slice_append (by omega),
      append_assoc]

lemma outside_concat (h : Within cursor rs limit) (hle : limit ≤ stop) :
    outside log stop cursor (rs ++ [(limit, stop)]) = outside log limit cursor rs := by
  induction rs generalizing cursor with
  | nil =>
    have hc : cursor ≤ limit := h
    rw [nil_append, outside, outside, outside, slice_if, slice_if,
      Nat.max_eq_right (Nat.le_trans hc hle), slice_of_le (Nat.le_refl stop), append_nil]
  | cons r rs ih =>
    rw [cons_append, outside, outside, Nat.max_eq_right (Nat.le_trans h.1 h.2.1), ih h.2.2]

variable {x : α} {l l' : List α} {f : Frame}

lemma getLast_mem_outside (h : Within cursor rs limit) (hlimit : limit < log.length)
    (hx : log.getLast? = some x) : x ∈ outside log log.length cursor rs := by
  induction rs generalizing cursor with
  | nil =>
    have hc : cursor ≤ limit := h
    rw [outside, slice_if, slice_length]
    refine mem_of_getLast? ?_
    rw [getLast?_drop, if_neg (by omega), hx]
  | cons r rs ih =>
    rw [outside, Nat.max_eq_right (Nat.le_trans h.1 h.2.1)]
    exact mem_append_right _ (ih h.2.2)

/-- An open recording: where it began, and the stretches of those nested in it. -/
structure Frame where
  start : ℕ
  nested : List (ℕ × ℕ)

/-- What a recording would note for itself: all that was read, and what was read outside those
nested in it. -/
structure Notes (α : Type*) where
  all : List α
  own : List α

namespace Notes

def empty : Notes α := ⟨[], []⟩

def read (xs : List α) (n : Notes α) : Notes α := ⟨n.all ++ xs, n.own ++ xs⟩

def readNested (xs : List α) (n : Notes α) : Notes α := ⟨n.all ++ xs, n.own⟩

end Notes

/-- The notes of recordings, innermost first, are found in a log. `R` says how what is found may
differ from what was noted. -/
def Attributed (R : List α → List α → Prop) (log : List α) : (limit : ℕ) → List Frame →
    List (Notes α) → Prop
  | _, [], [] => True
  | limit, f :: fs, n :: ns =>
    Within f.start f.nested limit ∧ R (log.drop f.start) n.all ∧
      R (outside log limit f.start f.nested) n.own ∧ Attributed R log f.start fs ns
  | _, _, _ => False

section

variable {R : List α → List α → Prop} {log : List α} {limit : ℕ} {f f' : Frame} {fs : List Frame}
  {n : Notes α} {ns : List (Notes α)}

lemma Attributed.opened (hR : R [] []) (h : Attributed R log log.length fs ns) :
    Attributed R log log.length (⟨log.length, []⟩ :: fs) (Notes.empty :: ns) := by
  refine ⟨Nat.le_refl _, ?_, ?_, h⟩
  · rw [drop_length]
    exact hR
  · rw [outside, if_neg (Nat.lt_irrefl _)]
    exact hR

variable (hR : ∀ l l' xs, R l l' → R (l ++ xs) (l' ++ xs))
include hR

variable (xs : List α)

lemma Attributed.grow (h : Attributed R log limit fs ns) (hlimit : limit ≤ log.length) :
    Attributed R (log ++ xs) limit fs (ns.map (Notes.readNested xs)) := by
  induction fs generalizing limit ns with
  | nil =>
    cases ns with
    | nil => trivial
    | cons n ns => exact h.elim
  | cons f fs ih =>
    cases ns with
    | nil => exact h.elim
    | cons n ns =>
      obtain ⟨hwithin, hall, hown, hrest⟩ := h
      have hstart := hwithin.le
      refine ⟨hwithin, ?_, ?_, ih hrest (by omega)⟩
      · rw [drop_append_of_le_length (by omega)]
        exact hR _ _ xs hall
      · rw [outside_grow hwithin hlimit]
        exact hown

lemma Attributed.read (h : Attributed R log log.length (f :: fs) (n :: ns)) :
    Attributed R (log ++ xs) (log ++ xs).length (f :: fs)
      (n.read xs :: ns.map (Notes.readNested xs)) := by
  obtain ⟨hwithin, hall, hown, hrest⟩ := h
  have hstart := hwithin.le
  refine ⟨hwithin.mono (by simp), ?_, ?_, hrest.grow hR xs hstart⟩
  · rw [drop_append_of_le_length hstart]
    exact hR _ _ xs hall
  · rw [outside_append hwithin]
    exact hR _ _ xs hown

lemma Attributed.replayed (h : Attributed R log log.length (f :: fs) (n :: ns)) :
    Attributed R (log ++ xs) (log ++ xs).length
      (⟨f.start, f.nested ++ [(log.length, (log ++ xs).length)]⟩ :: fs)
      ((n :: ns).map (Notes.readNested xs)) := by
  obtain ⟨hwithin, hall, hown, hrest⟩ := h
  have hstart := hwithin.le
  refine ⟨hwithin.concat (by simp), ?_, ?_, hrest.grow hR xs hstart⟩
  · rw [drop_append_of_le_length hstart]
    exact hR _ _ xs hall
  · rw [outside_concat hwithin (by simp), outside_grow hwithin (Nat.le_refl _)]
    exact hown

omit hR in
lemma Attributed.closed (h : Attributed R log log.length (f :: f' :: fs) (n :: ns)) :
    Attributed R log log.length (⟨f'.start, f'.nested ++ [(f.start, log.length)]⟩ :: fs) ns := by
  obtain ⟨hwithin, -, -, hrest⟩ := h
  cases ns with
  | nil => exact hrest.elim
  | cons n' ns =>
    obtain ⟨hwithin', hall', hown', hrest'⟩ := hrest
    refine ⟨hwithin'.concat hwithin.le, hall', ?_, hrest'⟩
    rw [outside_concat hwithin' hwithin.le]
    exact hown'

end

def SameMembers (l l' : List α) : Prop := ∀ x, x ∈ l ↔ x ∈ l'

lemma SameMembers.append (xs : List α) (h : SameMembers l l') :
    SameMembers (l ++ xs) (l' ++ xs) := by
  intro x
  rw [mem_append, mem_append, h x]

lemma SameMembers.concat (h : SameMembers l l') (hx : x ∈ l) : SameMembers l (l' ++ [x]) := by
  intro y
  rw [mem_append, mem_singleton, ← h y]
  constructor
  · exact .inl
  · rintro (hy | rfl)
    · exact hy
    · exact hx

section

variable {log : List α} {limit : ℕ} {f : Frame} {fs : List Frame} {n : Notes α}
  {ns : List (Notes α)} {x : α}

lemma getLast_mem_drop {start : ℕ} (h : start < log.length) (hx : log.getLast? = some x) :
    x ∈ log.drop start := by
  refine mem_of_getLast? ?_
  rw [getLast?_drop, if_neg (by omega), hx]

lemma Attributed.repeatedNested (h : Attributed SameMembers log limit fs ns)
    (hlimit : limit < log.length) (hx : log.getLast? = some x) :
    Attributed SameMembers log limit fs (ns.map (Notes.readNested [x])) := by
  induction fs generalizing limit ns with
  | nil =>
    cases ns with
    | nil => trivial
    | cons n ns => exact h.elim
  | cons f fs ih =>
    cases ns with
    | nil => exact h.elim
    | cons n ns =>
      obtain ⟨hwithin, hall, hown, hrest⟩ := h
      have hstart := hwithin.le
      exact ⟨hwithin, hall.concat (getLast_mem_drop (by omega) hx), hown, ih hrest (by omega)⟩

lemma Attributed.repeated (h : Attributed SameMembers log log.length (f :: fs) (n :: ns))
    (hbound : Within f.start f.nested limit) (hlimit : limit < log.length)
    (hx : log.getLast? = some x) :
    Attributed SameMembers log log.length (f :: fs)
      (n.read [x] :: ns.map (Notes.readNested [x])) := by
  obtain ⟨hwithin, hall, hown, hrest⟩ := h
  have hstart := hbound.le
  exact ⟨hwithin, hall.concat (getLast_mem_drop (by omega) hx),
    hown.concat (getLast_mem_outside hbound hlimit hx),
    hrest.repeatedNested (by omega) hx⟩

end

inductive Bracket where
  | opened
  | closed
  | inside
  deriving DecidableEq

namespace Bracket

def step : Bracket → ℕ → ℕ
  | opened, d => d + 1
  | closed, d => d - 1
  | inside, d => d

/-- How many recordings are open at the end, unless one is closed that is not open. -/
def depth : ℕ → List Bracket → Option ℕ
  | d, [] => some d
  | d, b :: bs => if b = closed ∧ d = 0 then none else depth (b.step d) bs

end Bracket

/-- What happens to a log: entries are read, or read again by what is reused. -/
inductive LogEvent (α : Type*) where
  | opened
  | closed
  | read (xs : List α)
  | replayed (xs : List α)

namespace LogEvent

def bracket : LogEvent α → Bracket
  | opened => .opened
  | closed => .closed
  | _ => .inside

def note : List (Notes α) → LogEvent α → List (Notes α)
  | ns, opened => .empty :: ns
  | ns, closed => ns.tail
  | n :: ns, read xs => n.read xs :: ns.map (Notes.readNested xs)
  | [], read _ => []
  | ns, replayed xs => ns.map (Notes.readNested xs)

def entries : LogEvent α → List α
  | read xs | replayed xs => xs
  | _ => []

def ownEntries : LogEvent α → List α
  | read xs => xs
  | _ => []

def allReads (es : List (LogEvent α)) : List α := es.flatMap entries

/-- What is read, and not replayed, while no more recordings than these are open. -/
def ownReads : ℕ → List (LogEvent α) → List α
  | _, [] => []
  | d, e :: es => (if d = 0 then e.ownEntries else []) ++ ownReads (e.bracket.step d) es

lemma readNested_readNested (xs ys : List α) (ns : List (Notes α)) :
    (ns.map (Notes.readNested xs)).map (Notes.readNested ys) =
      ns.map (Notes.readNested (xs ++ ys)) := by
  rw [map_map]
  exact map_congr_left (fun n _ => by simp [Notes.readNested])

variable (ns : List (Notes α))

lemma readNested_nil : ns.map (Notes.readNested []) = ns := by
  conv_rhs => rw [← map_id ns]
  exact map_congr_left (fun n _ => by simp [Notes.readNested])

lemma note_read_nil : note ns (.read []) = ns := by
  cases ns with
  | nil => rfl
  | cons n ns =>
    rw [note, readNested_nil]
    simp [Notes.read]

lemma note_append {e : LogEvent α} {pre ns : List (Notes α)} {n : Notes α}
    (h : ¬ (e.bracket = .closed ∧ pre.length = 0)) :
    ∃ pre', pre'.length = e.bracket.step pre.length ∧
      note (pre ++ n :: ns) e =
        pre' ++ ⟨n.all ++ e.entries, n.own ++ if pre.length = 0 then e.ownEntries else []⟩ ::
          ns.map (Notes.readNested e.entries) := by
  cases e with
  | opened =>
    refine ⟨.empty :: pre, rfl, ?_⟩
    simp [note, entries, ownEntries, readNested_nil]
  | closed =>
    cases pre with
    | nil => exact absurd ⟨rfl, rfl⟩ h
    | cons m pre =>
      refine ⟨pre, rfl, ?_⟩
      simp [note, entries, readNested_nil]
  | read xs =>
    cases pre with
    | nil =>
      refine ⟨[], rfl, ?_⟩
      simp [note, entries, ownEntries, Notes.read]
    | cons m pre =>
      refine ⟨m.read xs :: pre.map (Notes.readNested xs), by simp [bracket, Bracket.step], ?_⟩
      simp [note, entries, Notes.readNested]
  | replayed xs =>
    refine ⟨pre.map (Notes.readNested xs), by simp [bracket, Bracket.step], ?_⟩
    simp [note, entries, ownEntries, Notes.readNested]

theorem foldl_note (es : List (LogEvent α)) :
    ∀ {pre ns : List (Notes α)} {n : Notes α} {d' : ℕ},
      Bracket.depth pre.length (es.map bracket) = some d' →
      ∃ pre', pre'.length = d' ∧ es.foldl note (pre ++ n :: ns) =
        pre' ++ ⟨n.all ++ allReads es, n.own ++ ownReads pre.length es⟩ ::
          ns.map (Notes.readNested (allReads es)) := by
  induction es with
  | nil =>
    intro pre ns n d' h
    refine ⟨pre, Option.some.inj h, ?_⟩
    simp [allReads, ownReads, readNested_nil]
  | cons e es ih =>
    intro pre ns n d' h
    rw [map_cons, Bracket.depth] at h
    split at h
    · exact absurd h (by simp)
    · rename_i hopen
      obtain ⟨pre₁, hlen, hnote⟩ := @note_append _ e pre ns n hopen
      rw [← hlen] at h
      obtain ⟨pre', hlen', hrun⟩ := @ih pre₁ (ns.map (Notes.readNested e.entries)) ⟨_, _⟩ d' h
      refine ⟨pre', hlen', ?_⟩
      rw [foldl_cons, hnote, hrun, readNested_readNested, ownReads, hlen]
      simp [allReads]

end LogEvent

variable {R : List α → List α → Prop} {ns : List (Notes α)} {fs : List Frame}

lemma Attributed.notes_nil (h : Attributed R log limit [] ns) : ns = [] := by
  cases ns with
  | nil => rfl
  | cons n ns => exact h.elim

lemma Attributed.notes_cons (h : Attributed R log limit (f :: fs) ns) :
    ∃ n rest, ns = n :: rest := by
  cases ns with
  | nil => exact h.elim
  | cons n ns => exact ⟨n, ns, rfl⟩

lemma Attributed.within (h : Attributed R log limit (f :: fs) ns) :
    Within f.start f.nested limit := by
  obtain ⟨n, rest, rfl⟩ := h.notes_cons
  exact h.1

lemma append_eq : ∀ l l' xs : List α, l = l' → l ++ xs = l' ++ xs := by
  rintro l _ xs rfl
  rfl

lemma sameMembers_append :
    ∀ l l' xs : List α, SameMembers l l' → SameMembers (l ++ xs) (l' ++ xs) :=
  fun _ _ xs h => h.append xs

lemma Attributed.logged (hR : ∀ l l' xs, R l l' → R (l ++ xs) (l' ++ xs)) (xs : List α)
    (h : Attributed R log log.length fs ns) :
    Attributed R (if fs.isEmpty then log else log ++ xs) (if fs.isEmpty then log else log ++ xs).length
      fs (LogEvent.note ns (.read xs)) := by
  cases fs with
  | nil =>
    obtain rfl := h.notes_nil
    exact trivial
  | cons f fs =>
    obtain ⟨n, rest, rfl⟩ := h.notes_cons
    exact h.read hR xs

end GpuiFast
