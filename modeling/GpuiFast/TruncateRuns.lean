import GpuiFast.ShapeText

/-! What becomes of the runs of a text when a part of it is replaced by an affix: each byte that stays
keeps the font and decoration of its run. -/

namespace GpuiFast

open List

variable {φ δ : Type*}

def styles (runs : List (TextRun φ δ)) : List (φ × δ) :=
  runs.flatMap (fun run => List.replicate run.len (run.font, run.decoration))

@[simp]
theorem styles_nil : styles ([] : List (TextRun φ δ)) = [] := rfl

@[simp]
theorem styles_cons (run : TextRun φ δ) (runs : List (TextRun φ δ)) :
    styles (run :: runs) = List.replicate run.len (run.font, run.decoration) ++ styles runs := rfl

@[simp]
theorem styles_append (a b : List (TextRun φ δ)) : styles (a ++ b) = styles a ++ styles b := by
  simp [styles]

theorem styles_reverse (runs : List (TextRun φ δ)) :
    styles runs.reverse = (styles runs).reverse := by
  induction runs with
  | nil => rfl
  | cons run runs ih => simp [ih]

theorem length_styles (runs : List (TextRun φ δ)) :
    (styles runs).length = (runs.map (·.len)).sum := by
  simp [styles, length_flatMap]

/-- Cuts runs after the given number of bytes; the run that is cut covers the affix. -/
def cutRuns (ellipsisLen : ℕ) : ℕ → List (TextRun φ δ) → List (TextRun φ δ)
  | _, [] => []
  | truncateAt, run :: runs =>
    if run.len ≤ truncateAt then run :: cutRuns ellipsisLen (truncateAt - run.len) runs
    else [{ run with len := truncateAt + ellipsisLen }]

def updateRunsAfterTruncation (resultLen ellipsisLen : ℕ) (runs : List (TextRun φ δ)) :
    TruncateFrom → List (TextRun φ δ)
  | .start => (cutRuns ellipsisLen (resultLen - ellipsisLen) runs.reverse).reverse
  | .finish => cutRuns ellipsisLen (resultLen - ellipsisLen) runs
  -- middle truncation does not come here
  | .middle => runs

/-- The runs up to an offset, and whether the one that is cut there was found. -/
def frontRuns (ellipsisLen : ℕ) : ℕ → List (TextRun φ δ) → List (TextRun φ δ) × Bool
  | _, [] => ([], false)
  | remaining, run :: runs =>
    if run.len ≤ remaining then
      let front := frontRuns ellipsisLen (remaining - run.len) runs
      (run :: front.1, front.2)
    else ([{ run with len := remaining + ellipsisLen }], true)

def backRuns (backStart : ℕ) : ℕ → List (TextRun φ δ) → List (TextRun φ δ)
  | _, [] => []
  | bytePos, run :: runs =>
    let runEnd := bytePos + run.len
    if backStart < runEnd then
      (if bytePos < backStart then { run with len := runEnd - backStart } else run) ::
        backRuns backStart runEnd runs
    else backRuns backStart runEnd runs

def updateRunsAfterMiddleTruncation (ellipsisLen : ℕ) (runs : List (TextRun φ δ))
    (frontEnd backStart : ℕ) : List (TextRun φ δ) :=
  let front := frontRuns ellipsisLen frontEnd runs
  let front :=
    if front.2 then front.1
    else
      match front.1.getLast? with
      | some last => front.1.dropLast ++ [{ last with len := last.len + ellipsisLen }]
      | none =>
        match runs.head? with
        | some first => [{ first with len := ellipsisLen }]
        | none => []
  front ++ backRuns backStart 0 runs

variable (ellipsisLen : ℕ) {runs : List (TextRun φ δ)}

theorem styles_cutRuns {truncateAt : ℕ} (hlt : truncateAt < (styles runs).length) :
    ∃ affix, affix.length = ellipsisLen ∧
      styles (cutRuns ellipsisLen truncateAt runs) = (styles runs).take truncateAt ++ affix := by
  induction runs generalizing truncateAt with
  | nil => simp at hlt
  | cons run runs ih =>
    rw [styles_cons, length_append, length_replicate] at hlt
    rw [cutRuns]
    split
    next hle =>
      obtain ⟨affix, hlen, haffix⟩ := @ih (truncateAt - run.len) (by omega)
      refine ⟨affix, hlen, ?_⟩
      rw [styles_cons, styles_cons, haffix, take_append, length_replicate,
        take_replicate, Nat.min_eq_right hle, append_assoc]
    next hgt =>
      refine ⟨List.replicate ellipsisLen (run.font, run.decoration), by simp, ?_⟩
      have hzero : truncateAt - run.len = 0 := by omega
      rw [styles_cons, styles_cons, take_append, length_replicate, take_replicate,
        Nat.min_eq_left (by omega), hzero, take_zero, append_nil, styles_nil,
        append_nil, replicate_add]

variable {kept frontEnd : ℕ} (backStart : ℕ)

theorem styles_updateRuns_end (hlt : kept < (styles runs).length) :
    ∃ affix, affix.length = ellipsisLen ∧
      styles (updateRunsAfterTruncation (kept + ellipsisLen) ellipsisLen runs .finish) =
        (styles runs).take kept ++ affix := by
  rw [updateRunsAfterTruncation, Nat.add_sub_cancel]
  exact styles_cutRuns ellipsisLen hlt

theorem styles_updateRuns_start (hlt : kept < (styles runs).length) :
    ∃ affix, affix.length = ellipsisLen ∧
      styles (updateRunsAfterTruncation (kept + ellipsisLen) ellipsisLen runs .start) =
        affix ++ (styles runs).drop ((styles runs).length - kept) := by
  have hlt' : kept < (styles runs.reverse).length := by rwa [styles_reverse, length_reverse]
  obtain ⟨affix, hlen, haffix⟩ := styles_cutRuns ellipsisLen hlt'
  refine ⟨affix.reverse, by rw [length_reverse, hlen], ?_⟩
  rw [updateRunsAfterTruncation, Nat.add_sub_cancel, styles_reverse, haffix, styles_reverse,
    reverse_append, take_reverse, reverse_reverse]

theorem frontRuns_eq_cutRuns (hlt : frontEnd < (styles runs).length) :
    frontRuns ellipsisLen frontEnd runs = (cutRuns ellipsisLen frontEnd runs, true) := by
  induction runs generalizing frontEnd with
  | nil => simp at hlt
  | cons run runs ih =>
    rw [styles_cons, length_append, length_replicate] at hlt
    rw [frontRuns, cutRuns]
    split
    · rw [ih (by omega)]
    · rfl

theorem styles_backRuns (bytePos : ℕ) (runs : List (TextRun φ δ)) :
    styles (backRuns backStart bytePos runs) = (styles runs).drop (backStart - bytePos) := by
  induction runs generalizing bytePos with
  | nil => simp [backRuns]
  | cons run runs ih =>
    rw [backRuns, styles_cons, drop_append, length_replicate, drop_replicate]
    have hrest : backStart - (bytePos + run.len) = backStart - bytePos - run.len := by omega
    split
    next hlt =>
      rw [styles_cons, ih, hrest]
      split
      · have hlen : bytePos + run.len - backStart = run.len - (backStart - bytePos) := by omega
        rw [hlen]
      · have hlen : run.len - (backStart - bytePos) = run.len := by omega
        rw [hlen]
    next hge =>
      have hlen : run.len - (backStart - bytePos) = 0 := by omega
      rw [ih, hrest, hlen, replicate_zero, nil_append]

theorem styles_updateRuns_middle (hlt : frontEnd < (styles runs).length) :
    ∃ affix, affix.length = ellipsisLen ∧
      styles (updateRunsAfterMiddleTruncation ellipsisLen runs frontEnd backStart) =
        (styles runs).take frontEnd ++ affix ++ (styles runs).drop backStart := by
  obtain ⟨affix, hlen, haffix⟩ := styles_cutRuns ellipsisLen hlt
  refine ⟨affix, hlen, ?_⟩
  rw [updateRunsAfterMiddleTruncation, frontRuns_eq_cutRuns ellipsisLen hlt]
  dsimp only
  rw [if_pos rfl, styles_append, haffix, styles_backRuns, Nat.sub_zero]

theorem styles_updateRuns_empty (hempty : styles runs = []) (hne : runs ≠ []) :
    ∃ affix, affix.length = ellipsisLen ∧
      styles (updateRunsAfterMiddleTruncation ellipsisLen runs 0 0) = affix := by
  have hfront : frontRuns ellipsisLen 0 runs = (runs, false) := by
    clear hne
    induction runs with
    | nil => rfl
    | cons run runs ih =>
      rw [styles_cons, append_eq_nil_iff, replicate_eq_nil_iff] at hempty
      rw [frontRuns, if_pos (by omega), Nat.zero_sub, ih hempty.2]
  refine ⟨_, ?_, rfl⟩
  rw [updateRunsAfterMiddleTruncation, hfront]
  dsimp only
  obtain ⟨init, last, rfl⟩ := (eq_nil_or_concat runs).resolve_left hne
  rw [concat_eq_append, styles_append, append_eq_nil_iff, styles_cons, styles_nil,
    append_nil, replicate_eq_nil_iff] at hempty
  simp [styles_backRuns, hempty.1, hempty.2]

end GpuiFast
