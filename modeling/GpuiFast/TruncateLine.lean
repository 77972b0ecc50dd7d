import GpuiFast.TruncateRuns
import GpuiFast.Utf8Chars

/-! A line that is wider than it may be is cut and an affix put in place of what is left out. What
stays fits with the affix, except where the line is cut at its start for an affix that leaves no
room: then all but the first character stays. -/

namespace GpuiFast

open List

variable {K φ δ : Type*} [Field K]

/-- Runs that are given back as they are, or new ones. -/
inductive Cow (α : Type*) where
  | borrowed (value : α)
  | owned (value : α)
  deriving DecidableEq

def isAsciiPunctuation (c : Char) : Bool :=
  (33 ≤ c.val && c.val ≤ 47) || (58 ≤ c.val && c.val ≤ 64) || (91 ≤ c.val && c.val ≤ 96) ||
    (123 ≤ c.val && c.val ≤ 126)

def trimEndMatches (text : List Char) : List Char :=
  text.rdropWhile (fun c => isWhitespace c || isAsciiPunctuation c)

def textWidth (widthForChar : Char → K) (text : List Char) : K := (text.map widthForChar).sum

@[simp]
theorem textWidth_nil {widthForChar : Char → K} : textWidth widthForChar [] = 0 := rfl

@[simp]
theorem textWidth_cons {widthForChar : Char → K} (c : Char) (text : List Char) :
    textWidth widthForChar (c :: text) = widthForChar c + textWidth widthForChar text := by
  simp [textWidth]

@[simp]
theorem textWidth_append {widthForChar : Char → K} (a b : List Char) :
    textWidth widthForChar (a ++ b) = textWidth widthForChar a + textWidth widthForChar b := by
  simp [textWidth]

variable [LinearOrder K]

section Width

variable (widthForChar : Char → K)

/-- Goes through characters until they are wider than the truncation width, and gives the last
before which the affix fits. -/
def truncateIndex [FloorRing K] (truncateWidth suffixWidth : K) :
    K → ℕ → List (ℕ × Char) → Option ℕ
  | _, _, [] => none
  | width, truncateIx, (ix, c) :: rest =>
    let truncateIx := if width + suffixWidth < truncateWidth then ix else truncateIx
    let width := width + widthForChar c
    if truncateWidth < (⌊width⌋ : K) then some truncateIx
    else truncateIndex truncateWidth suffixWidth width truncateIx rest

def shouldTruncateLine [FloorRing K] (line : List Char) (truncateWidth : K)
    (truncationAffix : List Char) : TruncateFrom → Option ℕ
  | .start => truncateIndex widthForChar truncateWidth (textWidth widthForChar truncationAffix) 0 0
    (charIndices line).reverse
  | .finish => truncateIndex widthForChar truncateWidth (textWidth widthForChar truncationAffix) 0 0
    (charIndices line)
  | .middle => none

def frontEndIx (frontBudget : K) : K → ℕ → List (ℕ × Char) → ℕ
  | _, frontEnd, [] => frontEnd
  | frontWidth, frontEnd, (ix, c) :: rest =>
    if frontBudget < frontWidth + widthForChar c then frontEnd
    else frontEndIx frontBudget (frontWidth + widthForChar c) (ix + c.utf8Size) rest

def backStartIx (backBudget : K) : K → ℕ → List (ℕ × Char) → ℕ
  | _, backStart, [] => backStart
  | backWidth, backStart, (ix, c) :: rest =>
    if backBudget < backWidth + widthForChar c then backStart
    else backStartIx backBudget (backWidth + widthForChar c) ix rest

def shouldTruncateLineMiddle (line : List Char) (truncateWidth : K) (truncationAffix : List Char) :
    Option (ℕ × ℕ) :=
  if textWidth widthForChar line ≤ truncateWidth then none
  else
    let contentBudget := truncateWidth - textWidth widthForChar truncationAffix
    if contentBudget ≤ 0 then some (0, utf8Len line)
    else
      let frontBudget := contentBudget * (2 / 3)
      let backBudget := contentBudget - frontBudget
      let frontEnd := frontEndIx widthForChar frontBudget 0 0 (charIndices line)
      let backStart :=
        backStartIx widthForChar backBudget 0 (utf8Len line) (charIndices line).reverse
      if backStart ≤ frontEnd then some (0, utf8Len line) else some (frontEnd, backStart)

def truncateLine [FloorRing K] (line : List Char) (truncateWidth : K) (truncationAffix : List Char)
    (runs : List (TextRun φ δ)) (truncateFrom : TruncateFrom) :
    List Char × Cow (List (TextRun φ δ)) :=
  if truncateFrom = .middle then
    match shouldTruncateLineMiddle widthForChar line truncateWidth truncationAffix with
    | some (frontEnd, backStart) =>
      (takeBytes frontEnd line ++ truncationAffix ++ dropBytes backStart line,
        .owned (updateRunsAfterMiddleTruncation (utf8Len truncationAffix) runs frontEnd backStart))
    | none => (line, .borrowed runs)
  else
    match shouldTruncateLine widthForChar line truncateWidth truncationAffix truncateFrom with
    | some truncateIx =>
      let result :=
        if truncateFrom = .start then
          truncationAffix ++ dropBytes (ceilCharBoundary (truncateIx + 1) line) line
        else trimEndMatches (takeBytes truncateIx line) ++ truncationAffix
      (result, .owned (updateRunsAfterTruncation (utf8Len result) (utf8Len truncationAffix) runs
        truncateFrom))
    | none => (line, .borrowed runs)

/-- A truncated line is the affix alone or no wider than it may be; it is the affix in place of a
part of the line, and its runs cover it with every byte that stays in the run it had. -/
def FitsInStyle (truncateWidth : K) (line truncationAffix : List Char)
    (runs : List (TextRun φ δ)) (result : List Char) (resultRuns : List (TextRun φ δ)) : Prop :=
  (result = truncationAffix ∨ textWidth widthForChar result ≤ truncateWidth) ∧
    (resultRuns.map (·.len)).sum = utf8Len result ∧
    ∃ front cut back, line = front ++ cut ++ back ∧ result = front ++ truncationAffix ++ back ∧
      ∃ affixStyles, affixStyles.length = utf8Len truncationAffix ∧
        styles resultRuns = (styles runs).take (utf8Len front) ++ affixStyles ++
          (styles runs).drop (utf8Len (front ++ cut))

def LeavesRoom [FloorRing K] (truncateWidth : K) (line truncationAffix : List Char)
    (runs : List (TextRun φ δ)) : TruncateFrom → Prop
  | .start => truncateWidth < (⌊textWidth widthForChar line⌋ : K) →
    textWidth widthForChar truncationAffix < truncateWidth ∨ line.length ≤ 1 ∨
      (textWidth widthForChar truncationAffix = truncateWidth ∧
        textWidth widthForChar line.tail = 0)
  | .finish => True
  | .middle => truncateWidth < 0 → line = [] → runs = [] → truncationAffix = []

end Width

section Cut

variable {widthForChar : Char → K}

theorem truncateIndex_end [FloorRing K] {truncateWidth suffixWidth : K} {line done todo : List Char}
    {truncateIx ix : ℕ} (hline : line = done ++ todo)
    (hix : ∃ front back, line = front ++ back ∧ back ≠ [] ∧ truncateIx = utf8Len front ∧
      (front = [] ∨ textWidth widthForChar front + suffixWidth < truncateWidth))
    (hcut : truncateIndex widthForChar truncateWidth suffixWidth (textWidth widthForChar done)
      truncateIx (charIndicesFrom (utf8Len done) todo) = some ix) :
    ∃ front back, line = front ++ back ∧ back ≠ [] ∧ ix = utf8Len front ∧
      (front = [] ∨ textWidth widthForChar front + suffixWidth < truncateWidth) := by
  induction todo generalizing done truncateIx with
  | nil => simp [charIndicesFrom, truncateIndex] at hcut
  | cons c todo ih =>
    rw [charIndicesFrom, truncateIndex] at hcut
    have hix' : ∃ front back, line = front ++ back ∧ back ≠ [] ∧
        (if textWidth widthForChar done + suffixWidth < truncateWidth then utf8Len done
          else truncateIx) = utf8Len front ∧
        (front = [] ∨ textWidth widthForChar front + suffixWidth < truncateWidth) := by
      split
      next hfits => exact ⟨done, c :: todo, hline, by simp, rfl, .inr hfits⟩
      next => exact hix
    split at hcut
    next =>
      rw [← Option.some.inj hcut]
      exact hix'
    next =>
      have hline' : line = (done ++ [c]) ++ todo := by simp [hline]
      refine ih hline' hix' ?_
      rw [textWidth_append, utf8Len_append]
      simpa using hcut

theorem frontEndIx_spec {frontBudget : K} {line done todo : List Char}
    (hline : line = done ++ todo) (hfits : textWidth widthForChar done ≤ frontBudget) :
    ∃ front rest, line = front ++ rest ∧ textWidth widthForChar front ≤ frontBudget ∧
      frontEndIx widthForChar frontBudget (textWidth widthForChar done) (utf8Len done)
        (charIndicesFrom (utf8Len done) todo) = utf8Len front := by
  induction todo generalizing done with
  | nil => exact ⟨done, [], hline, hfits, rfl⟩
  | cons c todo ih =>
    rw [charIndicesFrom, frontEndIx]
    split
    next => exact ⟨done, c :: todo, hline, hfits, rfl⟩
    next hunder =>
      have hline' : line = (done ++ [c]) ++ todo := by simp [hline]
      have hwidth' : textWidth widthForChar (done ++ [c]) =
          textWidth widthForChar done + widthForChar c := by simp
      have hlen : utf8Len (done ++ [c]) = utf8Len done + c.utf8Size := by simp
      rw [← hwidth'] at hunder ⊢
      rw [← hlen]
      exact ih hline' (not_lt.mp hunder)

theorem backStartIx_spec {backBudget : K} {line done todo : List Char}
    (hline : line = todo ++ done) (hfits : textWidth widthForChar done ≤ backBudget) :
    ∃ rest back, line = rest ++ back ∧ textWidth widthForChar back ≤ backBudget ∧
      backStartIx widthForChar backBudget (textWidth widthForChar done) (utf8Len todo)
        (charIndices todo).reverse = utf8Len rest := by
  induction todo using reverseRecOn generalizing done with
  | nil => exact ⟨[], done, hline, hfits, rfl⟩
  | append_singleton todo c ih =>
    rw [charIndices_concat, reverse_append, reverse_singleton, singleton_append, backStartIx]
    split
    next => exact ⟨todo ++ [c], done, hline, hfits, rfl⟩
    next hunder =>
      have hline' : line = todo ++ (c :: done) := by simp [hline]
      have hwidth' : textWidth widthForChar done + widthForChar c =
          textWidth widthForChar (c :: done) := by rw [textWidth_cons, add_comm]
      rw [hwidth'] at hunder ⊢
      exact ih hline' (not_lt.mp hunder)

variable [IsStrictOrderedRing K]

theorem textWidth_nonneg (hwidth : ∀ c, 0 ≤ widthForChar c) (text : List Char) :
    0 ≤ textWidth widthForChar text := by
  apply sum_nonneg
  simpa using fun c _ => hwidth c

theorem truncateIndex_isSome_iff [FloorRing K] (hwidth : ∀ c, 0 ≤ widthForChar c)
    (truncateWidth suffixWidth width : K) (truncateIx : ℕ) (chars : List (ℕ × Char)) :
    (truncateIndex widthForChar truncateWidth suffixWidth width truncateIx chars).isSome ↔
      chars ≠ [] ∧ truncateWidth < (⌊width + textWidth widthForChar (chars.map (·.2))⌋ : K) := by
  induction chars generalizing width truncateIx with
  | nil => simp [truncateIndex]
  | cons c chars ih =>
    rw [truncateIndex]
    rw [map_cons, textWidth_cons, ← add_assoc]
    have hrest := textWidth_nonneg hwidth (chars.map (·.2))
    split
    next hover =>
      have hmono : (⌊width + widthForChar c.2⌋ : K) ≤
          (⌊width + widthForChar c.2 + textWidth widthForChar (chars.map (·.2))⌋ : K) := by
        exact_mod_cast Int.floor_le_floor (by linarith)
      simpa using hover.trans_le hmono
    next hunder =>
      rw [ih]
      constructor
      · rintro ⟨-, hover⟩
        exact ⟨by simp, hover⟩
      · rintro ⟨-, hover⟩
        refine ⟨?_, hover⟩
        rintro rfl
        rw [map_nil, textWidth_nil, add_zero] at hover
        exact hunder hover

theorem truncateIndex_start [FloorRing K] (hwidth : ∀ c, 0 ≤ widthForChar c)
    {truncateWidth suffixWidth : K} {line done todo : List Char}
    {truncateIx ix : ℕ} (hline : line = todo ++ done)
    (hix : (truncateWidth ≤ suffixWidth ∧ truncateIx = 0) ∨
      (suffixWidth < truncateWidth ∧ (done = [] ∨ ∃ front c back, line = front ++ c :: back ∧
        truncateIx = utf8Len front ∧ textWidth widthForChar back + suffixWidth < truncateWidth)))
    (hcut : truncateIndex widthForChar truncateWidth suffixWidth (textWidth widthForChar done)
      truncateIx (charIndices todo).reverse = some ix) :
    (truncateWidth ≤ suffixWidth ∧ ix = 0) ∨ ∃ front c back, line = front ++ c :: back ∧
      ix = utf8Len front ∧ textWidth widthForChar back + suffixWidth < truncateWidth := by
  induction todo using reverseRecOn generalizing done truncateIx with
  | nil => simp [charIndices, charIndicesFrom, truncateIndex] at hcut
  | append_singleton todo c ih =>
    rw [charIndices_concat, reverse_append, reverse_singleton, singleton_append,
      truncateIndex] at hcut
    have hdone := textWidth_nonneg hwidth done
    have hix' : (truncateWidth ≤ suffixWidth ∧
          (if textWidth widthForChar done + suffixWidth < truncateWidth then utf8Len todo
            else truncateIx) = 0) ∨
        (suffixWidth < truncateWidth ∧ ∃ front c back, line = front ++ c :: back ∧
          (if textWidth widthForChar done + suffixWidth < truncateWidth then utf8Len todo
            else truncateIx) = utf8Len front ∧
          textWidth widthForChar back + suffixWidth < truncateWidth) := by
      split
      next hfits =>
        exact .inr ⟨by linarith, todo, c, done, by simp [hline], rfl, hfits⟩
      next hnot =>
        rcases hix with hix | ⟨hroom, rfl | hix⟩
        · exact .inl hix
        · rw [textWidth_nil, zero_add] at hnot
          exact absurd hroom hnot
        · exact .inr ⟨hroom, hix⟩
    split at hcut
    next =>
      rw [← Option.some.inj hcut]
      rcases hix' with hix' | ⟨-, hix'⟩
      · exact .inl hix'
      · exact .inr hix'
    next =>
      have hline' : line = todo ++ (c :: done) := by simp [hline]
      rw [add_comm (textWidth widthForChar done) (widthForChar c), ← textWidth_cons] at hcut
      refine ih hline' ?_ hcut
      rcases hix' with hix' | ⟨hroom, hix'⟩
      · exact .inl hix'
      · exact .inr ⟨hroom, .inr hix'⟩

end Cut

section Truncated

variable {widthForChar : Char → K} {truncateWidth : K} {line affix result : List Char}
  {runs resultRuns : List (TextRun φ δ)}

theorem fitsInStyle_of_styles {front cut back : List Char} {affixStyles : List (φ × δ)}
    (hruns : (runs.map (·.len)).sum = utf8Len line) (hline : line = front ++ cut ++ back)
    (hfits : front ++ affix ++ back = affix ∨
      textWidth widthForChar (front ++ affix ++ back) ≤ truncateWidth)
    (haffix : affixStyles.length = utf8Len affix)
    (hstyles : styles resultRuns = (styles runs).take (utf8Len front) ++ affixStyles ++
      (styles runs).drop (utf8Len (front ++ cut))) :
    FitsInStyle widthForChar truncateWidth line affix runs (front ++ affix ++ back) resultRuns := by
  refine ⟨hfits, ?_, front, cut, back, hline, rfl, affixStyles, haffix, hstyles⟩
  have hlen : (styles runs).length = utf8Len front + utf8Len cut + utf8Len back := by
    rw [length_styles, hruns, hline, utf8Len_append, utf8Len_append]
  rw [← length_styles, hstyles]
  simp only [length_append, length_take, length_drop, utf8Len_append, haffix, hlen]
  omega

theorem shouldTruncateLine_end [FloorRing K] {ix : ℕ}
    (hcut : shouldTruncateLine widthForChar line truncateWidth affix .finish = some ix) :
    ∃ front back, line = front ++ back ∧ back ≠ [] ∧ ix = utf8Len front ∧
      (front = [] ∨
        textWidth widthForChar front + textWidth widthForChar affix < truncateWidth) := by
  have hne : line ≠ [] := by
    rintro rfl
    simp [shouldTruncateLine, charIndices, charIndicesFrom, truncateIndex] at hcut
  have hcut' : truncateIndex widthForChar truncateWidth (textWidth widthForChar affix)
      (textWidth widthForChar []) 0 (charIndicesFrom (utf8Len []) line) = some ix := hcut
  exact truncateIndex_end rfl ⟨[], line, rfl, hne, rfl, .inl rfl⟩ hcut'

variable [IsStrictOrderedRing K]

theorem shouldTruncateLine_start [FloorRing K] (hwidth : ∀ c, 0 ≤ widthForChar c) {ix : ℕ}
    (hcut : shouldTruncateLine widthForChar line truncateWidth affix .start = some ix) :
    ∃ front c back, line = front ++ c :: back ∧ ix = utf8Len front ∧
      ((truncateWidth ≤ textWidth widthForChar affix ∧ front = []) ∨
        textWidth widthForChar back + textWidth widthForChar affix < truncateWidth) := by
  have hcut' : truncateIndex widthForChar truncateWidth (textWidth widthForChar affix)
      (textWidth widthForChar []) 0 (charIndices line).reverse = some ix := hcut
  have hinit : (truncateWidth ≤ textWidth widthForChar affix ∧ 0 = 0) ∨
      (textWidth widthForChar affix < truncateWidth ∧ (([] : List Char) = [] ∨
        ∃ front c back, line = front ++ c :: back ∧ 0 = utf8Len front ∧
          textWidth widthForChar back + textWidth widthForChar affix < truncateWidth)) := by
    rcases le_or_gt truncateWidth (textWidth widthForChar affix) with hle | hlt
    · exact .inl ⟨hle, rfl⟩
    · exact .inr ⟨hlt, .inl rfl⟩
  rcases truncateIndex_start hwidth (append_nil line).symm hinit hcut' with
    ⟨hle, rfl⟩ | ⟨front, c, back, hline, hix, hfits⟩
  · cases line with
    | nil => simp [shouldTruncateLine, charIndices, charIndicesFrom, truncateIndex] at hcut
    | cons c back => exact ⟨[], c, back, rfl, rfl, .inl ⟨hle, rfl⟩⟩
  · exact ⟨front, c, back, hline, hix, .inr hfits⟩

theorem shouldTruncateLineMiddle_spec {frontEnd backStart : ℕ}
    (hcut : shouldTruncateLineMiddle widthForChar line truncateWidth affix =
      some (frontEnd, backStart)) :
    (frontEnd = 0 ∧ backStart = utf8Len line) ∨
      ∃ front cut back, line = front ++ cut ++ back ∧ cut ≠ [] ∧ frontEnd = utf8Len front ∧
        backStart = utf8Len (front ++ cut) ∧
        textWidth widthForChar (front ++ affix ++ back) ≤ truncateWidth := by
  rw [shouldTruncateLineMiddle] at hcut
  split at hcut
  next => simp at hcut
  next =>
    dsimp only at hcut
    split at hcut
    next =>
      left
      simpa [eq_comm] using hcut
    next hbudget =>
      rw [not_le] at hbudget
      generalize hB : truncateWidth - textWidth widthForChar affix = budget at hbudget hcut
      obtain ⟨front, rest, hfront, hfrontFits, hfrontEnd⟩ :=
        @frontEndIx_spec K _ _ widthForChar (budget * (2 / 3)) line [] line rfl
          (by rw [textWidth_nil]; linarith)
      obtain ⟨rest', back, hback, hbackFits, hbackStart⟩ :=
        @backStartIx_spec K _ _ widthForChar (budget - budget * (2 / 3)) line [] line
          (append_nil line).symm (by rw [textWidth_nil]; linarith)
      have hfrontEnd' : frontEndIx widthForChar (budget * (2 / 3)) 0 0 (charIndices line) =
          utf8Len front := hfrontEnd
      have hbackStart' : backStartIx widthForChar (budget - budget * (2 / 3)) 0 (utf8Len line)
          (charIndices line).reverse = utf8Len rest' := hbackStart
      rw [hfrontEnd', hbackStart'] at hcut
      split at hcut
      next =>
        left
        simpa [eq_comm] using hcut
      next hlt =>
        right
        rw [Option.some.injEq, Prod.mk.injEq] at hcut
        obtain ⟨rfl, rfl⟩ := hcut
        -- the front ends before the back starts
        obtain ⟨cut, rfl, -⟩ : ∃ cut, rest' = front ++ cut ∧ rest = cut ++ back := by
          rw [hfront, append_eq_append_iff] at hback
          rcases hback with hback | ⟨cut, rfl, -⟩
          · exact hback
          · rw [utf8Len_append] at hlt
            omega
        refine ⟨front, cut, back, hback, ?_, rfl, rfl, ?_⟩
        · rintro rfl
          simp at hlt
        · rw [textWidth_append, textWidth_append]
          linarith

variable [FloorRing K]

theorem fitsInStyle_end (hwidth : ∀ c, 0 ≤ widthForChar c)
    (hruns : (runs.map (·.len)).sum = utf8Len line)
    (hresult : truncateLine widthForChar line truncateWidth affix runs .finish =
      (result, .owned resultRuns)) :
    FitsInStyle widthForChar truncateWidth line affix runs result resultRuns := by
  rw [truncateLine, if_neg (by simp)] at hresult
  cases hcut : shouldTruncateLine widthForChar line truncateWidth affix .finish with
  | none => simp [hcut] at hresult
  | some ix =>
    rw [hcut] at hresult
    dsimp only at hresult
    obtain ⟨front, back, hline, hback, rfl, hfits⟩ := shouldTruncateLine_end hcut
    have htake : takeBytes (utf8Len front) line = front := by rw [hline, takeBytes_append]
    obtain ⟨blanks, hblanks⟩ : ∃ blanks, trimEndMatches front ++ blanks = front :=
      rdropWhile_prefix _ front
    rw [if_neg (by simp), htake, Prod.mk.injEq, Cow.owned.injEq, utf8Len_append] at hresult
    obtain ⟨rfl, rfl⟩ := hresult
    generalize trimEndMatches front = kept at hblanks
    have hpos := utf8Len_pos hback
    have hlen : utf8Len kept < (styles runs).length := by
      rw [length_styles, hruns, hline, ← hblanks]
      simp only [utf8Len_append]
      omega
    obtain ⟨affixStyles, haffix, hstyles⟩ := styles_updateRuns_end (utf8Len affix) hlen
    have hline' : line = kept ++ (blanks ++ back) ++ [] := by simp [hline, ← hblanks]
    rw [← append_nil (kept ++ affix)]
    refine fitsInStyle_of_styles hruns hline' ?_ haffix ?_
    · rcases hfits with rfl | hfits
      · left
        simp [(append_eq_nil_iff.mp hblanks).1]
      · right
        have hblank := textWidth_nonneg hwidth blanks
        rw [← hblanks, textWidth_append] at hfits
        rw [append_nil, textWidth_append]
        linarith
    · have hall : (styles runs).drop (utf8Len (kept ++ (blanks ++ back))) = [] := by
        apply drop_eq_nil_of_le
        rw [length_styles, hruns, hline']
        simp
      rw [hstyles, hall, append_nil]

theorem truncateLine_start (hwidth : ∀ c, 0 ≤ widthForChar c)
    (hruns : (runs.map (·.len)).sum = utf8Len line)
    (hresult : truncateLine widthForChar line truncateWidth affix runs .start =
      (result, .owned resultRuns)) :
    ∃ front c back, line = front ++ c :: back ∧ result = affix ++ back ∧
      ((truncateWidth ≤ textWidth widthForChar affix ∧ front = []) ∨
        textWidth widthForChar back + textWidth widthForChar affix < truncateWidth) ∧
      ((back = [] ∨ textWidth widthForChar (affix ++ back) ≤ truncateWidth) →
        FitsInStyle widthForChar truncateWidth line affix runs result resultRuns) := by
  rw [truncateLine, if_neg (by simp)] at hresult
  cases hcut : shouldTruncateLine widthForChar line truncateWidth affix .start with
  | none => simp [hcut] at hresult
  | some ix =>
    rw [hcut] at hresult
    dsimp only at hresult
    obtain ⟨front, c, back, hline, rfl, hfits⟩ := shouldTruncateLine_start hwidth hcut
    have hdrop : dropBytes (ceilCharBoundary (utf8Len front + 1) line) line = back := by
      rw [hline, ceilCharBoundary_succ, append_cons front c back, dropBytes_append]
    rw [if_pos rfl, hdrop, Prod.mk.injEq, Cow.owned.injEq, utf8Len_append,
      Nat.add_comm (utf8Len affix)] at hresult
    obtain ⟨rfl, rfl⟩ := hresult
    refine ⟨front, c, back, hline, rfl, hfits, ?_⟩
    intro hwide
    have hc := c.utf8Size_pos
    have htotal : (styles runs).length = utf8Len front + c.utf8Size + utf8Len back := by
      rw [length_styles, hruns, hline, utf8Len_append, utf8Len_cons]
      omega
    have hlen : utf8Len back < (styles runs).length := by omega
    obtain ⟨affixStyles, haffix, hstyles⟩ := styles_updateRuns_start (utf8Len affix) hlen
    have hline' : line = [] ++ (front ++ [c]) ++ back := by simp [hline]
    change FitsInStyle widthForChar truncateWidth line affix runs ([] ++ affix ++ back) _
    refine fitsInStyle_of_styles hruns hline' ?_ haffix ?_
    · rcases hwide with rfl | hwide
      · left
        simp
      · exact .inr hwide
    · rw [hstyles]
      have hdrop' : (styles runs).length - utf8Len back = utf8Len ([] ++ (front ++ [c])) := by
        simp only [nil_append, utf8Len_append, utf8Len_cons, utf8Len_nil]
        omega
      rw [hdrop']
      simp

theorem truncateLine_middle (hruns : (runs.map (·.len)).sum = utf8Len line)
    (hrun : line ≠ [] ∨ runs ≠ [])
    (hresult : truncateLine widthForChar line truncateWidth affix runs .middle =
      (result, .owned resultRuns)) :
    FitsInStyle widthForChar truncateWidth line affix runs result resultRuns := by
  rw [truncateLine, if_pos rfl] at hresult
  cases hcut : shouldTruncateLineMiddle widthForChar line truncateWidth affix with
  | none => simp [hcut] at hresult
  | some cutAt =>
    obtain ⟨frontEnd, backStart⟩ := cutAt
    rw [hcut] at hresult
    dsimp only at hresult
    rw [Prod.mk.injEq, Cow.owned.injEq] at hresult
    obtain ⟨rfl, rfl⟩ := hresult
    have htotal : (styles runs).length = utf8Len line := by rw [length_styles, hruns]
    rcases shouldTruncateLineMiddle_spec hcut with
      ⟨rfl, rfl⟩ | ⟨front, cut, back, hline, hne, rfl, rfl, hfits⟩
    · -- nothing stays
      have htake : takeBytes 0 line = [] := takeBytes_append [] line
      have hdrop : dropBytes (utf8Len line) line = [] := by
        have happend := dropBytes_append line []
        rwa [append_nil] at happend
      have hline : line = [] ++ line ++ [] := by simp
      rw [htake, hdrop]
      have hstyles : ∃ affixStyles, affixStyles.length = utf8Len affix ∧
          styles (updateRunsAfterMiddleTruncation (utf8Len affix) runs 0 (utf8Len line)) =
            (styles runs).take (utf8Len []) ++ affixStyles ++
              (styles runs).drop (utf8Len ([] ++ line)) := by
        by_cases hempty : line = []
        · have hstyles : styles runs = [] := by
            rw [← length_eq_zero_iff, htotal, hempty, utf8Len_nil]
          obtain ⟨affixStyles, haffix, hmiddle⟩ := styles_updateRuns_empty (utf8Len affix) hstyles
            (hrun.resolve_left (fun hline => hline hempty))
          refine ⟨affixStyles, haffix, ?_⟩
          rw [hempty, utf8Len_nil, hmiddle, hstyles]
          simp
        · have hpos := utf8Len_pos hempty
          exact styles_updateRuns_middle (utf8Len affix) (utf8Len line) (by rw [htotal]; exact hpos)
      obtain ⟨affixStyles, haffix, hstyles⟩ := hstyles
      exact fitsInStyle_of_styles hruns hline (.inl (by simp)) haffix hstyles
    · have hpos := utf8Len_pos hne
      have htake : takeBytes (utf8Len front) line = front := by
        rw [hline, append_assoc, takeBytes_append]
      have hdrop : dropBytes (utf8Len (front ++ cut)) line = back := by
        rw [hline, dropBytes_append]
      rw [htake, hdrop]
      have hlen : utf8Len front < (styles runs).length := by
        rw [htotal, hline, utf8Len_append, utf8Len_append]
        omega
      obtain ⟨affixStyles, haffix, hstyles⟩ :=
        styles_updateRuns_middle (utf8Len affix) (utf8Len (front ++ cut)) hlen
      exact fitsInStyle_of_styles hruns hline (.inr hfits) haffix hstyles

theorem shouldTruncateLine_start_isSome_iff (hwidth : ∀ c, 0 ≤ widthForChar c) :
    (shouldTruncateLine widthForChar line truncateWidth affix .start).isSome ↔
      line ≠ [] ∧ truncateWidth < (⌊textWidth widthForChar line⌋ : K) := by
  have hchars : (charIndices line).map (·.2) = line := by
    induction line using reverseRecOn with
    | nil => rfl
    | append_singleton line c ih => simp [charIndices_concat, ih]
  have hsum : textWidth widthForChar ((charIndices line).reverse.map (·.2)) =
      textWidth widthForChar line := by
    rw [map_reverse, hchars, textWidth, map_reverse, sum_reverse, textWidth]
  have hnil : (charIndices line).reverse ≠ [] ↔ line ≠ [] := by
    rw [ne_eq, reverse_eq_nil_iff, ← map_eq_nil_iff, hchars]
  rw [shouldTruncateLine, truncateIndex_isSome_iff hwidth, hsum, zero_add, hnil]

theorem fitsInStyle_start_iff (hwidth : ∀ c, 0 ≤ widthForChar c)
    (hruns : (runs.map (·.len)).sum = utf8Len line) :
    (∀ result resultRuns, truncateLine widthForChar line truncateWidth affix runs .start =
        (result, .owned resultRuns) →
      FitsInStyle widthForChar truncateWidth line affix runs result resultRuns) ↔
      LeavesRoom widthForChar truncateWidth line affix runs .start := by
  have hsome := @shouldTruncateLine_start_isSome_iff K _ _ widthForChar truncateWidth line affix
    _ _ hwidth
  constructor
  · intro hfits hover
    by_contra hroom
    rw [not_or, not_or, not_lt, not_le] at hroom
    obtain ⟨hwide, hlong, htail⟩ := hroom
    have hne : line ≠ [] := by
      rintro rfl
      simp at hlong
    obtain ⟨ix, hix⟩ := Option.isSome_iff_exists.mp (hsome.mpr ⟨hne, hover⟩)
    obtain ⟨result, resultRuns, hresult⟩ : ∃ result resultRuns,
        truncateLine widthForChar line truncateWidth affix runs .start =
          (result, .owned resultRuns) := by
      rw [truncateLine, if_neg (by simp), hix]
      exact ⟨_, _, rfl⟩
    obtain ⟨front, c, back, rfl, rfl, hcut, -⟩ := truncateLine_start hwidth hruns hresult
    have hback := textWidth_nonneg hwidth back
    rcases hcut with ⟨-, rfl⟩ | hcut
    · rcases (hfits _ _ hresult).1 with hall | hle
      · have hnil : back = [] := by simpa using hall
        simp [hnil] at hlong
      · rw [textWidth_append] at hle
        exact htail ⟨by linarith, by simpa using (by linarith : textWidth widthForChar back = 0)⟩
    · linarith
  · intro hroom result resultRuns hresult
    obtain ⟨front, c, back, hline, -, hcut, hfits⟩ := truncateLine_start hwidth hruns hresult
    apply hfits
    rcases hcut with ⟨hwide, rfl⟩ | hcut
    · have hover : truncateWidth < (⌊textWidth widthForChar line⌋ : K) := by
        refine (hsome.mp ?_).2
        cases hix : shouldTruncateLine widthForChar line truncateWidth affix .start with
        | none =>
          rw [truncateLine, if_neg (by simp), hix] at hresult
          simp at hresult
        | some ix => rfl
      rcases hroom hover with hlt | hshort | ⟨heq, htail⟩
      · exact absurd hlt (not_lt.mpr hwide)
      · left
        simpa [hline] using hshort
      · right
        rw [hline, nil_append, tail_cons] at htail
        rw [textWidth_append, heq, htail, add_zero]
    · right
      rw [textWidth_append]
      linarith

theorem fitsInStyle_middle_iff (hwidth : ∀ c, 0 ≤ widthForChar c)
    (hruns : (runs.map (·.len)).sum = utf8Len line) :
    (∀ result resultRuns, truncateLine widthForChar line truncateWidth affix runs .middle =
        (result, .owned resultRuns) →
      FitsInStyle widthForChar truncateWidth line affix runs result resultRuns) ↔
      LeavesRoom widthForChar truncateWidth line affix runs .middle := by
  by_cases hrun : line ≠ [] ∨ runs ≠ []
  · refine iff_of_true (fun result resultRuns => truncateLine_middle hruns hrun) ?_
    intro _ hline hruns'
    exact absurd hrun (by simp [hline, hruns'])
  · rw [not_or, not_not, not_not] at hrun
    obtain ⟨rfl, rfl⟩ := hrun
    have haffix := textWidth_nonneg hwidth affix
    rcases lt_or_ge truncateWidth 0 with hneg | hnonneg
    · -- the affix replaces nothing, in no run
      have hcut : shouldTruncateLineMiddle widthForChar [] truncateWidth affix = some (0, 0) := by
        rw [shouldTruncateLineMiddle, textWidth_nil, if_neg (not_le.mpr hneg)]
        exact if_pos (by linarith)
      have hresult : truncateLine widthForChar [] truncateWidth affix ([] : List (TextRun φ δ))
          .middle = (affix, .owned []) := by
        rw [truncateLine, if_pos rfl, hcut]
        simp [takeBytes, dropBytes, updateRunsAfterMiddleTruncation, frontRuns, backRuns]
      constructor
      · intro hfits _ _ _
        have hsum := (hfits _ _ hresult).2.1
        by_contra hne
        have hpos := utf8Len_pos hne
        simp at hsum
        omega
      · intro hroom result resultRuns hresult'
        obtain rfl : affix = [] := hroom hneg rfl rfl
        rw [hresult, Prod.mk.injEq, Cow.owned.injEq] at hresult'
        obtain ⟨rfl, rfl⟩ := hresult'
        exact ⟨.inl rfl, rfl, [], [], [], rfl, rfl, [], rfl, rfl⟩
    · have hcut : shouldTruncateLineMiddle widthForChar [] truncateWidth affix = none := by
        rw [shouldTruncateLineMiddle, textWidth_nil, if_pos hnonneg]
      refine iff_of_true ?_ (fun hneg => absurd hneg (not_lt.mpr hnonneg))
      intro result resultRuns hresult
      rw [truncateLine, if_pos rfl, hcut] at hresult
      simp at hresult

/-- A truncated line fits and keeps its styling exactly when the affix leaves room. -/
theorem truncateLine_fitsInStyle_iff (widthForChar : Char → K) (hwidth : ∀ c, 0 ≤ widthForChar c)
    (line : List Char) (truncateWidth : K) (affix : List Char) (runs : List (TextRun φ δ))
    (truncateFrom : TruncateFrom) (hruns : (runs.map (·.len)).sum = utf8Len line) :
    (∀ result resultRuns, truncateLine widthForChar line truncateWidth affix runs truncateFrom =
        (result, .owned resultRuns) →
      FitsInStyle widthForChar truncateWidth line affix runs result resultRuns) ↔
      LeavesRoom widthForChar truncateWidth line affix runs truncateFrom := by
  match truncateFrom with
  | .start => exact fitsInStyle_start_iff hwidth hruns
  | .finish =>
    refine iff_of_true ?_ trivial
    intro result resultRuns hresult
    exact fitsInStyle_end hwidth hruns hresult
  | .middle => exact fitsInStyle_middle_iff hwidth hruns

/-- `abcd` cut to `*d` when five pixels hold two characters. -/
theorem truncateLine_fitsInStyle_star :
    (∀ c : Char, (0 : ℚ) ≤ (fun _ => 2) c) ∧
      (([⟨3, 0, 0⟩, ⟨1, 1, 0⟩] : List (TextRun ℕ ℕ)).map (·.len)).sum =
        utf8Len ['a', 'b', 'c', 'd'] ∧
      truncateLine (fun _ => (2 : ℚ)) ['a', 'b', 'c', 'd'] 5 ['*']
        ([⟨3, 0, 0⟩, ⟨1, 1, 0⟩] : List (TextRun ℕ ℕ)) .start =
        (['*', 'd'], .owned [⟨1, 0, 0⟩, ⟨1, 1, 0⟩]) ∧
      FitsInStyle (fun _ => (2 : ℚ)) 5 ['a', 'b', 'c', 'd'] ['*']
        ([⟨3, 0, 0⟩, ⟨1, 1, 0⟩] : List (TextRun ℕ ℕ)) ['*', 'd'] [⟨1, 0, 0⟩, ⟨1, 1, 0⟩] := by
  have hwidth : ∀ c : Char, (0 : ℚ) ≤ (fun _ => 2) c := by
    intro c
    norm_num
  have hruns : (([⟨3, 0, 0⟩, ⟨1, 1, 0⟩] : List (TextRun ℕ ℕ)).map (·.len)).sum =
      utf8Len ['a', 'b', 'c', 'd'] := by decide
  have hresult : truncateLine (fun _ => (2 : ℚ)) ['a', 'b', 'c', 'd'] 5 ['*']
      ([⟨3, 0, 0⟩, ⟨1, 1, 0⟩] : List (TextRun ℕ ℕ)) .start =
      (['*', 'd'], .owned [⟨1, 0, 0⟩, ⟨1, 1, 0⟩]) := by with_unfolding_all decide
  refine ⟨hwidth, hruns, hresult, ?_⟩
  refine (truncateLine_fitsInStyle_iff _ hwidth _ _ _ _ _ hruns).mpr ?_ _ _ hresult
  intro _
  left
  with_unfolding_all decide

/-- `ab` is cut to `*b`, four times as wide as it may be, when the affix leaves no room. -/
theorem truncateLine_start_no_room :
    truncateLine (fun _ => (2 : ℚ)) ['a', 'b'] 1 ['*'] ([⟨2, 0, 0⟩] : List (TextRun ℕ ℕ)) .start =
        (['*', 'b'], .owned [⟨2, 0, 0⟩]) ∧
      ¬ FitsInStyle (fun _ => (2 : ℚ)) 1 ['a', 'b'] ['*'] ([⟨2, 0, 0⟩] : List (TextRun ℕ ℕ))
        ['*', 'b'] [⟨2, 0, 0⟩] := by
  refine ⟨by with_unfolding_all decide, ?_⟩
  rintro ⟨hfits, -⟩
  revert hfits
  with_unfolding_all decide

end Truncated

end GpuiFast
