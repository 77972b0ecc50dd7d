import Mathlib.Data.List.Basic
import Mathlib.Order.Lattice

/-! The hidden element that IMEs edit, and how an edit of it is imported into the app: its shape is
recovered by a diff of the element's text and placed by the app's selection. Strings are their UTF-16
code units. -/
namespace GpuiFast

open List

def isHighSurrogate (u : ℕ) : Bool := 0xD800 ≤ u && u < 0xDC00

def isLowSurrogate (u : ℕ) : Bool := 0xDC00 ≤ u && u < 0xE000

/-- What a string has for the units: U+FFFD for each surrogate without its other half. -/
def fromUtf16Lossy : List ℕ → List ℕ
  | [] => []
  | [u] => [if isHighSurrogate u || isLowSurrogate u then 0xFFFD else u]
  | u :: v :: rest =>
    if isHighSurrogate u && isLowSurrogate v then u :: v :: fromUtf16Lossy rest
    else (if isHighSurrogate u || isLowSurrogate u then 0xFFFD else u) :: fromUtf16Lossy (v :: rest)

/-- How many units are taken while both sides have the same. -/
def commonLength (old new : List ℕ) : ℕ := ((old.zip new).takeWhile fun (a, b) => a = b).length

structure ImeElement where
  value : List ℕ
  selectionStart : Option ℕ
  selectionEnd : Option ℕ

structure ImeMirror where
  text : List ℕ
  selection : ℕ × ℕ

namespace ImeMirror

def adoptElementState (element : ImeElement) : ImeMirror :=
  let selectionStart := element.selectionStart.getD 0
  ⟨element.value, (selectionStart, element.selectionEnd.getD selectionStart)⟩

def replaceTextInRange (document : List ℕ) (range : ℕ × ℕ) (text : List ℕ) : List ℕ :=
  document.take range.1 ++ text ++ document.drop range.2

/-- The document and the mirror after an `input` event outside of a composition, `selected` being the
input handler's selection. -/
def input (mirror : ImeMirror) (element : ImeElement) (document : List ℕ)
    (selected : Option (ℕ × ℕ)) : List ℕ × ImeMirror :=
  let newUnits := element.value
  let oldUnits := mirror.text
  if newUnits = oldUnits then (document, mirror)
  else
    let anchoredSuffixLength := (element.selectionStart.map (newUnits.length - ·)).filter
      fun suffixLength => suffixLength ≤ oldUnits.length &&
        oldUnits.drop (oldUnits.length - suffixLength) =
          newUnits.drop (newUnits.length - suffixLength)
    let suffixLength := anchoredSuffixLength.getD (commonLength oldUnits.reverse newUnits.reverse)
    let prefixLength := min (min (commonLength oldUnits newUnits) (oldUnits.length - suffixLength))
      (newUnits.length - suffixLength)
    let insertedText := fromUtf16Lossy
      ((newUnits.take (newUnits.length - suffixLength)).drop prefixLength)
    let replacedOldEnd := oldUnits.length - suffixLength
    let removedBeforeSelection := mirror.selection.1 - prefixLength
    let removedAfterSelection := replacedOldEnd - mirror.selection.2
    match selected with
    | none => (document, mirror)
    | some (start, stop) =>
      (replaceTextInRange document (start - removedBeforeSelection, stop + removedAfterSelection)
        insertedText, adoptElementState element)

end ImeMirror

section

variable {old new : List ℕ}

lemma commonLength_append (front : List ℕ) :
    commonLength (front ++ old) (front ++ new) = front.length + commonLength old new := by
  induction front with
  | nil => simp
  | cons u front ih => simp_all [commonLength, Nat.add_right_comm]

lemma commonLength_within (back : List ℕ) :
    min (min (commonLength (old ++ back) (new ++ back)) old.length) new.length =
      commonLength old new := by
  induction old generalizing new with
  | nil => simp [commonLength]
  | cons u old ih =>
    cases new with
    | nil => simp [commonLength]
    | cons v new =>
      by_cases h : u = v
      · have := @ih new
        simp_all [commonLength]
      · simp [commonLength, h]

lemma take_commonLength : old.take (commonLength old new) = new.take (commonLength old new) := by
  induction old generalizing new with
  | nil => simp [commonLength]
  | cons u old ih =>
    cases new with
    | nil => simp [commonLength]
    | cons v new =>
      by_cases h : u = v
      · simpa [commonLength, h] using ih
      · simp [commonLength, h]

/-- Two texts part at one place, where the units they have in common end. -/
lemma parts_iff (hne : new ≠ old) (i : ℕ) :
    new.take i = old.take i ∧ new[i]? ≠ old[i]? ↔ i = commonLength old new := by
  induction old generalizing new i with
  | nil =>
    cases new <;> cases i <;> simp_all [commonLength]
  | cons u old ih =>
    cases new with
    | nil => cases i <;> simp [commonLength]
    | cons v new =>
      by_cases h : u = v
      · cases i with
        | zero => simp [commonLength, h]
        | succ i =>
          have := @ih new (by simp_all) i
          simpa [commonLength, h] using this
      · cases i <;> simp [commonLength, h, Ne.symm h]

lemma length_fromUtf16Lossy (l : List ℕ) : (fromUtf16Lossy l).length = l.length := by
  induction l using fromUtf16Lossy.induct with
  | case1 => rfl
  | case2 u => rfl
  | case3 u v rest hpair ih => simp [fromUtf16Lossy, hpair, ih]
  | case4 u v rest hpair ih => simp only [fromUtf16Lossy, if_neg hpair, length_cons, ih]

lemma not_isLowSurrogate_head {l : List ℕ} (h : fromUtf16Lossy l = l) :
    ∀ u ∈ l[0]?, isLowSurrogate u = false := by
  intro u hu
  by_contra hlow
  match l with
  | [] => cases hu
  | [_] | _ :: _ :: _ =>
    obtain rfl := Option.some.inj hu
    simp [fromUtf16Lossy, isHighSurrogate, isLowSurrogate] at h hlow
    grind

lemma fromUtf16Lossy_drop {l : List ℕ} (h : fromUtf16Lossy l = l) (i : ℕ) :
    fromUtf16Lossy (l.drop i) = l.drop i ↔ ∀ u ∈ l[i]?, isLowSurrogate u = false := by
  cases i with
  | zero => simpa [h] using not_isLowSurrogate_head h
  | succ i =>
    induction l using fromUtf16Lossy.induct generalizing i with
    | case1 => simp [fromUtf16Lossy]
    | case2 u => simp [fromUtf16Lossy]
    | case3 u v rest hpair ih =>
      have hrest : fromUtf16Lossy rest = rest := by simpa [fromUtf16Lossy, hpair] using h
      match i with
      | 0 =>
        have hlow : isLowSurrogate v = true := by simp_all
        refine iff_of_false (fun hcut => ?_) (by simp [hlow])
        simpa [hlow] using not_isLowSurrogate_head hcut
      | 1 => simpa [hrest] using not_isLowSurrogate_head hrest
      | i + 2 => simpa using ih hrest i
    | case4 u v rest hpair ih =>
      have hrest : fromUtf16Lossy (v :: rest) = v :: rest := by
        rw [fromUtf16Lossy, if_neg hpair] at h
        exact (cons.inj h).2
      cases i with
      | zero => simpa [hrest] using not_isLowSurrogate_head hrest
      | succ i => simpa using ih hrest i

lemma input_eq {head removed typed tail : List ℕ} (hne : typed ≠ removed)
    (document : List ℕ) (start stop a b : ℕ) :
    let value := head ++ typed ++ tail
    let caret := head.length + typed.length
    let shared := commonLength removed typed
    ImeMirror.input ⟨head ++ removed ++ tail, start, stop⟩ ⟨value, caret, caret⟩ document
        (some (a, b)) =
      (ImeMirror.replaceTextInRange document (a - (start - (head.length + shared)),
        b + (head.length + removed.length - stop)) (fromUtf16Lossy (typed.drop shared)),
        ⟨value, caret, caret⟩) := by
  intro value caret shared
  have hvalue : value ≠ head ++ removed ++ tail := by simpa [value] using hne
  have hsuffix : value.length - caret = tail.length := by
    simp only [value, caret, length_append]
    omega
  have hold : (head ++ removed ++ tail).length - tail.length = head.length + removed.length := by
    simp only [length_append]
    omega
  have hnew : value.length - tail.length = caret := by
    simp only [value, caret, length_append]
    omega
  have hprefix : min (min (commonLength (head ++ removed ++ tail) value)
      (head.length + removed.length)) caret = head.length + shared := by
    have := @commonLength_within removed typed tail
    simp only [value, caret, append_assoc, commonLength_append, shared]
    omega
  have hinserted : (value.take caret).drop (head.length + shared) = typed.drop shared := by
    rw [take_left' (by simp [caret]), drop_append]
    simp
  have hanchored : (head ++ removed ++ tail).drop (head.length + removed.length) =
      value.drop caret := by
    rw [drop_left' (by simp), drop_left' (by simp [caret])]
  have hanchors : (some tail.length).filter (fun suffixLength =>
      suffixLength ≤ (head ++ removed ++ tail).length &&
        (head ++ removed ++ tail).drop ((head ++ removed ++ tail).length - suffixLength) =
          value.drop (value.length - suffixLength)) = some tail.length := by
    rw [Option.filter_some, if_pos]
    rw [hold, hnew, hanchored]
    simp
    omega
  simp only [ImeMirror.input, if_neg hvalue, Option.map_some, hsuffix, hanchors, Option.getD_some,
    hold, hnew, hprefix, hinserted]
  rfl

end

/-- The edit imported is the one made if and only if what was typed and what it replaced part no
later than where the selection began, and not inside of a character: text they share is not
replaced, but from the selection on it is removed. -/
theorem input_imports_iff {before head removed typed tail after : List ℕ} {start stop : ℕ}
    (htyped : fromUtf16Lossy typed = typed) (hstart : head.length ≤ start) (hle : start ≤ stop)
    (hstop : stop ≤ head.length + removed.length) :
    let value := head ++ typed ++ tail
    let caret := head.length + typed.length
    let result := ImeMirror.input ⟨head ++ removed ++ tail, start, stop⟩ ⟨value, caret, caret⟩
      (before ++ (head ++ removed ++ tail) ++ after)
      (some (before.length + start, before.length + stop))
    (result.1 = before ++ value ++ after ∧ result.2.text = value) ↔ typed = removed ∨
      ∃ i ≤ start - head.length, typed.take i = removed.take i ∧ typed[i]? ≠ removed[i]? ∧
        ∀ u ∈ typed[i]?, isLowSurrogate u = false := by
  intro value caret result
  by_cases hsame : typed = removed
  · simp [result, value, ImeMirror.input, hsame]
  have hcond : (∃ i ≤ start - head.length, typed.take i = removed.take i ∧
      typed[i]? ≠ removed[i]? ∧ ∀ u ∈ typed[i]?, isLowSurrogate u = false) ↔
      commonLength removed typed ≤ start - head.length ∧
        fromUtf16Lossy (typed.drop (commonLength removed typed)) =
          typed.drop (commonLength removed typed) := by
    rw [fromUtf16Lossy_drop htyped]
    constructor
    · rintro ⟨i, hi, htake, hget, hlow⟩
      obtain rfl := (parts_iff hsame i).mp ⟨htake, hget⟩
      exact ⟨hi, hlow⟩
    · rintro ⟨hi, hlow⟩
      obtain ⟨htake, hget⟩ := (parts_iff hsame _).mpr rfl
      exact ⟨_, hi, htake, hget, hlow⟩
  rw [or_iff_right hsame, hcond]
  simp only [result, value, caret, input_eq hsame, and_true, ImeMirror.replaceTextInRange]
  generalize hshared : commonLength removed typed = shared
  have htake := @take_commonLength removed typed
  rw [hshared] at htake
  have hstopEq : before.length + stop + (head.length + removed.length - stop) =
      before.length + head.length + removed.length := by omega
  have hdrop : (before ++ (head ++ removed ++ tail) ++ after).drop
      (before.length + head.length + removed.length) = tail ++ after := by
    rw [show before ++ (head ++ removed ++ tail) ++ after =
      (before ++ head ++ removed) ++ (tail ++ after) by simp, drop_left' (by simp [Nat.add_assoc])]
  rw [hstopEq, hdrop]
  have hshort : shared ≤ removed.length ∧ shared ≤ typed.length := by
    have := @commonLength_within removed typed []
    omega
  by_cases hbefore : shared ≤ start - head.length
  · have hfrom : before.length + start - (start - (head.length + shared)) =
        (before ++ head).length + shared := by
      rw [length_append]
      omega
    have hkept : (before ++ (head ++ removed ++ tail) ++ after).take ((before ++ head).length + shared) =
        before ++ head ++ typed.take shared := by
      rw [show before ++ (head ++ removed ++ tail) ++ after =
        (before ++ head) ++ (removed ++ (tail ++ after)) by simp, take_length_add_append,
        take_append_of_le_length hshort.1, htake]
    have hvalue : before ++ (head ++ typed ++ tail) ++ after =
        before ++ head ++ typed.take shared ++ typed.drop shared ++ (tail ++ after) := by
      conv_lhs => rw [← take_append_drop shared typed]
      simp only [append_assoc]
    rw [hfrom, hkept, hvalue, append_cancel_right_eq, append_cancel_left_eq, and_iff_right hbefore]
  · refine iff_of_false (fun heq => ?_) (fun hshape => hbefore hshape.1)
    have := congrArg length heq
    simp only [length_append, length_take, length_fromUtf16Lossy, length_drop] at this
    omega

theorem input_imports_insertion :
    let result := ImeMirror.input ⟨[97, 99], 1, 1⟩ ⟨[97, 98, 99], some 2, some 2⟩ [97, 99]
      (some (1, 1))
    result.1 = [97, 98, 99] ∧ result.2.text = [97, 98, 99] :=
  (@input_imports_iff [] [97] [] [98] [99] [] 1 1 (by decide) (by decide) (by decide)
    (by decide)).mpr (.inr ⟨0, by decide⟩)

/-- "teh" is selected and a suggestion replaces it by "the": "he" is left of it. -/
theorem input_loses_shared_start :
    (ImeMirror.input ⟨[116, 101, 104], 0, 3⟩ ⟨[116, 104, 101], some 3, some 3⟩ [116, 101, 104]
      (some (0, 3))).1 ≠ [116, 104, 101] := by
  decide

end GpuiFast
