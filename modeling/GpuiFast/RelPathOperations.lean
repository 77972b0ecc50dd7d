import GpuiFast.RelPathJoin

/-! The operations work on the text: prefixes and suffixes are stripped from it, components are taken
from either end and ancestors are its beginnings. On the text of names they are operations on the
names. -/

namespace GpuiFast

open List

open PathBytes

namespace RelPath

def nextComponent (path : PathBytes) : Option (PathBytes × PathBytes) :=
  if slash ∈ path then some (path.takeWhile (· ≠ slash), (path.dropWhile (· ≠ slash)).drop 1)
  else if path.isEmpty then none
  else some (path, [])

def nextBackComponent (path : PathBytes) : Option (PathBytes × PathBytes) :=
  if slash ∈ path then
    some ((path.reverse.takeWhile (· ≠ slash)).reverse,
      ((path.reverse.dropWhile (· ≠ slash)).drop 1).reverse)
  else if path.isEmpty then none
  else some (path, [])

def fileName (path : PathBytes) : Option PathBytes := (nextBackComponent path).map Prod.fst

def parent (path : PathBytes) : Option PathBytes := (nextBackComponent path).map Prod.snd

def len (path : PathBytes) : ℕ := if path.isEmpty then 0 else path.count slash + 1

def dropComponents : ℕ → PathBytes → Option PathBytes
  | 0, path => some path
  | count + 1, path => (nextComponent path).bind (fun next => dropComponents count next.2)

def lastNComponents (path : PathBytes) (count : ℕ) : Option PathBytes :=
  if len path ≥ count then dropComponents (len path - count) path else none

def stripPrefix (path other : PathBytes) : Option PathBytes :=
  if other.isEmpty then some path
  else
    match other.isPrefixOf? path with
    | some [] => some []
    | some (b :: suffix) => if b = slash then some suffix else none
    | none => none

def startsWith (path other : PathBytes) : Bool := (stripPrefix path other).isSome

def endsWith (path other : PathBytes) : Bool :=
  if other.isEmpty then true
  else
    match other.isSuffixOf? path with
    | some suffix => suffix.getLast? = some slash || suffix.isEmpty
    | none => false

def join (path other : PathBytes) : PathBytes :=
  if path.isEmpty then other
  else if other.isEmpty then path
  else path ++ [slash] ++ other

def pushComponent (path component : PathBytes) : Option PathBytes :=
  if !component.isEmpty ∧ slash ∉ component ∧ component ≠ [dot] ∧ component ≠ [dot, dot] then
    some ((if path.isEmpty then path else path ++ [slash]) ++ component)
  else none

def rsplitFileAtDot (file : PathBytes) : Option PathBytes × Option PathBytes :=
  if file = [dot, dot] then (some file, none)
  else if dot ∈ file then
    let before := ((file.reverse.dropWhile (· ≠ dot)).drop 1).reverse
    let after := (file.reverse.takeWhile (· ≠ dot)).reverse
    if before = [] then (some file, none) else (some before, some after)
  else (none, some file)

def fileStem (file : PathBytes) : Option PathBytes :=
  match rsplitFileAtDot file with
  | (some before, _) => some before
  | (none, after) => after

def Extension := { extension : PathBytes // slash ∉ extension }

/-- A file name with another extension, as a path of its own; `.` and `..` have none. -/
def withExtension (file : PathBytes) (extension : Extension) : PathBytes :=
  if file = [dot] ∨ file = [dot, dot] then file
  else
    match fileStem file with
    | none => file
    | some stem => if extension.1.isEmpty then stem else stem ++ [dot] ++ extension.1

def setExtension (path : PathBytes) (extension : Extension) : Option PathBytes :=
  (fileName path).map (fun file =>
    push ((pop path).getD path) (withExtension file extension))

def rfindSlash (path : PathBytes) : Option ℕ :=
  if slash ∈ path then some (((path.reverse.dropWhile (· ≠ slash)).drop 1).length) else none

def findSlash (path : PathBytes) : Option ℕ :=
  if slash ∈ path then some (path.takeWhile (· ≠ slash)).length else none

structure Ancestors where
  full : PathBytes
  front : ℕ
  back : ℕ
  done : Bool

def ancestors (path : PathBytes) : Ancestors := ⟨path, path.length, 0, false⟩

namespace Ancestors

def next (self : Ancestors) : Option PathBytes × Ancestors :=
  if self.done then (none, self)
  else
    let result := self.full.take self.front
    if self.front = self.back then (some result, { self with done := true })
    else (some result, { self with front := (rfindSlash result).getD 0 })

def nextBack (self : Ancestors) : Option PathBytes × Ancestors :=
  if self.done then (none, self)
  else
    let result := self.full.take self.back
    if self.front = self.back then (some result, { self with done := true })
    else
      let searchStart := if self.back = 0 then 0 else self.back + 1
      match findSlash (self.full.drop searchStart) with
      | some sepIx => (some result, { self with back := searchStart + sepIx })
      | none => (some result, { self with back := self.full.length })

end Ancestors

section Names

variable {names : List PathBytes} {n : PathBytes}

lemma takeWhile_name (hn : slash ∉ n) (rest : PathBytes) :
    (n ++ slash :: rest).takeWhile (· ≠ slash) = n := by
  apply WindowsPrefix.takeWhile_append_cons
  · intro b hb
    have hne : b ≠ slash := fun h => hn (h ▸ hb)
    simpa using hne
  · simp

lemma dropWhile_name (hn : slash ∉ n) (rest : PathBytes) :
    (n ++ slash :: rest).dropWhile (· ≠ slash) = slash :: rest := by
  apply WindowsPrefix.dropWhile_append_cons
  · intro b hb
    have hne : b ≠ slash := fun h => hn (h ▸ hb)
    simpa using hne
  · simp

theorem nextComponent_cons (hn : IsName .unix n) (names : List PathBytes) :
    nextComponent (joinSegments slash (n :: names)) = some (n, joinSegments slash names) := by
  cases names with
  | nil =>
    change nextComponent n = some (n, [])
    unfold nextComponent
    rw [if_neg hn.no_slash, if_neg (by simp [hn.ne_nil])]
  | cons t names =>
    rw [joinSegments_cons n (by simp)]
    unfold nextComponent
    rw [if_pos (by simp), takeWhile_name hn.no_slash, dropWhile_name hn.no_slash]
    rfl

theorem nextBackComponent_nil : nextBackComponent (joinSegments slash []) = none := rfl

theorem nextBackComponent_concat (hn : IsName .unix n) (names : List PathBytes) :
    nextBackComponent (joinSegments slash (names ++ [n])) = some (n, joinSegments slash names) := by
  by_cases hnil : names = []
  · subst hnil
    change nextBackComponent n = some (n, [])
    unfold nextBackComponent
    rw [if_neg hn.no_slash, if_neg (by simp [hn.ne_nil])]
  · have hreverse : (joinSegments slash names ++ slash :: n).reverse =
        n.reverse ++ slash :: (joinSegments slash names).reverse := by simp
    have hn' : slash ∉ n.reverse := by simpa using hn.no_slash
    rw [joinSegments_concat n hnil]
    unfold nextBackComponent
    rw [if_pos (by simp), hreverse, takeWhile_name hn', dropWhile_name hn']
    simp

theorem fileName_concat (hn : IsName .unix n) (names : List PathBytes) :
    fileName (joinSegments slash (names ++ [n])) = some n := by
  unfold fileName
  rw [nextBackComponent_concat hn]
  rfl

theorem parent_concat (hn : IsName .unix n) (names : List PathBytes) :
    parent (joinSegments slash (names ++ [n])) = some (joinSegments slash names) := by
  unfold parent
  rw [nextBackComponent_concat hn]
  rfl

theorem len_joinSegments (h : ∀ n ∈ names, IsName .unix n) :
    len (joinSegments slash names) = names.length := by
  cases names with
  | nil => rfl
  | cons n names =>
    have hcount : ∀ (names : List PathBytes) (n : PathBytes), IsName .unix n →
        (∀ m ∈ names, IsName .unix m) →
        (joinSegments slash (n :: names)).count slash = names.length := by
      intro names
      induction names with
      | nil =>
        intro n hn _
        exact count_eq_zero.mpr hn.no_slash
      | cons m names ih =>
        intro n hn hnames
        rw [joinSegments_cons n (by simp), count_append, count_cons_self,
          ih m (hnames m (by simp)) (fun k hk => hnames k (by simp [hk])),
          count_eq_zero.mpr hn.no_slash, length_cons]
        omega
    have hne : joinSegments slash (n :: names) ≠ [] := by
      rw [Ne, joinSegments_eq_nil h]
      simp
    unfold len
    rw [if_neg (by simpa using hne), hcount names n (h n (by simp)) (fun m hm => h m (by simp [hm]))]
    rfl

variable (count : ℕ) {other : List PathBytes}

theorem dropComponents_joinSegments (h : ∀ n ∈ names, IsName .unix n)
    (hcount : count ≤ names.length) :
    dropComponents count (joinSegments slash names) =
      some (joinSegments slash (names.drop count)) := by
  induction count generalizing names with
  | zero => rfl
  | succ count ih =>
    cases names with
    | nil => simp at hcount
    | cons n names =>
      rw [dropComponents, nextComponent_cons (h n (by simp))]
      exact ih (fun m hm => h m (by simp [hm])) (by simpa using hcount)

theorem lastNComponents_joinSegments (h : ∀ n ∈ names, IsName .unix n) :
    lastNComponents (joinSegments slash names) count =
      if count ≤ names.length then
        some (joinSegments slash (names.drop (names.length - count)))
      else none := by
  unfold lastNComponents
  rw [len_joinSegments h]
  split
  · rw [dropComponents_joinSegments _ h (by omega)]
  · rfl

theorem joinSegments_append (hnames : names ≠ []) (hother : other ≠ []) :
    joinSegments slash (names ++ other) =
      joinSegments slash names ++ slash :: joinSegments slash other := by
  induction names with
  | nil => exact absurd rfl hnames
  | cons n names ih =>
    by_cases hnil : names = []
    · subst hnil
      exact joinSegments_cons n hother
    · rw [cons_append, joinSegments_cons n (by simp [hnil]), ih hnil, joinSegments_cons n hnil]
      simp

theorem join_joinSegments (h : ∀ n ∈ names, IsName .unix n) (hother : ∀ n ∈ other, IsName .unix n) :
    join (joinSegments slash names) (joinSegments slash other) =
      joinSegments slash (names ++ other) := by
  unfold join
  simp only [List.isEmpty_iff, joinSegments_eq_nil h, joinSegments_eq_nil hother]
  split_ifs with hnil hnil'
  · rw [hnil, nil_append]
  · rw [hnil', append_nil]
  · rw [joinSegments_append hnil hnil']
    simp

end Names

end RelPath

end GpuiFast
