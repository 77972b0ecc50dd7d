import GpuiFast.RelPathJoin

/-! A relative path is accepted if what is left of it, once `./` is stripped from its start and the
separators from its end, has no root and does not climb. That is not the path itself: a separator or
a drive behind `./` counts as a root, and a drive does not when only separators follow it. -/

namespace GpuiFast

open List Option WindowsPrefix

open PathBytes

def isNamed (s : PathBytes) : Bool := !(s = [] || s = [dot] || s = [dot, dot])

/-- Some first segments of these have more `..` than names. -/
def Climbs (segments : List PathBytes) : Prop :=
  ∃ start, start <+: segments ∧ start.countP isNamed < start.count [dot, dot]

lemma foldlM_resolve_eq_none (segments : List PathBytes) (names : List PathBytes) :
    segments.foldlM resolveStep names = none ↔
      ∃ start, start <+: segments ∧
        names.length + start.countP isNamed < start.count [dot, dot] := by
  induction segments generalizing names with
  | nil => simp [prefix_nil]
  | cons s segments ih =>
    have hcons : ∀ P : List PathBytes → Prop, ¬ P [] →
        ((∃ start, start <+: s :: segments ∧ P start) ↔
          ∃ start, start <+: segments ∧ P (s :: start)) := by
      intro P hnil
      constructor
      · rintro ⟨start, hstart, hP⟩
        rcases prefix_cons_iff.mp hstart with rfl | ⟨t, rfl, ht⟩
        · exact absurd hP hnil
        · exact ⟨t, ht, hP⟩
      · rintro ⟨start, hstart, hP⟩
        exact ⟨s :: start, prefix_cons_inj s |>.mpr hstart, hP⟩
    rw [hcons _ (by simp), foldlM_cons]
    by_cases hskip : s = [] ∨ s = [dot]
    · have hstep : resolveStep names s = some names := if_pos hskip
      have hnamed : isNamed s = false := by rcases hskip with rfl | rfl <;> decide
      have hdots : s ≠ [dot, dot] := by rcases hskip with rfl | rfl <;> decide
      rw [hstep]
      simp only [countP_cons, count_cons, hnamed, beq_iff_eq, hdots]
      exact ih names
    · by_cases hdots : s = [dot, dot]
      · subst hdots
        have hnamed : isNamed [dot, dot] = false := by decide
        simp only [countP_cons, count_cons, hnamed, beq_self_eq_true, if_true]
        rcases eq_nil_or_concat names with rfl | ⟨init, n, rfl⟩
        · have hstep : resolveStep [] [dot, dot] = none := by decide
          rw [hstep]
          simp only [true_iff, bind_eq_bind, bind_none]
          exact ⟨[], by simp, by simp⟩
        · have hstep : resolveStep (init.concat n) [dot, dot] = some init := by
            simp [resolveStep, dot]
          rw [hstep]
          simp only [bind_eq_bind, bind_some, ih, length_concat]
          apply exists_congr
          intro start
          simp only [Bool.false_eq_true, if_false]
          constructor <;> rintro ⟨h, hlt⟩ <;> exact ⟨h, by omega⟩
      · have hstep : resolveStep names s = some (names ++ [s]) := by
          rw [resolveStep, if_neg hskip, if_neg hdots]
        have hnamed : isNamed s = true := by
          simp only [not_or] at hskip
          simp [isNamed, hskip, hdots]
        rw [hstep]
        simp only [bind_eq_bind, bind_some, ih, length_append, length_cons, length_nil, countP_cons,
          count_cons, hnamed, if_true, beq_iff_eq, hdots, if_false]
        apply exists_congr
        intro start
        constructor <;> rintro ⟨h, hlt⟩ <;> exact ⟨h, by omega⟩

lemma resolve_eq_none_iff (style : PathStyle) (path : PathBytes) :
    resolve style path = none ↔ Climbs (path.splitOnP style.isSepByte) := by
  rw [resolve, foldlM_resolve_eq_none]
  simp [Climbs]

namespace PathStyle

variable {style : PathStyle}

def startsWithSep (style : PathStyle) (path : PathBytes) : Bool :=
  path.head?.any style.isSepByte

def startsWithDrive (style : PathStyle) (path : PathBytes) : Bool :=
  style = .windows && (parseDrive path).isSome

lemma not_drive_of_sep {path : PathBytes} (h : windows.startsWithSep path = true) :
    parseDrive path = none := by
  rw [eq_none_iff_forall_ne_some]
  intro d hd
  obtain ⟨x, y, t, rfl, -, halpha, -⟩ := parseDrive_length hd
  simp only [startsWithSep, head?_cons, any_some, isSepByte,
    WindowsPrefix.isSepByte, Bool.or_eq_true, decide_eq_true_eq] at h
  rcases h with rfl | rfl <;> exact absurd halpha (by decide)

lemma parsePrefix_of_not_sep {path : PathBytes} (h : windows.startsWithSep path = false) :
    WindowsPrefix.parsePrefix path = (parseDrive path).map .disk := by
  have hstart : startsWithAt path 0 [backslash, backslash] = false := by
    rw [Bool.eq_false_iff, Ne, startsWithAt_iff (by simp)]
    intro heq
    cases path with
    | nil => simp at heq
    | cons b path =>
      simp only [startsWithSep, head?_cons, any_some, isSepByte,
        WindowsPrefix.isSepByte, Bool.or_eq_false_iff, decide_eq_false_iff_not] at h
      simp only [drop_zero, length_cons, take_succ_cons, map_cons, List.cons.injEq] at heq
      rw [if_neg h.2] at heq
      exact h.1 heq.1
  rw [WindowsPrefix.parsePrefix, hstart, if_neg (by simp)]

lemma hasRoot_of_sep {path : PathBytes} (h : style.startsWithSep path = true) :
    style.hasRoot path = true := by
  unfold hasRoot hasPhysicalRoot prefixLen
  cases style with
  | unix =>
    simp only [parsePrefix, map_none, getD_none, drop_zero, any_none, Bool.or_false]
    exact h
  | windows =>
    rw [parsePrefix]
    cases hp : WindowsPrefix.parsePrefix path with
    | none =>
      simp only [map_none, getD_none, drop_zero, any_none, Bool.or_false]
      exact h
    | some p =>
      have hdrive : p.isDrive = false := by
        rcases parsePrefix_cases hp with ⟨-, d, hd, rfl⟩ | ⟨-, hrest⟩
        · rw [not_drive_of_sep h] at hd
          exact absurd hd (by simp)
        · cases p with
          | disk d => simp at hrest
          | _ => rfl
      simp [PathPrefix.hasImplicitRoot, hdrive]

variable (path : PathBytes)

lemma hasRoot_eq : style.hasRoot path =
    (style.startsWithSep path ||
      style.startsWithDrive path && style.startsWithSep (path.drop 2)) := by
  cases hsep : style.startsWithSep path with
  | true => rw [hasRoot_of_sep hsep, Bool.true_or]
  | false =>
    unfold hasRoot hasPhysicalRoot prefixLen
    cases style with
    | unix =>
      simp only [startsWithSep] at hsep
      simp [parsePrefix, startsWithDrive, hsep]
    | windows =>
      rw [parsePrefix, parsePrefix_of_not_sep hsep]
      cases hd : parseDrive path with
      | none =>
        simp only [startsWithSep] at hsep
        simp [startsWithDrive, hd, hsep]
      | some d =>
        simp [startsWithDrive, startsWithSep, hd, PathPrefix.len, PathPrefix.hasImplicitRoot,
          PathPrefix.isDrive]

lemma rooted_or_prefixed_iff :
    (style.hasRoot path = false ∧ style.parsePrefix path = none) ↔
      style.startsWithSep path = false ∧ style.startsWithDrive path = false := by
  rw [hasRoot_eq]
  cases hsep : style.startsWithSep path with
  | true => simp
  | false =>
    cases style with
    | unix => simp [startsWithDrive, parsePrefix]
    | windows =>
      rw [parsePrefix, parsePrefix_of_not_sep hsep]
      cases hd : parseDrive path <;> simp [startsWithDrive, hd]

def rootedDrive (style : PathStyle) (path : PathBytes) : Bool :=
  style.startsWithDrive path && style.startsWithSep (path.drop 2) &&
    (path.drop 2).any (fun b => !style.isSepByte b)

variable {l : PathBytes}

lemma startsWithSep_append {rest : PathBytes} (h : l ≠ []) :
    style.startsWithSep (l ++ rest) = style.startsWithSep l := by
  rw [startsWithSep, startsWithSep, head?_append_of_ne_nil _ h]

lemma startsWithSep_trimmed {seps : PathBytes} (hl : ∀ b, l.getLast? = some b →
      style.isSepByte b = false) (hseps : ∀ b ∈ seps, style.isSepByte b = true) :
    style.startsWithSep l =
      (style.startsWithSep (l ++ seps) && (l ++ seps).any (fun b => !style.isSepByte b)) := by
  rcases eq_nil_or_concat l with rfl | ⟨init, b, rfl⟩
  · have hnone : seps.any (fun b => !style.isSepByte b) = false := by
      rw [List.any_eq_false]
      intro b hb
      simp [hseps b hb]
    simp [hnone, startsWithSep]
  · have hb := hl b (by simp)
    rw [startsWithSep_append (by simp)]
    simp [hb]

lemma stripEnd_head (style : PathStyle) (path : PathBytes) :
    style.startsWithSep (RelPath.stripEnd style path) = style.startsWithSep path := by
  cases path <;> rfl

lemma stripEnd_drive {x y : UInt8} (t : PathBytes) (hy : style.isSepByte y = false) :
    ∃ l seps, RelPath.stripEnd style (x :: y :: t) = x :: y :: l ∧ t = l ++ seps ∧
      (∀ b, l.getLast? = some b → style.isSepByte b = false) ∧
      ∀ b ∈ seps, style.isSepByte b = true := by
  refine ⟨(t.reverse.dropWhile style.isSepByte).reverse,
    (t.reverse.takeWhile style.isSepByte).reverse, ?_, ?_, ?_, ?_⟩
  · rw [RelPath.stripEnd, reverse_cons, dropWhile_append]
    split
    · rename_i hempty
      rw [List.isEmpty_iff.mp hempty]
      simp [hy]
    · simp
  · rw [← reverse_append, takeWhile_append_dropWhile, reverse_reverse]
  · intro b hb
    rw [getLast?_reverse] at hb
    have := head?_dropWhile_not style.isSepByte t.reverse
    rw [hb] at this
    simpa using this
  · intro b hb
    exact mem_takeWhile_imp (mem_reverse.mp hb)

lemma startsWithDrive_iff :
    style.startsWithDrive path = true ↔ style = windows ∧ ∃ x t, path = x :: colon :: t ∧
      isAsciiAlphabetic x = true := by
  unfold startsWithDrive
  rw [Bool.and_eq_true, decide_eq_true_eq, isSome_iff_exists]
  apply and_congr_right
  intro _
  constructor
  · rintro ⟨d, hd⟩
    obtain ⟨x, y, t, rfl, rfl, halpha, -⟩ := parseDrive_length hd
    exact ⟨x, t, rfl, halpha⟩
  · rintro ⟨x, t, rfl, halpha⟩
    exact ⟨_, by rw [parseDrive, if_pos ⟨rfl, halpha⟩]⟩

lemma colon_not_sep : style.isSepByte colon = false := by
  cases style <;> decide

lemma startsWithDrive_stripEnd :
    style.startsWithDrive (RelPath.stripEnd style path) = style.startsWithDrive path := by
  rw [Bool.eq_iff_iff, startsWithDrive_iff, startsWithDrive_iff]
  apply and_congr_right
  intro _
  constructor
  · rintro ⟨x, t, hstrip, halpha⟩
    obtain ⟨seps, happ, -⟩ := stripEnd_append style path
    rw [hstrip] at happ
    exact ⟨x, t ++ seps, happ, halpha⟩
  · rintro ⟨x, t, rfl, halpha⟩
    obtain ⟨l, seps, hstrip, -⟩ := @stripEnd_drive style x _ t colon_not_sep
    exact ⟨x, l, hstrip, halpha⟩

lemma hasRoot_stripEnd :
    style.hasRoot (RelPath.stripEnd style path) =
      (style.startsWithSep path || style.rootedDrive path) := by
  rw [hasRoot_eq, stripEnd_head, startsWithDrive_stripEnd, rootedDrive]
  cases hdrive : style.startsWithDrive path with
  | false => simp
  | true =>
    obtain ⟨-, x, t, rfl, -⟩ := (startsWithDrive_iff path).mp hdrive
    obtain ⟨l, seps, hstrip, rfl, hl, hseps⟩ :=
      @stripEnd_drive style x _ t colon_not_sep
    rw [hstrip]
    simp only [drop_succ_cons, drop_zero, Bool.true_and]
    rw [startsWithSep_trimmed hl hseps]

end PathStyle

namespace RelPath

inductive UnixPathError where
  | new (error : RelPathError)
  | invalidRelativePath (path : PathBytes)

def isReformatted (style : PathStyle) (path : PathBytes) : Bool :=
  let path := stripEnd style (stripStart style path)
  style = .windows && path.contains backslash ||
    (components (withSlashes style path)).any (fun c => c = [] ∨ c = [dot] ∨ c = [dot, dot])

def fromUnixStr (path : PathBytes) : Except UnixPathError PathBytes :=
  match RelPath.new .unix path with
  | .error error => .error (.new error)
  | .ok result =>
    if isReformatted .unix path then .error (.invalidRelativePath path) else .ok result

/-- A path is accepted just if it has neither root nor prefix and does not climb, and the result is
its names with slashes between them, which is a path as it is. -/
structure AcceptsRelative (style : PathStyle) (path : PathBytes) : Prop where
  accepts : (∃ r, RelPath.new style path = .ok r) ↔
    (style.hasRoot path = false ∧ style.parsePrefix path = none) ∧
      ¬ Climbs (path.splitOnP style.isSepByte)
  result : ∀ r, RelPath.new style path = .ok r →
    (∃ names, resolve style path = some names ∧ r = joinSegments slash names) ∧
      fromUnixStr r = .ok r

/-- A drive has a separator and more behind it, and what is behind `./` begins with no separator and
no such drive. -/
def ReadsAsWritten (style : PathStyle) (path : PathBytes) : Prop :=
  (style.startsWithDrive path = true → style.rootedDrive path = true) ∧
  (stripStart style path ≠ path →
    style.startsWithSep (stripStart style path) = false ∧
      style.rootedDrive (stripStart style path) = false)

variable {style : PathStyle}

variable {path : PathBytes}

lemma stripStart_eq_self (h : style.includeCurDir path = false) : stripStart style path = path := by
  match path, h with
  | [], _ => rfl
  | [b], _ => rfl
  | b :: c :: path, h =>
    rw [stripStart, if_neg]
    rintro ⟨hb, hc⟩
    simp [PathStyle.includeCurDir, hb, hc] at h

lemma stripEnd_eq_self (h : ∀ b, path.getLast? = some b → style.isSepByte b = false) :
    stripEnd style path = path := by
  rcases eq_nil_or_concat path with rfl | ⟨l, b, rfl⟩
  · rfl
  · have hb := h b (by simp)
    rw [concat_eq_append]
    cases l with
    | nil => rfl
    | cons c l => simp [stripEnd, hb]

variable {names : List PathBytes}

lemma getLast?_joinSegments {sep : UInt8} {b : UInt8} (hnames : ∀ n ∈ names, IsName style n)
    (h : (joinSegments sep names).getLast? = some b) : style.isSepByte b = false := by
  rcases eq_nil_or_concat names with rfl | ⟨init, n, rfl⟩
  · simp [joinSegments] at h
  · rw [concat_eq_append] at h hnames
    have hn := hnames n (by simp)
    have hlast : n.getLast? = some b := by
      by_cases hinit : init = []
      · rw [hinit] at h
        exact h
      · rw [joinSegments_concat n hinit] at h
        obtain ⟨c, l, rfl⟩ := exists_cons_of_ne_nil hn.ne_nil
        rw [getLast?_append_of_ne_nil _ (by simp)] at h
        simpa using h
    exact hn.no_sep b (mem_of_getLast? hlast)

lemma isName_unix {n : PathBytes} (h : IsName style n) : IsName .unix n := by
  refine ⟨h.ne_nil, h.ne_dot, h.ne_dots, ?_⟩
  intro b hb
  have hne : b ≠ slash := fun hslash => h.no_slash (hslash ▸ hb)
  simpa [PathStyle.isSepByte] using hne

lemma fromUnixStr_joinSegments (h : ∀ n ∈ names, IsName style n) :
    fromUnixStr (joinSegments slash names) = .ok (joinSegments slash names) := by
  have hunix : ∀ n ∈ names, IsName .unix n := fun n hn => isName_unix (h n hn)
  have hstart : stripStart .unix (joinSegments slash names) = joinSegments slash names :=
    stripStart_eq_self (PathStyle.includeCurDir_names hunix)
  have hend : stripEnd .unix (joinSegments slash names) = joinSegments slash names :=
    stripEnd_eq_self (fun b hb => getLast?_joinSegments hunix hb)
  have hspecial : (components (withSlashes .unix (joinSegments slash names))).any
      (fun c => c = [] ∨ c = [dot] ∨ c = [dot, dot]) = false := by
    change (components (joinSegments slash names)).any _ = false
    rw [PathStyle.relPathComponents_joinSegments hunix, List.any_eq_false]
    intro n hn
    simp [(h n hn).ne_nil, (h n hn).ne_dot, (h n hn).ne_dots]
  have hroot : PathStyle.unix.hasRoot
      (stripEnd .unix (stripStart .unix (joinSegments slash names))) = false := by
    rw [hstart, hend]
    exact PathStyle.hasRoot_names hunix rfl
  have hnew : RelPath.new .unix (joinSegments slash names) = .ok (joinSegments slash names) := by
    rw [new_of_rootless hroot, hstart, hend, hspecial]
    rfl
  have hsame : isReformatted .unix (joinSegments slash names) = false := by
    unfold isReformatted
    dsimp only
    rw [hstart, hend, hspecial]
    rfl
  unfold fromUnixStr
  rw [hnew]
  simp [hsame]

lemma head_of_stripStart (h : stripStart style path ≠ path) : ∃ t, path = dot :: t := by
  match path, h with
  | [], h => exact absurd rfl h
  | [b], h => exact absurd rfl h
  | b :: c :: path, h =>
    rw [stripStart] at h
    split at h
    · rename_i hbc
      exact ⟨c :: path, by rw [hbc.1]⟩
    · exact absurd rfl h

/-- A path is accepted as a relative one just when it climbs anyway, or reads as it is written. -/
theorem acceptsRelative_iff (style : PathStyle) (path : PathBytes) :
    AcceptsRelative style path ↔
      Climbs (path.splitOnP style.isSepByte) ∨ ReadsAsWritten style path := by
  have hresult : ∀ r, RelPath.new style path = .ok r →
      (∃ names, resolve style path = some names ∧ r = joinSegments slash names) ∧
        fromUnixStr r = .ok r := by
    intro r hr
    obtain ⟨names, hres, rfl⟩ := new_eq hr
    exact ⟨⟨names, hres, rfl⟩, fromUnixStr_joinSegments (resolve_names hres)⟩
  have haccepts : AcceptsRelative style path ↔
      (style.hasRoot (stripEnd style (stripStart style path)) = false ∧
          resolve style path ≠ none ↔
        (style.hasRoot path = false ∧ style.parsePrefix path = none) ∧
          ¬ Climbs (path.splitOnP style.isSepByte)) := by
    rw [← new_isOk_iff]
    exact ⟨fun h => h.accepts, fun h => ⟨h, hresult⟩⟩
  rw [haccepts, PathStyle.hasRoot_stripEnd, PathStyle.rooted_or_prefixed_iff, Ne,
    resolve_eq_none_iff]
  by_cases hclimbs : Climbs (path.splitOnP style.isSepByte)
  · simp [hclimbs]
  · simp only [hclimbs, not_false_eq_true, and_true, false_or, Bool.or_eq_false_iff, ReadsAsWritten]
    by_cases hstrip : stripStart style path = path
    · rw [hstrip]
      have hsep : style.startsWithSep path = true → style.startsWithDrive path = false := by
        intro hsep
        cases style with
        | unix => rfl
        | windows =>
          rw [PathStyle.startsWithDrive, PathStyle.not_drive_of_sep hsep]
          rfl
      cases hdrive : style.startsWithDrive path with
      | false => simp [PathStyle.rootedDrive, hdrive]
      | true =>
        have hnosep : style.startsWithSep path = false := by
          cases h : style.startsWithSep path with
          | false => rfl
          | true => exact absurd (hsep h) (by simp [hdrive])
        simp [hnosep]
    · obtain ⟨t, ht⟩ := head_of_stripStart hstrip
      have hnosep : style.startsWithSep path = false := by
        rw [ht]
        cases style <;> rfl
      have hnodrive : style.startsWithDrive path = false := by
        rw [Bool.eq_false_iff, Ne, PathStyle.startsWithDrive_iff]
        rintro ⟨-, x, l, hpath, halpha⟩
        rw [ht, List.cons.injEq] at hpath
        rw [← hpath.1] at halpha
        exact absurd halpha (by decide)
      simp [hstrip, hnosep, hnodrive]

/-- `C:\` is accepted. -/
theorem not_acceptsRelative_drive :
    ¬ ∀ (style : PathStyle) (path : PathBytes), AcceptsRelative style path := by
  intro hall
  have hnew : RelPath.new .windows [67, 58, 92] = .ok [67, 58] := by decide
  have hroot := ((hall .windows [67, 58, 92]).accepts.mp ⟨[67, 58], hnew⟩).1.1
  exact absurd hroot (by decide)

end RelPath

end GpuiFast
