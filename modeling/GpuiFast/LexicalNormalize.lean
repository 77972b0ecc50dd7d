import GpuiFast.RelPathAccept
import Mathlib.Data.List.Chain

/-! The components of a path without `.`, each `..` taken with the name before it, written down again.
The text is read by its beginning, which names that come first can change: one that reads as a drive
is one, and a verbatim server without share takes the first name for it. -/

namespace GpuiFast

open List Option

open PathBytes

namespace PathStyle

def normalizeComponent (normalized : List PathComponent) : PathComponent → List PathComponent
  | .curDir => normalized
  | .parentDir =>
    match normalized.getLast? with
    | some (.normal _) => normalized.dropLast
    -- there is no parent above a root, so the attempt is discarded
    | some .rootDir => normalized
    | _ => normalized ++ [.parentDir]
  | component => normalized ++ [component]

def normalizeComponents (components : List PathComponent) : List PathComponent :=
  components.foldl normalizeComponent []

/-- Writes one component after others, with the text of the prefix given. -/
def collectComponent (style : PathStyle) (raw : PathBytes) (result : PathBytes × Bool)
    (component : PathComponent) : PathBytes × Bool :=
  match component with
  | .pathPrefix _ | .rootDir => (result.1 ++ style.asOsStr raw component, false)
  | _ =>
    ((if result.2 then result.1 ++ [style.primarySeparator] else result.1) ++
      style.asOsStr raw component, true)

def collectComponents (style : PathStyle) (raw : PathBytes) (components : List PathComponent) :
    PathBytes :=
  (components.foldl (style.collectComponent raw) ([], false)).1

def normalizeLexically (style : PathStyle) (path : PathBytes) : PathBytes :=
  let normalized := normalizeComponents (style.components path)
  if normalized.isEmpty && !path.isEmpty then [dot]
  else style.collectComponents (path.take (style.prefixLen path)) normalized

structure IsSegment (style : PathStyle) (v : Bool) (s : PathBytes) : Prop where
  ne_nil : s ≠ []
  ne_dot : s ≠ [dot]
  ne_dots : s ≠ [dot, dot]
  no_sep : ∀ b ∈ s, style.separates v b = false

/-- The text of `..` some times, and of names. -/
def texts (ups : ℕ) (names : List PathBytes) : List PathBytes :=
  List.replicate ups [dot, dot] ++ names

/-- `..` some times, and names. -/
def settled (ups : ℕ) (names : List PathBytes) : List PathComponent :=
  List.replicate ups .parentDir ++ names.map .normal

variable {style : PathStyle}

lemma settled_concat (ups : ℕ) (names : List PathBytes) (n : PathBytes) :
    settled ups (names ++ [n]) = settled ups names ++ [.normal n] := by
  simp [settled]

variable {l : List PathComponent} {v : Bool} {base : List PathComponent} {ups : ℕ}
  {names : List PathBytes} {path : PathBytes} {p : PathPrefix} {text : PathBytes}

lemma normalize_root (h : l.getLast? = some .rootDir) : normalizeComponent l .parentDir = l := by
  simp [normalizeComponent, h]

lemma normalize_up (hnormal : ∀ n, l.getLast? ≠ some (.normal n))
    (hroot : l.getLast? ≠ some .rootDir) : normalizeComponent l .parentDir = l ++ [.parentDir] := by
  cases hlast : l.getLast? with
  | none => simp [normalizeComponent, hlast]
  | some c =>
    cases c with
    | normal n => exact absurd hlast (hnormal n)
    | rootDir => exact absurd hlast hroot
    | _ => simp [normalizeComponent, hlast]

lemma normalizeComponent_settled {s : PathBytes} {c : PathComponent}
    (hs : ∀ b ∈ s, style.separates v b = false) (hc : parseSingleComponent v s = some c)
    (hbase : base.getLast? = some .rootDir → ups = 0)
    (hnormal : ∀ n, base.getLast? ≠ some (.normal n)) (hnames : ∀ n ∈ names, IsSegment style v n) :
    ∃ ups' names', normalizeComponent (base ++ settled ups names) c =
        base ++ settled ups' names' ∧ (base.getLast? = some .rootDir → ups' = 0) ∧
      ∀ n ∈ names', IsSegment style v n := by
  unfold parseSingleComponent at hc
  split_ifs at hc with hdot hv hdots hnil
  · obtain rfl := some.inj hc
    exact ⟨ups, names, rfl, hbase, hnames⟩
  · obtain rfl := some.inj hc
    rcases eq_nil_or_concat names with rfl | ⟨init, n, rfl⟩
    · cases ups with
      | zero =>
        have hempty : base ++ settled 0 [] = base := by simp [settled]
        rw [hempty]
        by_cases hroot : base.getLast? = some .rootDir
        · exact ⟨0, [], by rw [normalize_root hroot, hempty], fun _ => rfl, by simp⟩
        · exact ⟨1, [], by simp [normalize_up hnormal hroot, settled],
            fun hlast => absurd hlast hroot, by simp⟩
      | succ ups =>
        refine ⟨ups + 1 + 1, [], ?_, fun hlast => absurd (hbase hlast) (by omega), by simp⟩
        have hsettled : settled (ups + 1) [] = List.replicate ups .parentDir ++ [.parentDir] := by
          simp [settled, replicate_succ']
        have hnext : settled (ups + 1 + 1) [] = settled (ups + 1) [] ++ [.parentDir] := by
          simp [settled, replicate_succ']
        rw [hnext, ← append_assoc]
        apply normalize_up <;> simp [hsettled, ← append_assoc]
    · refine ⟨ups, init, ?_, hbase, fun m hm => hnames m (by simp [hm])⟩
      unfold normalizeComponent
      rw [concat_eq_append, settled_concat, ← append_assoc, getLast?_concat, dropLast_concat]
  · obtain rfl := some.inj hc
    refine ⟨ups, names ++ [s], ?_, hbase, ?_⟩
    · rw [settled_concat, ← append_assoc]
      rfl
    · intro n hn
      rcases mem_append.mp hn with hn | hn
      · exact hnames n hn
      · obtain rfl := mem_singleton.mp hn
        exact ⟨hnil, hdot, hdots, hs⟩

lemma normalize_body (body : PathBytes) (hnormal : ∀ n, base.getLast? ≠ some (.normal n)) :
    ∃ ups names, (style.bodyComponents v body).foldl normalizeComponent base =
        base ++ settled ups names ∧ (base.getLast? = some .rootDir → ups = 0) ∧
      ∀ n ∈ names, IsSegment style v n := by
  have hall : ∀ segments : List PathBytes, (∀ s ∈ segments, ∀ b ∈ s,
      style.separates v b = false) → ∀ ups names, (base.getLast? = some .rootDir → ups = 0) →
      (∀ n ∈ names, IsSegment style v n) →
      ∃ ups' names', (segments.filterMap (parseSingleComponent v)).foldl normalizeComponent
          (base ++ settled ups names) = base ++ settled ups' names' ∧
        (base.getLast? = some .rootDir → ups' = 0) ∧ ∀ n ∈ names', IsSegment style v n := by
    intro segments
    induction segments with
    | nil => exact fun _ ups names hups hnames => ⟨ups, names, rfl, hups, hnames⟩
    | cons s segments ih =>
      intro hsegments ups names hups hnames
      have hrest : ∀ t ∈ segments, ∀ b ∈ t, style.separates v b = false :=
        fun t ht => hsegments t (by simp [ht])
      cases hc : parseSingleComponent v s with
      | none =>
        rw [filterMap_cons_none hc]
        exact ih hrest ups names hups hnames
      | some c =>
        rw [filterMap_cons_some hc, foldl_cons]
        obtain ⟨ups', names', hstep, hups', hnames'⟩ :=
          normalizeComponent_settled (hsegments s (by simp)) hc hups hnormal hnames
        rw [hstep]
        exact ih hrest ups' names' hups' hnames'
  have hstart := hall (body.splitOnP (style.separates v)) (fun _ hs => mem_splitOnP hs) 0 []
    (fun _ => rfl) (by simp)
  have hempty : base ++ settled 0 [] = base := by simp [settled]
  rwa [hempty] at hstart

lemma normalize_settled (names : List PathBytes) (hups : base.getLast? = some .rootDir → ups = 0)
    (hnormal : ∀ n, base.getLast? ≠ some (.normal n)) :
    (settled ups names).foldl normalizeComponent base = base ++ settled ups names := by
  have hup : ∀ ups, (base.getLast? = some .rootDir → ups = 0) →
      (List.replicate ups PathComponent.parentDir).foldl normalizeComponent base =
        base ++ List.replicate ups .parentDir := by
    intro ups
    induction ups with
    | zero => simp
    | succ ups ih =>
      intro hups
      have hroot : base.getLast? ≠ some .rootDir := fun h => absurd (hups h) (by omega)
      rw [replicate_succ', foldl_append, ih (fun h => absurd h hroot), foldl_cons,
        foldl_nil, ← append_assoc]
      cases ups with
      | zero =>
        apply normalize_up
        · simpa using hnormal
        · simpa using hroot
      | succ ups => apply normalize_up <;> simp [replicate_succ', ← append_assoc]
  have hnames : ∀ (names : List PathBytes) (acc : List PathComponent),
      (names.map PathComponent.normal).foldl normalizeComponent acc =
        acc ++ names.map .normal := by
    intro names
    induction names with
    | nil => simp
    | cons n names ih =>
      intro acc
      rw [map_cons, foldl_cons, ih]
      simp [normalizeComponent]
  rw [settled, foldl_append, hup ups hups, hnames, append_assoc]

lemma collect_settled (raw : PathBytes) (names : List PathBytes) (ups : ℕ)
    (result : PathBytes × Bool) :
    ((settled ups names).foldl (style.collectComponent raw) result).1 =
      result.1 ++ (if result.2 ∧ texts ups names ≠ [] then [style.primarySeparator] else []) ++
        joinSegments style.primarySeparator (texts ups names) := by
  -- the components a body is made of are written alike
  have hall : ∀ (written : List (PathComponent × PathBytes)) (result : PathBytes × Bool),
      (∀ c ∈ written, ∀ result, style.collectComponent raw result c.1 =
        ((if result.2 then result.1 ++ [style.primarySeparator] else result.1) ++ c.2, true)) →
      ((written.map Prod.fst).foldl (style.collectComponent raw) result).1 =
        result.1 ++ (if result.2 ∧ written.map Prod.snd ≠ [] then [style.primarySeparator]
          else []) ++ joinSegments style.primarySeparator (written.map Prod.snd) := by
    intro written
    induction written with
    | nil => simp [joinSegments]
    | cons c written ih =>
      intro result hwritten
      rw [map_cons, foldl_cons, hwritten c (by simp),
        ih _ (fun d hd => hwritten d (by simp [hd]))]
      by_cases hnil : written = []
      · subst hnil
        cases result.2 <;> simp [joinSegments]
      · have hmap : written.map Prod.snd ≠ [] := by simpa using hnil
        rw [map_cons, joinSegments_cons _ hmap]
        cases result.2 <;> simp [hnil]
  have hwritten := hall (List.replicate ups (.parentDir, [dot, dot]) ++
    names.map (fun n => (.normal n, n))) result (by
      intro c hc result
      rcases mem_append.mp hc with hc | hc
      · rw [eq_of_mem_replicate hc]
        rfl
      · obtain ⟨n, -, rfl⟩ := mem_map.mp hc
        rfl)
  simpa [settled, texts, Function.comp_def] using hwritten

lemma texts_no_sep (h : ∀ n ∈ names, IsSegment style v n) :
    ∀ s ∈ texts ups names, ∀ b ∈ s, style.separates v b = false := by
  intro s hs
  rcases mem_append.mp hs with hs | hs
  · rw [eq_of_mem_replicate hs]
    intro b hb
    have hdot : b = dot := by simpa using hb
    subst hdot
    cases style <;> cases v <;> decide
  · exact (h s hs).no_sep

lemma bodyComponents_texts (h : ∀ n ∈ names, IsSegment style v n) :
    style.bodyComponents v (joinSegments style.primarySeparator (texts ups names)) =
      settled ups names := by
  by_cases hnil : texts ups names = []
  · obtain ⟨hups, rfl⟩ := append_eq_nil_iff.mp hnil
    have hzero : ups = 0 := by simpa using hups
    subst hzero
    rfl
  · rw [bodyComponents, splitOnP_joinSegments (separates_primary v) hnil (texts_no_sep h)]
    unfold texts settled
    rw [filterMap_append]
    congr 1
    · have hdots : parseSingleComponent v [dot, dot] = some .parentDir := by
        cases v <;> decide
      rw [filterMap_replicate_of_some hdots]
    · rw [← filterMap_eq_map]
      apply filterMap_congr
      intro n hn
      have hname := h n hn
      unfold parseSingleComponent
      rw [if_neg hname.ne_dot, if_neg hname.ne_dots, if_neg hname.ne_nil]
      rfl

def rooted (style : PathStyle) (path : PathBytes) : Bool :=
  style.hasPhysicalRoot path ||
    (style.parsePrefix path).any (fun p => p.hasImplicitRoot && !p.isVerbatim)

def baseComponents (style : PathStyle) (path : PathBytes) : List PathComponent :=
  ((style.parsePrefix path).map .pathPrefix).toList ++
    if style.rooted path then [.rootDir] else []

lemma base_not_normal (path : PathBytes) (n : PathBytes) :
    (style.baseComponents path).getLast? ≠ some (.normal n) := by
  intro h
  have hmem := mem_of_getLast? h
  unfold baseComponents at hmem
  rcases mem_append.mp hmem with hmem | hmem
  · rw [mem_toList, map_eq_some_iff] at hmem
    obtain ⟨p, -, hp⟩ := hmem
    exact absurd hp (by simp)
  · split at hmem <;> simp at hmem

lemma base_root_iff (path : PathBytes) :
    (style.baseComponents path).getLast? = some .rootDir ↔ style.rooted path = true := by
  unfold baseComponents
  cases hroot : style.rooted path with
  | true => simp
  | false => cases hp : style.parsePrefix path <;> simp

variable (style) in
lemma normalizeComponents_components (path : PathBytes) :
    ∃ body, normalizeComponents (style.components path) =
        (style.bodyComponents (style.prefixVerbatim path) body).foldl normalizeComponent
          (style.baseComponents path) ∧
      (style.hasPhysicalRoot path = false → body <:+ path.drop (style.prefixLen path)) := by
  have hprefix : (((style.parsePrefix path).map PathComponent.pathPrefix).toList).foldl
      normalizeComponent [] = ((style.parsePrefix path).map .pathPrefix).toList := by
    cases style.parsePrefix path <;> rfl
  unfold normalizeComponents components startComponents baseComponents rooted
  rw [foldl_append, hprefix]
  dsimp only
  cases hroot : style.hasPhysicalRoot path with
  | true => exact ⟨_, rfl, by simp⟩
  | false =>
    refine ⟨if (style.parsePrefix path).isNone &&
        style.includeCurDir (path.drop (style.prefixLen path))
      then (path.drop (style.prefixLen path)).drop 1 else path.drop (style.prefixLen path), ?_, ?_⟩
    · cases hp : style.parsePrefix path with
      | none => cases style.includeCurDir (path.drop (style.prefixLen path)) <;> rfl
      | some p =>
        simp only [Bool.false_eq_true, if_false, any_some, Bool.false_or,
          isNone_some, Bool.false_and]
        cases p.hasImplicitRoot && !p.isVerbatim <;> rfl
    · intro _
      split
      · exact drop_suffix _ _
      · exact suffix_rfl

variable (style) in
lemma normalizeComponents_shape (path : PathBytes) :
    ∃ ups names, normalizeComponents (style.components path) =
        style.baseComponents path ++ settled ups names ∧ (style.rooted path = true → ups = 0) ∧
      (∀ n ∈ names, IsSegment style (style.prefixVerbatim path) n) ∧
      (style.hasPhysicalRoot path = false → path.drop (style.prefixLen path) = [] →
        ups = 0 ∧ names = []) := by
  obtain ⟨body, hbody, hsuffix⟩ := normalizeComponents_components style path
  obtain ⟨ups, names, hleft, hups, hnames⟩ :=
    @normalize_body style (style.prefixVerbatim path) _ body (base_not_normal path)
  rw [base_root_iff] at hups
  refine ⟨ups, names, hbody.trans hleft, hups, hnames, ?_⟩
  intro hroot hdrop
  have hnil : body = [] := by
    have := hsuffix hroot
    rw [hdrop] at this
    exact suffix_nil.mp this
  rw [hnil, bodyComponents_nil, foldl_nil, self_eq_append_right] at hleft
  obtain ⟨hreplicate, hmap⟩ := append_eq_nil_iff.mp hleft
  exact ⟨by simpa using hreplicate, by simpa using hmap⟩

def normalizedText (style : PathStyle) (path : PathBytes) (ups : ℕ) (names : List PathBytes) :
    PathBytes :=
  path.take (style.prefixLen path) ++
    ((if style.rooted path then [style.primarySeparator] else []) ++
      joinSegments style.primarySeparator (texts ups names))

lemma collectComponents_base (path : PathBytes) (ups : ℕ) (names : List PathBytes) :
    style.collectComponents (path.take (style.prefixLen path))
      (style.baseComponents path ++ settled ups names) = style.normalizedText path ups names := by
  have hbase : (style.baseComponents path).foldl
      (style.collectComponent (path.take (style.prefixLen path))) ([], false) =
      (path.take (style.prefixLen path) ++
        (if style.rooted path then [style.primarySeparator] else []), false) := by
    unfold baseComponents prefixLen
    cases style.parsePrefix path <;> cases style.rooted path <;>
      simp [collectComponent, asOsStr]
  unfold collectComponents normalizedText
  rw [foldl_append, hbase, collect_settled]
  simp

lemma texts_ne (h : ∀ n ∈ names, IsSegment style v n) :
    ∀ s ∈ texts ups names, s ≠ [] ∧ s ≠ [dot] := by
  intro s hs
  rcases mem_append.mp hs with hs | hs
  · rw [eq_of_mem_replicate hs]
    exact ⟨by simp, by simp⟩
  · exact ⟨(h s hs).ne_nil, (h s hs).ne_dot⟩

lemma texts_not_sep (h : ∀ n ∈ names, IsSegment style false n) (sep : UInt8) :
    style.startsWithSep (joinSegments sep (texts ups names)) = false := by
  have hne := @texts_ne style false ups names h
  have hsep := @texts_no_sep style false ups names h
  cases ht : texts ups names with
  | nil => rfl
  | cons s rest =>
    rw [ht] at hne hsep
    obtain ⟨b, s', rfl⟩ := exists_cons_of_ne_nil (hne s (by simp)).1
    unfold startsWithSep
    rw [head_joinSegments (by simp)]
    exact hsep (b :: s') (by simp) b (by simp)

lemma texts_not_curDir (h : ∀ n ∈ names, IsSegment style false n) (sep : UInt8) :
    style.includeCurDir (joinSegments sep (texts ups names)) = false := by
  have hne := @texts_ne style false ups names h
  have hsep := @texts_no_sep style false ups names h
  cases ht : texts ups names with
  | nil => rfl
  | cons s rest =>
    rw [ht] at hne hsep
    match s, hne s (by simp), hsep s (by simp) with
    | [b], hb, _ =>
      have hdot : b ≠ dot := fun hb' => hb.2 (by rw [hb'])
      cases rest with
      | nil => simpa [joinSegments, includeCurDir] using hdot
      | cons t rest =>
        rw [joinSegments_cons [b] (by simp)]
        simp [includeCurDir, hdot]
    | b :: c :: l, _, hc =>
      have hc' : style.isSepByte c = false := hc c (by simp)
      cases rest with
      | nil => simp [joinSegments, includeCurDir, hc']
      | cons t rest =>
        rw [joinSegments_cons _ (by simp)]
        simp [includeCurDir, hc']

lemma startsWithDrive_texts (h : ∀ n ∈ names, IsSegment style false n) :
    style.startsWithDrive (joinSegments style.primarySeparator (texts ups names)) = true ↔
      ∃ n, (settled ups names).head? = some (.normal n) ∧ style.startsWithDrive n = true := by
  have hcolon : style.primarySeparator ≠ colon := by cases style <;> decide
  cases ups with
  | zero =>
    cases names with
    | nil =>
      have hnil : style.startsWithDrive [] = false := by cases style <;> rfl
      simp [texts, settled, joinSegments, hnil]
    | cons n names =>
      have hdrive : style.startsWithDrive
          (joinSegments style.primarySeparator (texts 0 (n :: names))) =
          style.startsWithDrive n := by
        unfold startsWithDrive
        rw [show texts 0 (n :: names) = n :: names from rfl,
          parseDrive_joinSegments (h n (by simp)).ne_nil hcolon]
      rw [hdrive]
      simp [settled]
  | succ ups =>
    have hdots : style.startsWithDrive
        (joinSegments style.primarySeparator (texts (ups + 1) names)) = false := by
      unfold startsWithDrive
      rw [show texts (ups + 1) names = [dot, dot] :: texts ups names from rfl,
        parseDrive_joinSegments (by simp) hcolon]
      cases style <;> rfl
    rw [hdots]
    simp [settled, replicate_succ]

lemma prefix_length_le (hp : style.parsePrefix path = some p) : p.len ≤ path.length := by
  cases style with
  | unix => exact absurd hp (by simp [parsePrefix])
  | windows =>
    cases hv : p.isVerbatim with
    | true => exact WindowsPrefix.prefix_len_le hp hv
    | false => exact (WindowsPrefix.parsePrefix_take [] hp hv (s := backslash) (by decide)).1

lemma prefixLen_eq (hp : style.parsePrefix path = some p) : style.prefixLen path = p.len := by
  rw [prefixLen, hp]
  rfl

/-- The first of the names that are left, without prefix and root before it, does not read as a
drive, and none is left behind a verbatim server without share. -/
def KeepsStart (style : PathStyle) (path : PathBytes) : Prop :=
  (style.hasRoot path = false → style.parsePrefix path = none →
    ∀ n, (normalizeComponents (style.components path)).head? = some (.normal n) →
      style.startsWithDrive n = false) ∧
  ∀ server, style.parsePrefix path = some (.verbatimUnc server []) →
    ∀ n, .normal n ∉ normalizeComponents (style.components path)

structure Keeps (style : PathStyle) (path text : PathBytes) (body : List PathComponent) :
    Prop where
  parsePrefix : style.parsePrefix text = style.parsePrefix path
  rooted : style.hasPhysicalRoot text = style.rooted path
  components : style.components text = style.baseComponents path ++ body

lemma prefixLen_le (path : PathBytes) : style.prefixLen path ≤ path.length := by
  unfold prefixLen
  cases hp : style.parsePrefix path with
  | none => simp
  | some p => exact prefix_length_le hp

variable (style) in
lemma drop_normalizedText (path : PathBytes) (ups : ℕ) (names : List PathBytes) :
    (style.normalizedText path ups names).drop (style.prefixLen path) =
      (if style.rooted path then [style.primarySeparator] else []) ++
        joinSegments style.primarySeparator (texts ups names) := by
  apply drop_left'
  rw [length_take, Nat.min_eq_left (prefixLen_le path)]

lemma keeps_rooted (hnames : ∀ n ∈ names, IsSegment style (style.prefixVerbatim path) n)
    (hroot : style.rooted path = true)
    (hp : style.parsePrefix (style.normalizedText path 0 names) = style.parsePrefix path) :
    Keeps style path (style.normalizedText path 0 names) (settled 0 names) := by
  have hsep : style.isSepByte style.primarySeparator = true := by cases style <;> rfl
  have hdrop := drop_normalizedText style path 0 names
  rw [hroot, if_pos rfl, singleton_append] at hdrop
  refine ⟨hp, ?_, ?_⟩
  · unfold hasPhysicalRoot prefixLen
    rw [hp]
    unfold prefixLen at hdrop
    rw [hdrop, hroot]
    exact hsep
  · rw [components_rooted hp hdrop hsep]
    unfold prefixVerbatim at hnames
    rw [bodyComponents_texts hnames]
    unfold baseComponents
    rw [hroot]
    simp

lemma keeps_rootless (hnames : ∀ n ∈ names, IsSegment style (style.prefixVerbatim path) n)
    (hroot : style.rooted path = false)
    (hsep : style.startsWithSep (joinSegments style.primarySeparator (texts ups names)) = false)
    (hp : style.parsePrefix (style.normalizedText path ups names) = style.parsePrefix path) :
    Keeps style path (style.normalizedText path ups names) (settled ups names) := by
  have hdrop := drop_normalizedText style path ups names
  rw [hroot, if_neg (by simp), nil_append] at hdrop
  have hlen : style.prefixLen (style.normalizedText path ups names) = style.prefixLen path := by
    unfold prefixLen
    rw [hp]
  have hverbatim : style.prefixVerbatim (style.normalizedText path ups names) =
      style.prefixVerbatim path := by
    unfold prefixVerbatim
    rw [hp]
  have hphysical : style.hasPhysicalRoot (style.normalizedText path ups names) = false := by
    unfold hasPhysicalRoot
    rw [hlen, hdrop]
    exact hsep
  refine ⟨hp, hphysical.trans hroot.symm, ?_⟩
  unfold components startComponents baseComponents
  rw [hphysical, hlen, hverbatim, hdrop, hp, hroot]
  dsimp only
  rw [bodyComponents_texts hnames]
  simp only [Bool.false_eq_true, if_false, append_nil]
  congr 1
  unfold rooted at hroot
  cases hprefix : style.parsePrefix path with
  | none =>
    unfold prefixVerbatim at hnames
    rw [ hprefix] at hnames
    rw [texts_not_curDir hnames]
    rfl
  | some p =>
    rw [ hprefix, Bool.or_eq_false_iff] at hroot
    have himplicit : (p.hasImplicitRoot && !p.isVerbatim) = false := by simpa using hroot.2
    simp only [himplicit, Bool.false_eq_true, if_false]

lemma parsePrefix_one_sep {rest : PathBytes} (h : style.startsWithSep rest = false) :
    style.parsePrefix (style.primarySeparator :: rest) = none := by
  cases style with
  | unix => rfl
  | windows =>
    have hstart : WindowsPrefix.startsWithAt (backslash :: rest) 0 [backslash, backslash] =
        false := by
      rw [Bool.eq_false_iff, Ne, WindowsPrefix.startsWithAt_iff (by simp)]
      cases rest with
      | nil => simp
      | cons b rest =>
        simp only [startsWithSep, head?_cons, any_some, isSepByte,
          WindowsPrefix.isSepByte, Bool.or_eq_false_iff, decide_eq_false_iff_not] at h
        simp [h.1, h.2]
    have hdrive := @not_drive_of_sep (backslash :: rest) (by rfl)
    change WindowsPrefix.parsePrefix (backslash :: rest) = none
    rw [WindowsPrefix.parsePrefix, hstart, if_neg (by simp), hdrive]
    rfl

lemma parsePrefix_not_sep (hsep : style.startsWithSep text = false) :
    style.parsePrefix text = none ↔ style.startsWithDrive text = false := by
  cases style with
  | unix => simp [parsePrefix, startsWithDrive]
  | windows =>
    rw [parsePrefix, parsePrefix_of_not_sep hsep]
    cases hd : WindowsPrefix.parseDrive text <;> simp [startsWithDrive, hd]

lemma drop_of_rootless (hp : WindowsPrefix.parsePrefix path = some p) (hdrive : p.isDrive = false)
    (hroot : windows.hasPhysicalRoot path = false) : path.drop p.len = [] := by
  have hlen : windows.prefixLen path = p.len := prefixLen_eq hp
  rcases WindowsPrefix.prefix_drop hp hdrive with hdrop | ⟨s, rest, hs, hdrop⟩
  · exact hdrop
  · rw [← hlen] at hdrop
    have hsep : windows.isSepByte s = true := by
      cases hv : p.isVerbatim with
      | true =>
        rw [hv] at hs
        rw [WindowsPrefix.separator_true hs]
        rfl
      | false =>
        rw [hv] at hs
        exact hs
    rw [hasPhysicalRoot_iff.mpr ⟨s, rest, hdrop, hsep⟩] at hroot
    exact absurd hroot (by simp)

lemma parsePrefix_rooted (hp : WindowsPrefix.parsePrefix path = some p)
    (hroot : windows.rooted path = true)
    (hshare : ∀ server, p = .verbatimUnc server [] → names = []) :
    WindowsPrefix.parsePrefix (windows.normalizedText path 0 names) = some p := by
  have hlen : windows.prefixLen path = p.len := prefixLen_eq hp
  have htext : windows.normalizedText path 0 names =
      path.take p.len ++ backslash :: joinSegments backslash names := by
    unfold normalizedText
    rw [hroot, hlen, if_pos rfl]
    rfl
  rw [htext]
  cases hv : p.isVerbatim with
  | false => exact (WindowsPrefix.parsePrefix_take _ hp hv (by rfl)).2
  | true =>
    have hphysical : windows.hasPhysicalRoot path = true := by
      have hp' : windows.parsePrefix path = some p := hp
      unfold rooted at hroot
      rw [hp'] at hroot
      simpa [hv] using hroot
    obtain ⟨s, rest, hdrop, -⟩ := hasPhysicalRoot_iff.mp hphysical
    rw [hlen] at hdrop
    have hdrive : p.isDrive = false := by
      cases p with
      | disk d => exact absurd hv (by simp [PathPrefix.isVerbatim])
      | _ => rfl
    have hbackslash : path.drop p.len = backslash :: rest := by
      rcases WindowsPrefix.prefix_drop hp hdrive with hnil | ⟨s', rest', hs', hdrop'⟩
      · rw [hnil] at hdrop
        exact absurd hdrop (by simp)
      · rw [hv] at hs'
        rw [hdrop, List.cons.injEq] at hdrop'
        rw [hdrop, hdrop'.1, WindowsPrefix.separator_true hs']
    by_cases hserver : ∃ server, p = .verbatimUnc server []
    · obtain ⟨server, rfl⟩ := hserver
      rw [hshare server rfl]
      have hread := WindowsPrefix.parsePrefix_take_share [] hp
      simpa [PathPrefix.len, PathPrefix.shareLen, WindowsPrefix.parseNextComponent, joinSegments]
        using hread
    · exact WindowsPrefix.parsePrefix_take_verbatim hp hv hbackslash
        (fun server h => hserver ⟨server, h⟩)

lemma parsePrefix_drive {d : UInt8} (hp : WindowsPrefix.parsePrefix path = some (.disk d)) :
    WindowsPrefix.parsePrefix (path.take 2 ++ text) = some (.disk d) := by
  rcases WindowsPrefix.parsePrefix_cases hp with ⟨-, d', hd, heq⟩ | ⟨-, hrest⟩
  · obtain ⟨x, y, t, rfl, rfl, halpha, hupper⟩ := WindowsPrefix.parseDrive_length hd
    have hsep : windows.startsWithSep (x :: colon :: text) = false := by
      rw [Bool.eq_false_iff]
      intro h
      have hnone := not_drive_of_sep h
      rw [WindowsPrefix.parseDrive, if_pos ⟨rfl, halpha⟩] at hnone
      exact absurd hnone (by simp)
    change WindowsPrefix.parsePrefix (x :: colon :: text) = _
    rw [parsePrefix_of_not_sep hsep, WindowsPrefix.parseDrive, if_pos ⟨rfl, halpha⟩, heq, hupper]
    rfl
  · simp at hrest

lemma keeps (hleft : normalizeComponents (style.components path) =
      style.baseComponents path ++ settled ups names) (hups : style.rooted path = true → ups = 0)
    (hnames : ∀ n ∈ names, IsSegment style (style.prefixVerbatim path) n)
    (hnil : style.hasPhysicalRoot path = false → path.drop (style.prefixLen path) = [] →
      ups = 0 ∧ names = []) (hstart : KeepsStart style path) :
    Keeps style path (style.normalizedText path ups names) (settled ups names) := by
  cases hprefix : style.parsePrefix path with
  | none =>
    have hsegments : ∀ n ∈ names, IsSegment style false n := by
      unfold prefixVerbatim at hnames
      rwa [ hprefix] at hnames
    have hlen : style.prefixLen path = 0 := by
      unfold prefixLen
      rw [ hprefix]
      rfl
    have hsep := @texts_not_sep style ups names hsegments style.primarySeparator
    cases hroot : style.rooted path with
    | true =>
      have hzero := hups hroot
      subst hzero
      apply keeps_rooted hnames hroot
      unfold normalizedText
      rw [hroot, hlen, hprefix, if_pos rfl]
      exact parsePrefix_one_sep hsep
    | false =>
      apply keeps_rootless hnames hroot hsep
      have htext : style.normalizedText path ups names =
          joinSegments style.primarySeparator (texts ups names) := by
        unfold normalizedText
        rw [hroot, hlen]
        rfl
      have hrootless : style.hasRoot path = false := by
        unfold rooted at hroot
        unfold hasRoot
        rw [ hprefix] at hroot ⊢
        simpa using hroot
      have hbase : style.baseComponents path = [] := by
        unfold baseComponents
        rw [hroot, hprefix]
        rfl
      rw [htext, hprefix, parsePrefix_not_sep hsep, Bool.eq_false_iff, Ne,
        startsWithDrive_texts hsegments]
      rintro ⟨n, hn, hdrive⟩
      have hkept := hstart.1 hrootless hprefix n (by rw [hleft, hbase]; exact hn)
      rw [hkept] at hdrive
      exact absurd hdrive (by simp)
  | some p =>
    cases style with
    | unix => exact absurd hprefix (by simp [parsePrefix])
    | windows =>
      have hlen : windows.prefixLen path = p.len := prefixLen_eq hprefix
      cases hroot : windows.rooted path with
      | true =>
        have hzero := hups hroot
        subst hzero
        apply keeps_rooted hnames hroot
        rw [ hprefix]
        apply parsePrefix_rooted hprefix hroot
        rintro server rfl
        rw [eq_nil_iff_forall_not_mem]
        intro n hn
        apply hstart.2 server hprefix n
        rw [hleft]
        simp [settled, hn]
      | false =>
        have hphysical : windows.hasPhysicalRoot path = false := by
          unfold rooted at hroot
          exact (Bool.or_eq_false_iff.mp hroot).1
        cases hdrive : p.isDrive with
        | true =>
          cases p with
          | disk d =>
            have hsegments : ∀ n ∈ names, IsSegment windows false n := by
              unfold prefixVerbatim at hnames
              rwa [ hprefix] at hnames
            apply keeps_rootless hnames hroot (texts_not_sep hsegments _)
            unfold normalizedText
            rw [hroot, hlen, hprefix]
            exact parsePrefix_drive hprefix
          | _ => exact absurd hdrive (by simp [PathPrefix.isDrive])
        | false =>
          have hdrop := drop_of_rootless hprefix hdrive hphysical
          obtain ⟨rfl, rfl⟩ := hnil hphysical (by rwa [hlen])
          apply keeps_rootless hnames hroot (by rfl)
          have htext : windows.normalizedText path 0 [] = path := by
            unfold normalizedText
            rw [hroot, hlen, take_of_length_le (drop_eq_nil_iff.mp hdrop)]
            simp [texts, joinSegments]
          rw [htext]

/-- One thing is taken out of the components: `.`, `..` with the name before it, or `..` behind the
root. -/
inductive Cancels : List PathComponent → List PathComponent → Prop where
  | curDir (before after : List PathComponent) :
    Cancels (before ++ .curDir :: after) (before ++ after)
  | name (before after : List PathComponent) (n : PathBytes) :
    Cancels (before ++ .normal n :: .parentDir :: after) (before ++ after)
  | root (before after : List PathComponent) :
    Cancels (before ++ .rootDir :: .parentDir :: after) (before ++ .rootDir :: after)

def IsSettled (l : List PathComponent) : Prop := ∀ l', ¬ Cancels l l'

/-- `..` comes neither behind a name nor behind the root. -/
def StaysUp (a b : PathComponent) : Prop :=
  b = .parentDir → a ≠ .rootDir ∧ ∀ n, a ≠ .normal n

lemma isSettled_of_chain (hdot : .curDir ∉ l) (hchain : l.IsChain StaysUp) : IsSettled l := by
  intro l' h
  cases h with
  | curDir before after => exact hdot (by simp)
  | name before after n =>
    have hpair := (isChain_cons_cons.mp (isChain_append.mp hchain).2.1).1
    exact (hpair rfl).2 n rfl
  | root before after =>
    have hpair := (isChain_cons_cons.mp (isChain_append.mp hchain).2.1).1
    exact (hpair rfl).1 rfl

lemma normalizeComponent_chain (c : PathComponent) (hdot : .curDir ∉ l) (hchain : l.IsChain StaysUp) :
    .curDir ∉ normalizeComponent l c ∧ (normalizeComponent l c).IsChain StaysUp := by
  have hconcat : ∀ c, c ≠ .curDir → (∀ a, l.getLast? = some a → StaysUp a c) →
      .curDir ∉ l ++ [c] ∧ (l ++ [c]).IsChain StaysUp := by
    intro c hc hlast
    refine ⟨by simp [hdot, hc.symm], isChain_append.mpr ⟨hchain, by simp, ?_⟩⟩
    intro a ha b hb
    obtain rfl : c = b := by simpa using hb
    exact hlast a ha
  cases c with
  | curDir => exact ⟨hdot, hchain⟩
  | parentDir =>
    unfold normalizeComponent
    cases hlast : l.getLast? with
    | none => exact hconcat .parentDir (by simp) (by simp [hlast])
    | some a =>
      cases a with
      | normal n => exact ⟨fun h => hdot (dropLast_subset l h), hchain.dropLast⟩
      | rootDir => exact ⟨hdot, hchain⟩
      | _ => exact hconcat .parentDir (by simp) (by simp [hlast, StaysUp])
  | _ => exact hconcat _ (by simp) (by simp [StaysUp])

lemma normalizeComponent_cancels (l : List PathComponent) (c : PathComponent)
    (rest : List PathComponent) :
    Relation.ReflTransGen Cancels (l ++ c :: rest) (normalizeComponent l c ++ rest) := by
  have hconcat : ∀ c, Relation.ReflTransGen Cancels (l ++ c :: rest) ((l ++ [c]) ++ rest) := by
    intro c
    rw [append_assoc, singleton_append]
  cases c with
  | curDir => exact .single (.curDir l rest)
  | parentDir =>
    unfold normalizeComponent
    cases hlast : l.getLast? with
    | none => exact hconcat .parentDir
    | some a =>
      obtain ⟨init, rfl⟩ := getLast?_eq_some_iff.mp hlast
      cases a with
      | normal n =>
        rw [append_assoc, singleton_append]
        simp only [dropLast_concat]
        exact .single (.name init rest n)
      | rootDir =>
        simp only [append_assoc, singleton_append]
        exact .single (.root init rest)
      | _ => exact hconcat .parentDir
  | _ => exact hconcat _

lemma normalizeComponents_spec (components : List PathComponent) :
    Relation.ReflTransGen Cancels components (normalizeComponents components) ∧
      IsSettled (normalizeComponents components) := by
  have hall : ∀ (components l : List PathComponent), .curDir ∉ l → l.IsChain StaysUp →
      Relation.ReflTransGen Cancels (l ++ components) (components.foldl normalizeComponent l) ∧
        IsSettled (components.foldl normalizeComponent l) := by
    intro components
    induction components with
    | nil =>
      intro l hdot hchain
      rw [append_nil]
      exact ⟨.refl, isSettled_of_chain hdot hchain⟩
    | cons c components ih =>
      intro l hdot hchain
      obtain ⟨hdot', hchain'⟩ := normalizeComponent_chain c hdot hchain
      obtain ⟨hcancels, hsettled⟩ := ih _ hdot' hchain'
      exact ⟨(normalizeComponent_cancels l c components).trans hcancels, hsettled⟩
  exact hall components [] (by simp) (by simp)

/-- The result is normalized, starts like the path, and has its components with all taken out that
can be; where that leaves nothing of a path that is not empty, the result is `.`. -/
structure NormalizesLexically (style : PathStyle) (path : PathBytes) : Prop where
  idempotent : style.normalizeLexically (style.normalizeLexically path) =
    style.normalizeLexically path
  isAbsolute : style.isAbsolute (style.normalizeLexically path) = style.isAbsolute path
  hasRoot : style.hasRoot (style.normalizeLexically path) = style.hasRoot path
  parsePrefix : style.parsePrefix (style.normalizeLexically path) = style.parsePrefix path
  components : ∃ left, Relation.ReflTransGen Cancels (style.components path) left ∧
    IsSettled left ∧ (left = [] → path ≠ [] → style.normalizeLexically path = [dot]) ∧
    style.components (style.normalizeLexically path) =
      if left = [] ∧ path ≠ [] then [.curDir] else left

lemma Keeps.hasRoot {body : List PathComponent} (h : Keeps style path text body) :
    style.hasRoot text = style.hasRoot path := by
  unfold PathStyle.hasRoot
  rw [h.rooted, h.parsePrefix, PathStyle.rooted]
  cases style.parsePrefix path with
  | none => simp
  | some p =>
    simp only [any_some]
    rw [Bool.or_assoc]
    cases p.hasImplicitRoot <;> simp

lemma isAbsolute_congr (hroot : style.hasRoot text = style.hasRoot path)
    (hp : style.parsePrefix text = style.parsePrefix path) :
    style.isAbsolute text = style.isAbsolute path := by
  unfold isAbsolute
  rw [hroot, hp]

lemma normalize_base (path : PathBytes) :
    (style.baseComponents path).foldl normalizeComponent [] = style.baseComponents path := by
  unfold baseComponents
  cases style.parsePrefix path <;> cases style.rooted path <;> rfl

lemma normalizesLexically_nothing (hpath : path ≠ [])
    (hleft : normalizeComponents (style.components path) = [])
    ( hprefix : style.parsePrefix path = none) (hroot : style.hasRoot path = false) :
    NormalizesLexically style path := by
  have hresult : style.normalizeLexically path = [dot] := by
    unfold normalizeLexically
    simp [hleft, hpath]
  have hrootDot : style.hasRoot [dot] = false := by cases style <;> decide
  have hprefixDot : style.parsePrefix [dot] = none := by cases style <;> decide
  refine ⟨?_, ?_, ?_, ?_, [], ?_⟩
  · rw [hresult]
    cases style <;> decide
  · rw [hresult]
    exact isAbsolute_congr (hrootDot.trans hroot.symm) (hprefixDot.trans hprefix.symm)
  · rw [hresult, hrootDot, hroot]
  · rw [hresult, hprefixDot, hprefix]
  · obtain ⟨hcancels, hsettled⟩ := normalizeComponents_spec (style.components path)
    rw [hleft] at hcancels hsettled
    refine ⟨hcancels, hsettled, fun _ _ => hresult, ?_⟩
    rw [hresult, if_pos ⟨rfl, hpath⟩]
    cases style <;> decide

lemma shareless_reads {server : PathBytes}
    ( hprefix : style.parsePrefix path = some (.verbatimUnc server []))
    (hleft : normalizeComponents (style.components path) =
      style.baseComponents path ++ settled ups names) (hups : style.rooted path = true → ups = 0)
    (hnames : ∀ n ∈ names, IsSegment style (style.prefixVerbatim path) n)
    (hnil : style.hasPhysicalRoot path = false → path.drop (style.prefixLen path) = [] →
      ups = 0 ∧ names = [])
    (hread : style.parsePrefix (style.normalizedText path ups names) = style.parsePrefix path) :
    ∀ n, .normal n ∉ normalizeComponents (style.components path) := by
  cases style with
  | unix => exact absurd hprefix (by simp [parsePrefix])
  | windows =>
    intro n hn
    have hlen : windows.prefixLen path = 8 + server.length := prefixLen_eq hprefix
    have hmem : n ∈ names := by
      rw [hleft, mem_append] at hn
      rcases hn with hn | hn
      · unfold baseComponents at hn
        rw [ hprefix] at hn
        rcases mem_append.mp hn with hn | hn
        · simp at hn
        · split at hn <;> simp at hn
      · simpa [settled] using hn
    have hphysical : windows.hasPhysicalRoot path = true := by
      rw [← Bool.not_eq_false]
      intro hphysical
      obtain ⟨-, rfl⟩ := hnil hphysical (by
        rw [hlen]
        exact drop_of_rootless hprefix (by rfl) hphysical)
      simp at hmem
    have hroot : windows.rooted path = true := by
      unfold rooted
      rw [hphysical, Bool.true_or]
    have hzero := hups hroot
    subst hzero
    obtain ⟨first, rest, rfl⟩ := exists_cons_of_ne_nil (ne_nil_of_mem hmem)
    have hshare := WindowsPrefix.parsePrefix_take_share
      (joinSegments backslash (first :: rest)) hprefix
    have htext : windows.normalizedText path 0 (first :: rest) =
        path.take (8 + server.length) ++ backslash :: joinSegments backslash (first :: rest) := by
      unfold normalizedText
      rw [hroot, hlen, if_pos rfl]
      rfl
    rw [htext, hprefix] at hread
    change WindowsPrefix.parsePrefix _ = _ at hread
    rw [hshare] at hread
    have hempty : (WindowsPrefix.parseNextComponent
        (joinSegments backslash (first :: rest)) true).1 = [] := by simpa using hread
    have hfirst := hnames first (by simp)
    have hhead : (joinSegments backslash (first :: rest)).head? = first.head? :=
      head_joinSegments hfirst.ne_nil
    obtain ⟨b, first', rfl⟩ := exists_cons_of_ne_nil hfirst.ne_nil
    have hsep : WindowsPrefix.isVerbatimSep b = false := by
      have hb := hfirst.no_sep b (by simp)
      unfold prefixVerbatim at hb
      rw [ hprefix] at hb
      exact hb
    cases htail : joinSegments backslash ((b :: first') :: rest) with
    | nil =>
      rw [htail] at hhead
      simp at hhead
    | cons c tail =>
      rw [htail] at hhead hempty
      obtain rfl : c = b := by simpa using hhead
      simp [WindowsPrefix.parseNextComponent, hsep] at hempty

/-- Lexical normalization keeps what a path denotes just if what is left keeps its beginning. -/
theorem normalizesLexically_iff (style : PathStyle) (path : PathBytes) :
    NormalizesLexically style path ↔ KeepsStart style path := by
  obtain ⟨ups, names, hleft, hups, hnames, hnil⟩ :=
    normalizeComponents_shape style path
  have htext : ¬ (normalizeComponents (style.components path) = [] ∧ path ≠ []) →
      style.normalizeLexically path = style.normalizedText path ups names := by
    intro hsome
    unfold normalizeLexically
    rw [if_neg (by simpa using hsome), hleft, collectComponents_base]
  constructor
  · intro h
    refine ⟨?_, ?_⟩
    · intro hroot hprefix n hn
      have hsome : ¬ (normalizeComponents (style.components path) = [] ∧ path ≠ []) := by
        rintro ⟨hempty, -⟩
        rw [hempty] at hn
        exact absurd hn (by simp)
      have hrootless : style.rooted path = false := by
        unfold rooted
        unfold PathStyle.hasRoot at hroot
        rw [ hprefix] at hroot ⊢
        simpa using hroot
      have hlen : style.prefixLen path = 0 := by
        unfold prefixLen
        rw [ hprefix]
        rfl
      have hsegments : ∀ n ∈ names, IsSegment style false n := by
        unfold prefixVerbatim at hnames
        rwa [ hprefix] at hnames
      have hbase : style.baseComponents path = [] := by
        unfold baseComponents
        rw [hrootless, hprefix]
        rfl
      have hread := h.parsePrefix
      rw [htext hsome, hprefix] at hread
      unfold normalizedText at hread
      rw [hrootless, hlen] at hread
      change style.parsePrefix (joinSegments style.primarySeparator (texts ups names)) = none
        at hread
      rw [parsePrefix_not_sep (texts_not_sep hsegments _), Bool.eq_false_iff, Ne,
        startsWithDrive_texts hsegments] at hread
      rw [hleft, hbase] at hn
      rw [Bool.eq_false_iff]
      exact fun hdrive => hread ⟨n, hn, hdrive⟩
    · intro server hprefix n hn
      have hsome : ¬ (normalizeComponents (style.components path) = [] ∧ path ≠ []) := by
        rintro ⟨hempty, -⟩
        rw [hempty] at hn
        exact absurd hn (by simp)
      exact shareless_reads hprefix hleft hups hnames hnil (htext hsome ▸ h.parsePrefix) n hn
  · intro hstart
    by_cases hsome : normalizeComponents (style.components path) = [] ∧ path ≠ []
    · rw [hleft, append_eq_nil_iff] at hsome
      obtain ⟨⟨hbase, hbody⟩, hpath⟩ := hsome
      unfold baseComponents at hbase
      rw [append_eq_nil_iff] at hbase
      have hprefix : style.parsePrefix path = none := by simpa using hbase.1
      have hroot : style.hasRoot path = false := by
        have hrootless : style.rooted path = false := by simpa using hbase.2
        unfold rooted at hrootless
        unfold PathStyle.hasRoot
        rw [ hprefix] at hrootless ⊢
        simpa using hrootless
      apply normalizesLexically_nothing hpath _ hprefix hroot
      rw [hleft, hbody]
      unfold baseComponents
      rw [append_nil, append_eq_nil_iff]
      exact hbase
    · have hkeeps := keeps hleft hups hnames hnil hstart
      have hagain : normalizeComponents
          (style.components (style.normalizedText path ups names)) =
            style.baseComponents path ++ settled ups names := by
        unfold normalizeComponents
        rw [hkeeps.components, foldl_append, normalize_base]
        exact normalize_settled names (fun hroot => hups ((base_root_iff path).mp hroot))
          (base_not_normal path)
      obtain ⟨hcancels, hsettled⟩ := normalizeComponents_spec (style.components path)
      refine ⟨?_, ?_, ?_, ?_, _, hcancels, hsettled,
        fun hempty hpath => absurd ⟨hempty, hpath⟩ hsome, ?_⟩
      · by_cases hpath : path = []
        · subst hpath
          cases style <;> rfl
        · have hraw : (style.normalizedText path ups names).take (style.prefixLen
              (style.normalizedText path ups names)) = path.take (style.prefixLen path) := by
            have hlen : style.prefixLen (style.normalizedText path ups names) =
                style.prefixLen path := by
              unfold prefixLen
              rw [hkeeps.parsePrefix]
            rw [hlen]
            apply take_left'
            rw [length_take, Nat.min_eq_left (prefixLen_le path)]
          have hne : ¬ (normalizeComponents (style.components
              (style.normalizedText path ups names)) = [] ∧
                style.normalizedText path ups names ≠ []) := by
            rw [hagain, ← hleft]
            exact fun hempty => hsome ⟨hempty.1, hpath⟩
          rw [htext hsome]
          unfold normalizeLexically
          rw [if_neg (by simpa using hne), hagain, hraw, collectComponents_base]
      · rw [htext hsome]
        exact isAbsolute_congr hkeeps.hasRoot hkeeps.parsePrefix
      · rw [htext hsome, hkeeps.hasRoot]
      · rw [htext hsome, hkeeps.parsePrefix]
      · rw [if_neg hsome, htext hsome, hkeeps.components, hleft]

/-- Nothing is left of `a/..`, and `.` is written for it. -/
theorem components_nothing_left :
    ¬ ∀ (style : PathStyle) (path : PathBytes), ∃ left,
      Relation.ReflTransGen Cancels (style.components path) left ∧ IsSettled left ∧
        style.components (style.normalizeLexically path) = left := by
  intro hall
  obtain ⟨left, -, hsettled, hleft⟩ := hall .unix [97, 47, 46, 46]
  have hdot : unix.components (unix.normalizeLexically [97, 47, 46, 46]) = [.curDir] := by decide
  rw [← hleft, hdot] at hsettled
  exact hsettled [] (Cancels.curDir [] [])

end PathStyle

end GpuiFast
