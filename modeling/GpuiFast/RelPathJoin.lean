import GpuiFast.PathPrefixes
import GpuiFast.RelPathNew

/-! When the components of a relative path come after those of the absolute base it is joined to. A name
that reads as a drive replaces the base; verbatim bases need a root, and a bare device or a share
that is missing takes the first name. -/

namespace GpuiFast

open List Option WindowsPrefix PathPrefix

open PathBytes

namespace PathStyle

variable {style : PathStyle}

lemma bodyComponents_nil (v : Bool) : style.bodyComponents v [] = [] := rfl

variable {v : Bool} {s : UInt8} {n : PathBytes} {sep : UInt8} {names : List PathBytes}
  {body : PathBytes} {p : PathPrefix} {path base : PathBytes} {cs : List PathComponent}

lemma bodyComponents_append (hs : style.separates v s = true) (a c : PathBytes) :
    style.bodyComponents v (a ++ s :: c) = style.bodyComponents v a ++ style.bodyComponents v c := by
  rw [bodyComponents, splitOnP_append_cons _ _ hs, filterMap_append]
  rfl

lemma bodyComponents_concat (hs : style.separates v s = true) (a : PathBytes) :
    style.bodyComponents v (a ++ [s]) = style.bodyComponents v a := by
  rw [bodyComponents_append hs, bodyComponents_nil, append_nil]

lemma isSepByte_of_separates {b : UInt8} (h : style.separates v b = true) :
    style.isSepByte b = true := by
  cases style <;> cases v <;>
    simp_all [separates, isVerbatimSep, isSepByte, WindowsPrefix.isVerbatimSep,
      WindowsPrefix.isSepByte]

lemma separates_primary (v : Bool) : style.separates v style.primarySeparator = true := by
  cases style <;> cases v <;> decide

lemma parseSingleComponent_name (h : IsName style n) :
    parseSingleComponent v n = some (.normal n) := by
  rw [parseSingleComponent, if_neg h.ne_dot, if_neg h.ne_dots, if_neg h.ne_nil]

lemma bodyComponents_names (hsep : style.separates v sep = true) (h : ∀ n ∈ names, IsName style n) :
    style.bodyComponents v (joinSegments sep names) = names.map .normal := by
  by_cases hnil : names = []
  · subst hnil
    rfl
  · have hseps : ∀ s ∈ names, ∀ b ∈ s, style.separates v b = false := by
      intro s hs b hb
      rw [Bool.eq_false_iff]
      intro hv
      exact Bool.noConfusion (((h s hs).no_sep b hb).symm.trans (isSepByte_of_separates hv))
    rw [bodyComponents, splitOnP_joinSegments hsep hnil hseps, ← filterMap_eq_map]
    exact filterMap_congr (fun n hn => parseSingleComponent_name (h n hn))

lemma pathPrefix_not_mem_body : .pathPrefix p ∉ style.bodyComponents v body := by
  intro h
  obtain ⟨s, -, hs⟩ := mem_filterMap.mp h
  rw [parseSingleComponent] at hs
  split_ifs at hs <;> simp at hs

lemma pathPrefix_not_mem_start : .pathPrefix p ∉ style.startComponents path := by
  intro h
  have hbody : ∀ (c : PathComponent) (v : Bool) (body : PathBytes), c ≠ .pathPrefix p →
      .pathPrefix p ∉ c :: style.bodyComponents v body :=
    fun c v body hc hmem => pathPrefix_not_mem_body (mem_of_ne_of_mem hc.symm hmem)
  rw [startComponents] at h
  split at h
  · exact hbody _ _ _ (by simp) h
  · split at h
    · split at h
      · exact hbody _ _ _ (by simp) h
      · exact pathPrefix_not_mem_body h
    · split at h
      · exact hbody _ _ _ (by simp) h
      · exact pathPrefix_not_mem_body h

lemma parsePrefix_of_head (h : (style.components path).head? = some (.pathPrefix p)) :
    style.parsePrefix path = some p := by
  rw [components] at h
  cases hp : style.parsePrefix path with
  | none =>
    rw [hp] at h
    exact absurd (mem_of_mem_head? h) pathPrefix_not_mem_start
  | some p' =>
    rw [hp] at h
    simpa using h

variable {rest : PathBytes} {ns : List PathBytes} {c : PathComponent} {raw : PathBytes}

lemma components_rooted {p : Option PathPrefix} (hp : style.parsePrefix path = p)
    (hdrop : path.drop ((p.map len).getD 0) = s :: rest) (hs : style.isSepByte s = true) :
    style.components path = (p.map .pathPrefix).toList ++
      .rootDir :: style.bodyComponents (p.any isVerbatim) rest := by
  subst hp
  have hroot : style.hasPhysicalRoot path = true := by
    rw [hasPhysicalRoot, prefixLen, hdrop]
    exact hs
  rw [components, startComponents, if_pos hroot, prefixLen, hdrop]
  rfl

lemma head_joinSegments (h : n ≠ []) : (joinSegments sep (n :: ns)).head? = n.head? := by
  cases ns with
  | nil => rfl
  | cons t ns => rw [joinSegments_cons n (by simp), head?_append_of_ne_nil _ h]

lemma head_not_sep (sep : UInt8) (h : ∀ n ∈ names, IsName style n) :
    (joinSegments sep names).head?.any style.isSepByte = false := by
  cases names with
  | nil => rfl
  | cons n ns =>
    have hn := h n (by simp)
    rw [head_joinSegments hn.ne_nil]
    cases n with
    | nil => rfl
    | cons b n => exact hn.no_sep b (by simp)

def noDrive (style : PathStyle) (names : List PathBytes) : Bool :=
  style = .unix || names.head?.all (fun n => (parseDrive n).isNone)

lemma parseDrive_joinSegments (h : n ≠ []) (hsep : sep ≠ colon) :
    parseDrive (joinSegments sep (n :: ns)) = parseDrive n := by
  cases ns with
  | nil => rfl
  | cons t ns =>
    rw [joinSegments_cons n (by simp)]
    match n, h with
    | [b], _ => simp [parseDrive, hsep]
    | b :: c :: n, _ => rfl

lemma parsePrefix_windows_names (h : ∀ n ∈ names, IsName windows n) :
    WindowsPrefix.parsePrefix (joinSegments slash names) =
      (parseDrive (joinSegments slash names)).map .disk := by
  have hstart : startsWithAt (joinSegments slash names) 0 [backslash, backslash] =
      false := by
    rw [Bool.eq_false_iff, Ne, startsWithAt_iff (by simp)]
    have hhead := head_not_sep slash h
    cases hr : joinSegments slash names with
    | nil => simp
    | cons b r =>
      rw [hr] at hhead
      have hb : ¬ (b = backslash ∨ b = slash) := by
        simpa [isSepByte, WindowsPrefix.isSepByte] using hhead
      intro heq
      have := congrArg head? heq
      simp only [drop_zero, length_cons, take_succ_cons, map_cons, head?_cons, some.injEq] at this
      rw [if_neg (fun h => hb (.inr h))] at this
      exact hb (.inl this)
  rw [WindowsPrefix.parsePrefix, hstart, if_neg (by simp)]

lemma parsePrefix_names (h : ∀ n ∈ names, IsName style n) :
    style.parsePrefix (joinSegments slash names) = none ↔ style.noDrive names = true := by
  cases style with
  | unix => simp [parsePrefix, noDrive]
  | windows =>
    rw [parsePrefix, parsePrefix_windows_names h]
    cases names with
    | nil => simp [noDrive, joinSegments, parseDrive]
    | cons n ns =>
      rw [parseDrive_joinSegments (h n (by simp)).ne_nil (by decide)]
      simp [noDrive]

lemma hasRoot_names (h : ∀ n ∈ names, IsName style n)
    (hp : style.parsePrefix (joinSegments slash names) = none) :
    style.hasRoot (joinSegments slash names) = false := by
  rw [hasRoot, hasPhysicalRoot, prefixLen, hp]
  simpa using head_not_sep slash h

lemma isAbsolute_names (h : ∀ n ∈ names, IsName style n)
    (hp : style.parsePrefix (joinSegments slash names) = none) :
    style.isAbsolute (joinSegments slash names) = false := by
  have hroot := hasRoot_names h hp
  cases style with
  | unix => exact hroot
  | windows => simp [isAbsolute, hroot]

lemma includeCurDir_names (h : ∀ n ∈ names, IsName style n) :
    style.includeCurDir (joinSegments slash names) = false := by
  cases names with
  | nil => rfl
  | cons n ns =>
    have hn := h n (by simp)
    match n, hn with
    | [], hn => exact absurd rfl hn.ne_nil
    | [b], hn =>
      have hb : b ≠ dot := fun hb => hn.ne_dot (by rw [hb])
      cases ns with
      | nil => simpa [joinSegments, includeCurDir] using hb
      | cons t ns =>
        rw [joinSegments_cons [b] (by simp)]
        simp [includeCurDir, hb]
    | b :: c :: n, hn =>
      have hc := hn.no_sep c (by simp)
      cases ns with
      | nil => simp [joinSegments, includeCurDir, hc]
      | cons t ns =>
        rw [joinSegments_cons _ (by simp)]
        simp [includeCurDir, hc]

lemma separates_slash : style.separates false slash = true := isSepByte_slash style

lemma components_names (h : ∀ n ∈ names, IsName style n)
    (hp : style.parsePrefix (joinSegments slash names) = none) :
    style.components (joinSegments slash names) = names.map .normal := by
  have hroot : style.hasPhysicalRoot (joinSegments slash names) = false := by
    rw [hasPhysicalRoot, prefixLen, hp]
    simpa using head_not_sep slash h
  have hlen : style.prefixLen (joinSegments slash names) = 0 := by
    rw [prefixLen, hp]
    rfl
  rw [components, startComponents, hroot, if_neg (by simp), hlen, drop_zero, hp,
    includeCurDir_names h, prefixVerbatim, hp]
  exact bodyComponents_names separates_slash h

lemma relPathComponents_joinSegments (h : ∀ n ∈ names, IsName style n) :
    RelPath.components (joinSegments slash names) = names := by
  rw [RelPath.components]
  by_cases hnil : names = []
  · subst hnil
    rfl
  · have hsplit : (joinSegments slash names).splitOnP (fun b => b = slash) = names := by
      refine splitOnP_joinSegments (by simp) hnil (fun s hs b hb => ?_)
      have hne : b ≠ slash := fun hb' => (h s hs).no_slash (hb' ▸ hb)
      simpa using hne
    have hlast : names.getLast? ≠ some [] := by
      intro hlast
      exact (h [] (mem_of_getLast? hlast)).ne_nil rfl
    rw [hsplit, if_neg hlast]

def separatorAfter (style : PathStyle) (base : PathBytes) : PathBytes :=
  if base.getLast?.any (fun b => !style.isSepByte b) then [style.primarySeparator] else []

lemma not_bare_drive (h : style.isAbsolute base = true) :
    ¬ (style.prefixLen base > 0 ∧ style.prefixLen base = base.length ∧
      (style.parsePrefix base).any isDrive = true) := by
  rintro ⟨-, hlen, hdrive⟩
  have hphysical : style.hasPhysicalRoot base = false := by
    rw [hasPhysicalRoot, hlen, drop_length]
    rfl
  have hroot : style.hasRoot base = true := by
    cases style with
    | unix => exact h
    | windows =>
      rw [isAbsolute, Bool.and_eq_true] at h
      exact h.1
  rw [hasRoot, hphysical, Bool.false_or] at hroot
  cases hp : style.parsePrefix base with
  | none => simp [hp] at hdrive
  | some p =>
    rw [hp] at hdrive hroot
    simp only [any_some, hasImplicitRoot] at hdrive hroot
    simp [hdrive] at hroot

lemma join_eq_append (hbase : style.isAbsolute base = true) (h : ∀ n ∈ names, IsName style n)
    (hp : style.parsePrefix (joinSegments slash names) = none)
    (hv : style.prefixVerbatim base = false ∨ names = []) :
    style.join base (joinSegments slash names) =
      base ++ style.separatorAfter base ++ joinSegments slash names := by
  have hverbatim : (style.prefixVerbatim base && !(joinSegments slash names).isEmpty) = false := by
    rcases hv with hv | rfl
    · rw [hv, Bool.false_and]
    · simp [joinSegments]
  rw [join, styledPush, if_neg (not_bare_drive hbase), isAbsolute_names h hp, hp, hverbatim,
    hasRoot_names h hp, separatorAfter]
  simp only [isSome_none, Bool.or_false, Bool.false_eq_true, if_false]
  split
  · rfl
  · rw [append_nil]

lemma bodyComponents_extend (h : ∀ n ∈ names, IsName style n) (hv : v = false ∨ names = []) :
    style.bodyComponents v (body ++ style.separatorAfter (s :: body) ++ joinSegments slash names) =
      style.bodyComponents v body ++ names.map .normal := by
  have hnames : style.bodyComponents v (joinSegments slash names) = names.map .normal := by
    rcases hv with rfl | rfl
    · exact bodyComponents_names separates_slash h
    · rfl
  rw [separatorAfter]
  split
  · rw [append_assoc, singleton_append, bodyComponents_append (separates_primary v), hnames]
  · rename_i hlast
    rw [append_nil]
    rcases eq_nil_or_concat body with rfl | ⟨l, t, rfl⟩
    · rw [nil_append, hnames]
      rfl
    · rw [concat_eq_append] at hlast ⊢
      have ht : style.isSepByte t = true := by
        rw [← cons_append, getLast?_concat] at hlast
        simpa using hlast
      rcases hv with rfl | rfl
      · have ht' : style.separates false t = true := ht
        rw [append_assoc, singleton_append, bodyComponents_append ht', hnames,
          bodyComponents_concat ht']
      · simp [joinSegments]

lemma separatorAfter_append {l : PathBytes} :
    style.separatorAfter (l ++ s :: body) = style.separatorAfter (s :: body) := by
  rw [separatorAfter, separatorAfter, getLast?_append_of_ne_nil _ (by simp)]

lemma components_extend (h : ∀ n ∈ names, IsName style n) (hs : style.isSepByte s = true)
    (hdrop : base.drop (style.prefixLen base) = s :: body)
    (hstable : style.parsePrefix (base ++ (style.separatorAfter base ++ joinSegments slash names)) =
      style.parsePrefix base) (hv : style.prefixVerbatim base = false ∨ names = []) :
    style.components (base ++ style.separatorAfter base ++ joinSegments slash names) =
      style.components base ++ names.map .normal := by
  have hbase : base = base.take (style.prefixLen base) ++ s :: body := by
    rw [← hdrop, take_append_drop]
  have hlen : style.prefixLen base ≤ base.length := by
    have := congrArg List.length hdrop
    rw [length_drop, length_cons] at this
    omega
  have hsep : style.separatorAfter base = style.separatorAfter (s :: body) := by
    rw [hbase, separatorAfter_append]
  have hdrop' : (base ++ (style.separatorAfter base ++ joinSegments slash names)).drop
      (((style.parsePrefix base).map len).getD 0) =
      s :: (body ++ style.separatorAfter (s :: body) ++ joinSegments slash names) := by
    change List.drop (style.prefixLen base) _ = _
    rw [drop_append_of_le_length hlen, hdrop, hsep]
    simp
  rw [append_assoc, components_rooted hstable hdrop' hs, components_rooted rfl hdrop hs]
  change _ ++ _ :: style.bodyComponents (style.prefixVerbatim base) _ =
    _ ++ _ :: style.bodyComponents (style.prefixVerbatim base) _ ++ _
  rw [bodyComponents_extend h hv]
  simp

lemma hasPhysicalRoot_iff :
    style.hasPhysicalRoot path = true ↔
      ∃ s rest, path.drop (style.prefixLen path) = s :: rest ∧ style.isSepByte s = true := by
  rw [hasPhysicalRoot]
  cases path.drop (style.prefixLen path) with
  | nil => simp
  | cons b rest => simp

lemma components_bare (hp : style.parsePrefix path = some p) (hdrop : path.drop p.len = []) :
    style.components path =
      .pathPrefix p :: if p.hasImplicitRoot && !p.isVerbatim then [.rootDir] else [] := by
  have hlen : style.prefixLen path = p.len := by
    rw [prefixLen, hp]
    rfl
  have hroot : style.hasPhysicalRoot path = false := by
    rw [hasPhysicalRoot, hlen, hdrop]
    rfl
  rw [components, startComponents, hroot, hlen, hdrop, if_neg (by simp), hp]
  rfl

lemma append_eq_take {mid : PathBytes} {n : ℕ} (hdrop : path.drop n = s :: body) :
    path ++ mid = path.take n ++ s :: (body ++ mid) := by
  rw [← cons_append, ← hdrop, ← append_assoc, take_append_drop]

lemma components_join_unix (hbase : unix.isAbsolute base = true) (h : ∀ n ∈ names, IsName unix n) :
    unix.components (unix.join base (joinSegments slash names)) =
      unix.components base ++ names.map .normal := by
  have hroot : unix.hasPhysicalRoot base = true := by
    simpa [isAbsolute, hasRoot, parsePrefix] using hbase
  obtain ⟨s, body, hdrop, hs⟩ := hasPhysicalRoot_iff.mp hroot
  rw [join_eq_append hbase h rfl (.inl rfl)]
  exact components_extend h hs hdrop rfl (.inl rfl)

/-- A device without name whose text ends there. -/
def bareDevice (base : PathBytes) : Bool :=
  WindowsPrefix.parsePrefix base = some (.deviceNs []) && base.length = 4

lemma components_join_windows (hbase : windows.isAbsolute base = true)
    (hp : WindowsPrefix.parsePrefix base = some p) (hv : p.isVerbatim = false)
    (hdevice : bareDevice base = false) (h : ∀ n ∈ names, IsName windows n)
    (hnames : windows.parsePrefix (joinSegments slash names) = none) :
    windows.components (windows.join base (joinSegments slash names)) =
      windows.components base ++ names.map .normal := by
  have hp' : windows.parsePrefix base = some p := hp
  have hverbatim : windows.prefixVerbatim base = false := by
    rw [prefixVerbatim, hp']
    exact hv
  have hlen : windows.prefixLen base = p.len := by
    rw [prefixLen, hp']
    rfl
  have hle := (parsePrefix_take [] hp hv (s := backslash) (by decide)).1
  rw [join_eq_append hbase h hnames (.inl hverbatim)]
  cases hroot : windows.hasPhysicalRoot base with
  | true =>
    obtain ⟨s, body, hdrop, hs⟩ := hasPhysicalRoot_iff.mp hroot
    refine components_extend h hs hdrop ?_ (.inl hverbatim)
    rw [append_eq_take (hlen ▸ hdrop), hp']
    exact (parsePrefix_take _ hp hv hs).2
  | false =>
    have hdrive : p.isDrive = false := by
      rw [isAbsolute, hasRoot, hroot, hp'] at hbase
      simpa [hasImplicitRoot] using hbase
    have hdrop : base.drop p.len = [] := by
      rcases prefix_drop hp hdrive with hdrop | ⟨s, rest, hs, hdrop⟩
      · exact hdrop
      · rw [hv] at hs
        rw [← hlen] at hdrop
        rw [hasPhysicalRoot_iff.mpr ⟨s, rest, hdrop, hs⟩] at hroot
        exact absurd hroot (by simp)
    have htake : base.take p.len = base := take_of_length_le (drop_eq_nil_iff.mp hdrop)
    have hne : p ≠ .deviceNs [] := by
      rintro rfl
      have hle' := drop_eq_nil_iff.mp hdrop
      simp only [len, length_nil] at hle hle'
      have hlen4 : base.length = 4 := by omega
      simp [bareDevice, hp, hlen4] at hdevice
    have hlast : windows.separatorAfter base = [backslash] := by
      rw [separatorAfter]
      exact if_pos ( last_of_prefix hp hv hdrive hdrop hne)
    have hstable : windows.parsePrefix (base ++ backslash :: joinSegments slash names) = some p := by
      have := (parsePrefix_take (joinSegments slash names) hp hv
        (s := backslash) (by decide)).2
      rwa [htake] at this
    have hdrop' : (base ++ backslash :: joinSegments slash names).drop
        (((some p).map len).getD 0) = backslash :: joinSegments slash names :=
      drop_left' (by rw [← congrArg List.length htake, length_take]; exact Nat.min_eq_left hle)
    rw [hlast, append_assoc, singleton_append,
      components_rooted hstable hdrop' (by decide), components_bare hp' hdrop]
    have hverbatim' : (some p).any isVerbatim = false := hv
    rw [hverbatim', bodyComponents_names separates_slash h]
    simp [hasImplicitRoot, hdrive, hv]

lemma foldl_pushComponent (names : List PathBytes) :
    ∀ buffer : List PathComponent,
      (names.map PathComponent.normal).foldl pushComponent buffer = buffer ++ names.map .normal := by
  induction names with
  | nil => simp
  | cons n names ih =>
    intro buffer
    rw [map_cons, foldl_cons, ih]
    simp [pushComponent]

def IsVerbatim (c : PathComponent) : Prop :=
  ∃ s : PathBytes, (∀ b ∈ s, windows.separates true b = false) ∧
    parseSingleComponent true s = some c ∧ ∀ raw, windows.asOsStr raw c = s

lemma isVerbatim_of_mem (h : c ∈ windows.bodyComponents true body) : IsVerbatim c := by
  obtain ⟨s, hs, hc⟩ := mem_filterMap.mp h
  refine ⟨s, mem_splitOnP hs, hc, fun raw => ?_⟩
  rw [parseSingleComponent] at hc
  split_ifs at hc with h₁ hv h₂
  · obtain rfl := some.inj hc
    exact h₁.symm
  · obtain rfl := some.inj hc
    exact h₂.symm
  · obtain rfl := some.inj hc
    rfl

lemma isVerbatim_normal (h : IsName windows n) : IsVerbatim (.normal n) := by
  refine ⟨n, fun b hb => ?_, parseSingleComponent_name h, fun _ => rfl⟩
  rw [Bool.eq_false_iff]
  intro hv
  exact Bool.noConfusion ((h.no_sep b hb).symm.trans (isSepByte_of_separates hv))

lemma IsVerbatim.plain (h : IsVerbatim c) : c ≠ .rootDir ∧ needsSeparator c = true := by
  obtain ⟨s, -, hs, -⟩ := h
  rw [parseSingleComponent] at hs
  split_ifs at hs
  all_goals
    obtain rfl := some.inj hs
    exact ⟨by simp, rfl⟩

lemma renderComponents_plain (raw : PathBytes) :
    ∀ {c : PathComponent} {cs : List PathComponent} (needSep : Bool),
      (∀ d ∈ c :: cs, IsVerbatim d) →
      windows.renderComponents raw needSep (c :: cs) =
        (if needSep then [backslash] else []) ++
          joinSegments backslash ((c :: cs).map (windows.asOsStr raw))
  | c, [], needSep, h => by
    have hc := (h c (by simp)).plain
    rw [renderComponents]
    cases needSep <;> simp [hc.1, renderComponents, joinSegments, primarySeparator]
  | c, d :: cs, needSep, h => by
    have hc := (h c (by simp)).plain
    rw [renderComponents, hc.2, renderComponents_plain raw true
      (fun e he => h e (mem_cons_of_mem c he))]
    cases needSep <;> simp [hc.1, joinSegments, primarySeparator]

lemma bodyComponents_render (h : ∀ c ∈ cs, IsVerbatim c) :
    windows.bodyComponents true (joinSegments backslash (cs.map (windows.asOsStr raw))) = cs := by
  by_cases hnil : cs = []
  · subst hnil
    rfl
  · rw [bodyComponents, splitOnP_joinSegments (by decide) (by simpa using hnil)]
    · rw [filterMap_map]
      refine (filterMap_congr (fun c hc => ?_)).trans filterMap_some
      obtain ⟨s, -, hs, hstr⟩ := h c hc
      rw [Function.comp_apply, hstr, hs]
    · intro s hs
      obtain ⟨c, hc, rfl⟩ := mem_map.mp hs
      obtain ⟨t, ht, -, hstr⟩ := h c hc
      rw [hstr]
      exact ht

lemma drop_joined (hlen : p.len ≤ base.length) :
    (base.take p.len ++ backslash :: rest).drop (((some p).map len).getD 0) = backslash :: rest :=
  drop_left' (by rw [length_take]; exact Nat.min_eq_left hlen)

lemma components_unrooted_ne (rest : PathBytes) (names : List PathBytes)
    (hlen : p.len ≤ base.length) :
    windows.components (base.take p.len ++ backslash :: rest) ≠
      .pathPrefix p :: names.map .normal := by
  intro heq
  have hjoined : windows.parsePrefix (base.take p.len ++ backslash :: rest) = some p :=
    parsePrefix_of_head (by rw [heq]; rfl)
  rw [components_rooted hjoined (drop_joined hlen) rfl] at heq
  cases names <;> simp at heq

lemma next_ne_nil (h : ∀ c ∈ cs, IsVerbatim c) (hne : cs ≠ []) :
    (parseNextComponent (joinSegments backslash (cs.map (windows.asOsStr raw))) true).1 ≠ [] := by
  obtain ⟨c, cs, rfl⟩ := exists_cons_of_ne_nil hne
  obtain ⟨s, hs, hc, hstr⟩ := h c (by simp)
  have hsne : s ≠ [] := by
    rintro rfl
    simp [parseSingleComponent] at hc
  have hhead : (joinSegments backslash ((c :: cs).map (windows.asOsStr raw))).head? = s.head? := by
    rw [map_cons, hstr, head_joinSegments hsne]
  obtain ⟨b, s, rfl⟩ := exists_cons_of_ne_nil hsne
  obtain ⟨t, ht⟩ := head?_eq_some_iff.mp hhead
  have hb : WindowsPrefix.isVerbatimSep b = false := hs b (by simp)
  rw [ht]
  simp [parseNextComponent, hb]

section Verbatim

variable {base : PathBytes} {names : List PathBytes} {p : PathPrefix}
  (hp : WindowsPrefix.parsePrefix base = some p) (hv : p.isVerbatim = true)
include hp hv

lemma verbatim_facts :
    p.isDrive = false ∧ windows.prefixLen base = p.len ∧ windows.prefixVerbatim base = true ∧
      needsSeparator (.pathPrefix p) = true := by
  have hdrive : p.isDrive = false := by
    cases p <;> simp_all [isDrive, isVerbatim]
  have hpos : p.len > 0 := by
    cases p <;> simp only [len] <;> omega
  have hp' : windows.parsePrefix base = some p := hp
  refine ⟨hdrive, ?_, ?_, by simp [needsSeparator, hdrive, hpos]⟩
  · rw [prefixLen, hp']
    rfl
  · rw [prefixVerbatim, hp']
    exact hv

lemma components_verbatim :
    (windows.hasPhysicalRoot base = true ∧ ∃ body, base.drop p.len = backslash :: body ∧
        windows.components base = .pathPrefix p :: .rootDir :: windows.bodyComponents true body) ∨
      windows.hasPhysicalRoot base = false ∧ base.drop p.len = [] ∧
        windows.components base = [.pathPrefix p] := by
  obtain ⟨hdrive, hlen, -, -⟩ := verbatim_facts hp hv
  have hp' : windows.parsePrefix base = some p := hp
  rcases prefix_drop hp hdrive with hdrop | ⟨s, body, hs, hdrop⟩
  · right
    refine ⟨?_, hdrop, ?_⟩
    · rw [hasPhysicalRoot, hlen, hdrop]
      rfl
    · rw [components_bare hp' hdrop]
      simp [hv]
  · left
    rw [hv] at hs
    obtain rfl := separator_true hs
    refine ⟨hasPhysicalRoot_iff.mpr ⟨backslash, body, hlen ▸ hdrop, rfl⟩, body, hdrop, ?_⟩
    rw [components_rooted hp' hdrop rfl]
    simp [hv]

lemma join_verbatim (hbase : windows.isAbsolute base = true)
    (h : ∀ n ∈ names, IsName windows n) (hne : names ≠ [])
    (hnames : windows.parsePrefix (joinSegments slash names) = none) :
    windows.join base (joinSegments slash names) =
      windows.renderComponents (base.take p.len) false
        (windows.components base ++ names.map .normal) := by
  obtain ⟨-, hlen, hverbatim, -⟩ := verbatim_facts hp hv
  have hne' : (joinSegments slash names).isEmpty = false := by
    rw [isEmpty_eq_false_iff, Ne, joinSegments_eq_nil h]
    exact hne
  rw [join, styledPush, if_neg (not_bare_drive hbase), isAbsolute_names h hnames, hnames, hverbatim,
    hne', components_names h hnames, foldl_pushComponent, hlen]
  rfl

lemma render_verbatim {cs : List PathComponent} (hcs : ∀ c ∈ cs, IsVerbatim c) (hne : cs ≠ [])
    (root : Bool) :
    windows.renderComponents (base.take p.len) false
        (.pathPrefix p :: (if root then [.rootDir] else []) ++ cs) =
      base.take p.len ++ backslash ::
        joinSegments backslash (cs.map (windows.asOsStr (base.take p.len))) := by
  obtain ⟨-, -, -, hneeds⟩ := verbatim_facts hp hv
  obtain ⟨c, cs, rfl⟩ := exists_cons_of_ne_nil hne
  cases root with
  | true =>
    change windows.renderComponents _ false (.pathPrefix p :: .rootDir :: c :: cs) = _
    rw [renderComponents, renderComponents, renderComponents_plain _ _ hcs]
    simp [asOsStr, needsSeparator, primarySeparator]
  | false =>
    change windows.renderComponents _ false (.pathPrefix p :: c :: cs) = _
    rw [renderComponents, hneeds, renderComponents_plain _ _ hcs]
    simp [asOsStr]

lemma components_join_verbatim (hbase : windows.isAbsolute base = true)
    (h : ∀ n ∈ names, IsName windows n) (hne : names ≠ [])
    (hnames : windows.parsePrefix (joinSegments slash names) = none) :
    windows.components (windows.join base (joinSegments slash names)) =
        windows.components base ++ names.map .normal ↔
      windows.hasPhysicalRoot base = true ∧ ∀ server, p ≠ .verbatimUnc server [] := by
  have hlen := prefix_len_le hp hv
  have hverb : ∀ c ∈ names.map PathComponent.normal, IsVerbatim c := by
    intro c hc
    obtain ⟨n, hn, rfl⟩ := mem_map.mp hc
    exact isVerbatim_normal (h n hn)
  rw [join_verbatim hp hv hbase h hne hnames]
  rcases components_verbatim hp hv with ⟨hroot, body, hdrop, hcomps⟩ | ⟨hroot, hdrop, hcomps⟩
  · have hcs : ∀ c ∈ windows.bodyComponents true body ++ names.map .normal, IsVerbatim c := by
      intro c hc
      rcases mem_append.mp hc with hc | hc
      · exact isVerbatim_of_mem hc
      · exact hverb c hc
    have htext := render_verbatim hp hv hcs (by simp [hne]) true
    have hjoined : windows.components base ++ names.map .normal =
        .pathPrefix p :: (if true then [.rootDir] else []) ++
          (windows.bodyComponents true body ++ names.map .normal) := by
      rw [hcomps]
      simp
    rw [hjoined, htext, hroot]
    simp only [true_and]
    constructor
    · rintro heq server rfl
      have hhead := parsePrefix_of_head (p := .verbatimUnc server []) (by rw [heq]; rfl)
      have hshare := parsePrefix_take_share (joinSegments backslash
        ((windows.bodyComponents true body ++ names.map PathComponent.normal).map
          (windows.asOsStr (base.take (verbatimUnc server []).len)))) hp
      have heq' := hhead.symm.trans hshare
      simp only [some.injEq, verbatimUnc.injEq, true_and] at heq'
      exact next_ne_nil hcs (by simp [hne]) heq'.symm
    · intro hshare
      have hstable : windows.parsePrefix (base.take p.len ++ backslash :: joinSegments backslash
          ((windows.bodyComponents true body ++ names.map PathComponent.normal).map
            (windows.asOsStr (base.take p.len)))) = some p :=
        parsePrefix_take_verbatim hp hv hdrop hshare
      rw [components_rooted hstable (drop_joined hlen) rfl]
      have hverbatim : (some p).any isVerbatim = true := hv
      rw [hverbatim, bodyComponents_render hcs]
      rfl
  · have htext := render_verbatim hp hv hverb (by simp [hne]) false
    rw [hcomps]
    change windows.components (windows.renderComponents _ false
      (.pathPrefix p :: (if false then [.rootDir] else []) ++ names.map .normal)) = _ ↔ _
    rw [htext, hroot]
    exact iff_of_false (components_unrooted_ne _ _ hlen) (by simp)

lemma components_join_verbatim_nil (hbase : windows.isAbsolute base = true) :
    windows.components (windows.join base []) = windows.components base ↔
      windows.hasPhysicalRoot base = true ∨ windows.separatorAfter base = [] := by
  have hp' : windows.parsePrefix base = some p := hp
  have hlen := prefix_len_le hp hv
  have hjoin : windows.join base [] = base ++ windows.separatorAfter base := by
    have := @join_eq_append windows [] base hbase (by simp) rfl (.inr rfl)
    simpa [joinSegments] using this
  rw [hjoin]
  by_cases hsep : windows.separatorAfter base = []
  · simp [hsep]
  · have hsep' : windows.separatorAfter base = [backslash] ∧
        base.getLast?.any (fun b => !windows.isSepByte b) = true := by
      rw [separatorAfter] at hsep ⊢
      split_ifs at hsep ⊢ with hlast
      · exact ⟨rfl, hlast⟩
      · exact absurd rfl hsep
    rcases components_verbatim hp hv with ⟨hroot, body, hdrop, -⟩ | ⟨hroot, hdrop, hcomps⟩
    · refine iff_of_true ?_ (.inl hroot)
      obtain ⟨-, hlen', -, -⟩ := verbatim_facts hp hv
      have hstable : windows.parsePrefix (base ++ [backslash]) = some p := by
        rw [append_eq_take hdrop]
        by_cases hshare : ∃ server, p = .verbatimUnc server []
        · obtain ⟨server, rfl⟩ := hshare
          -- the empty share ends at a second backslash
          have hbody := parsePrefix_take_share body hp
          have htext : base = base.take (8 + server.length) ++ backslash :: body := by
            conv_lhs => rw [← take_append_drop (8 + server.length) base]
            rw [← hdrop]
            rfl
          rw [← htext, hp] at hbody
          simp only [some.injEq, verbatimUnc.injEq, true_and] at hbody
          have hstep := parsePrefix_take_share (body ++ [backslash]) hp
          refine Eq.trans hstep ?_
          have hnext : (parseNextComponent (body ++ [backslash]) true).1 = [] := by
            cases body with
            | nil => rfl
            | cons b body =>
              rw [parseNextComponent_eq] at hbody ⊢
              rw [cons_append]
              cases hb : separator true b with
              | true => simp [hb]
              | false => simp [hb] at hbody
          rw [hnext]
        · exact parsePrefix_take_verbatim hp hv hdrop
            (fun server hserver => hshare ⟨server, hserver⟩)
      have hextend := @components_extend windows backslash [] body base (by simp) rfl (hlen' ▸ hdrop)
        (by simpa [hsep'.1, joinSegments, hp'] using hstable) (.inr rfl)
      simpa [joinSegments] using hextend
    · refine iff_of_false ?_ (by simp [hroot, hsep])
      have htake : base.take p.len = base := take_of_length_le (drop_eq_nil_iff.mp hdrop)
      have hne := components_unrooted_ne [] [] hlen
      rwa [htake, map_nil, ← hcomps, ← hsep'.1] at hne

end Verbatim

lemma components_head (hp : style.parsePrefix path = some p) :
    (style.components path).head? = some (.pathPrefix p) := by
  rw [components, hp]
  rfl

lemma parsePrefix_of_components (hp : style.parsePrefix base = some p)
    (h : style.components path = style.components base ++ cs) :
    style.parsePrefix path = some p := by
  refine parsePrefix_of_head ?_
  rw [h, head?_append, components_head hp]
  rfl

lemma components_join_device (hbase : windows.isAbsolute base = true)
    (hdevice : bareDevice base = true) (h : ∀ n ∈ names, IsName windows n)
    (hnames : windows.parsePrefix (joinSegments slash names) = none) :
    windows.components (windows.join base (joinSegments slash names)) =
        windows.components base ++ names.map .normal ↔ names = [] := by
  rw [bareDevice, Bool.and_eq_true, decide_eq_true_eq, decide_eq_true_eq] at hdevice
  obtain ⟨hp, hlen⟩ := hdevice
  obtain ⟨hjoined, hlast⟩ := parsePrefix_device (joinSegments slash names) hp hlen
  have hverbatim : windows.prefixVerbatim base = false := by
    rw [prefixVerbatim, parsePrefix, hp]
    rfl
  have hsep : windows.separatorAfter base = [] := by
    rw [separatorAfter]
    exact if_neg (by rw [Bool.not_eq_true]; exact hlast)
  rw [join_eq_append hbase h hnames (.inl hverbatim), hsep, append_nil]
  constructor
  · intro heq
    have hsame := hjoined.symm.trans (@parsePrefix_of_components windows _ _ _ _ hp heq)
    simp only [some.injEq, deviceNs.injEq] at hsame
    by_contra hne
    obtain ⟨b, r, hr⟩ := exists_cons_of_ne_nil (mt (joinSegments_eq_nil h).mp hne)
    have hb := head_not_sep slash h
    rw [hr] at hsame hb
    have hb' : WindowsPrefix.isSepByte b = false := hb
    simp [parseNextComponent, hb'] at hsame
  · rintro rfl
    simp [joinSegments]

lemma bodyComponents_length (v : Bool) (body : PathBytes) :
    (style.bodyComponents v body).length ≤ (body.splitOnP (style.separates v)).length :=
  length_filterMap_le _ _

lemma components_length_drive {d : UInt8} (hp : windows.parsePrefix path = some (.disk d)) :
    (windows.components path).length ≤ 1 + ((path.drop 2).splitOnP windows.isSepByte).length := by
  have hlen : windows.prefixLen path = 2 := by
    rw [prefixLen, hp]
    rfl
  cases hroot : windows.hasPhysicalRoot path with
  | true =>
    obtain ⟨s, rest, hdrop, hs⟩ := hasPhysicalRoot_iff.mp hroot
    have hbody : (windows.bodyComponents false rest).length ≤
        (rest.splitOnP windows.isSepByte).length := bodyComponents_length false rest
    rw [hlen] at hdrop
    rw [components_rooted hp hdrop hs, hdrop, splitOnP_cons_eq_if_modifyHead, if_pos hs]
    simp only [map_some, toList_some, singleton_append, length_cons]
    change (windows.bodyComponents false rest).length + 1 + 1 ≤ _
    omega
  | false =>
    have hbody : (windows.bodyComponents false (path.drop 2)).length ≤
        ((path.drop 2).splitOnP windows.isSepByte).length := bodyComponents_length false _
    rw [components, startComponents, hroot, if_neg (by simp), hp, prefixVerbatim, hp, hlen]
    change (PathComponent.pathPrefix (.disk d) :: windows.bodyComponents false _).length ≤ _
    rw [length_cons]
    omega

lemma components_join_drive (hbase : windows.isAbsolute base = true)
    (hp : WindowsPrefix.parsePrefix base = some p) (h : ∀ n ∈ names, IsName windows n)
    (hdrive : windows.noDrive names = false) :
    windows.components (windows.join base (joinSegments slash names)) ≠
      windows.components base ++ names.map .normal := by
  intro heq
  obtain ⟨q, hq⟩ := ne_none_iff_exists'.mp
    (mt (parsePrefix_names h).mp (by rw [hdrive]; simp))
  have hjoin : windows.join base (joinSegments slash names) = joinSegments slash names := by
    rw [join, styledPush, hq]
    simp
  rw [hjoin] at heq
  have hsame := hq.symm.trans (parsePrefix_of_components hp heq)
  have hdisk := hq
  rw [parsePrefix, parsePrefix_windows_names h] at hdisk
  obtain ⟨d, hd, rfl⟩ := map_eq_some_iff.mp hdisk
  obtain rfl := some.inj hsame
  -- an absolute base on a drive has a root besides it
  have hroot : windows.hasPhysicalRoot base = true := by
    have hp' : windows.parsePrefix base = some (.disk d) := hp
    rw [isAbsolute, hasRoot, hp'] at hbase
    simpa [hasImplicitRoot, isDrive] using hbase
  obtain ⟨s, rest, hdrop, hs⟩ := hasPhysicalRoot_iff.mp hroot
  have hlen := congrArg List.length heq
  have hle := components_length_drive hq
  have hdrop' : base.drop (((some (disk d)).map len).getD 0) = s :: rest := by
    have hlen' : windows.prefixLen base = 2 := by
      rw [prefixLen, parsePrefix, hp]
      rfl
    rwa [hlen'] at hdrop
  rw [@components_rooted windows _ _ _ _ hp hdrop' hs] at hlen
  obtain ⟨x, y, t, htext, rfl, -⟩ := parseDrive_length hd
  cases names with
  | nil => simp [joinSegments] at htext
  | cons n ns =>
    have hn := h n (by simp)
    have hsplit : ((joinSegments slash (n :: ns)).drop 2).splitOnP windows.isSepByte =
        n.drop 2 :: ns := by
      rw [parseDrive_joinSegments hn.ne_nil (by decide)] at hd
      obtain ⟨x', y', t', rfl, -⟩ := parseDrive_length hd
      have hcut : (joinSegments slash ((x' :: y' :: t') :: ns)).drop 2 =
          joinSegments slash (t' :: ns) := by
        cases ns <;> rfl
      rw [hcut]
      refine splitOnP_joinSegments (by decide) (by simp) (fun u hu b hb => ?_)
      rcases mem_cons.mp hu with rfl | hu
      · exact hn.no_sep b (by simp [hb])
      · exact (h u (by simp [hu])).no_sep b hb
    rw [hsplit] at hle
    simp only [map_some, toList_some, singleton_append, length_append, length_cons,
      length_map] at hlen hle
    omega

def missingShare (base : PathBytes) : Bool :=
  match WindowsPrefix.parsePrefix base with
  | some (.verbatimUnc _ share) => share.isEmpty
  | _ => false

/-- Whether names come after a Windows base: a bare device and a verbatim server without share take
the first one, and a verbatim base without root gets one. -/
def extendable (base : PathBytes) (names : List PathBytes) : Bool :=
  if windows.prefixVerbatim base then
    if names.isEmpty then windows.hasPhysicalRoot base || base.getLast?.all windows.isSepByte
    else windows.hasPhysicalRoot base && !missingShare base
  else names.isEmpty || !bareDevice base

/-- Whether a path stays inside a base: on Windows, the first of its names is not a drive and the
base is followed by them. -/
def joinsInside (style : PathStyle) (path base : PathBytes) : Bool :=
  match style with
  | unix => true
  | windows =>
    (resolve windows path).any (fun names => windows.noDrive names && extendable base names)

lemma separatorAfter_eq_nil :
    windows.separatorAfter base = [] ↔ base.getLast?.all windows.isSepByte = true := by
  rw [separatorAfter]
  cases base.getLast? with
  | none => simp
  | some b => simp

lemma missingShare_eq_false (hp : WindowsPrefix.parsePrefix base = some p) :
    missingShare base = false ↔ ∀ server, p ≠ .verbatimUnc server [] := by
  rw [missingShare, hp]
  cases p <;> simp

lemma components_join_extendable (hbase : windows.isAbsolute base = true)
    (h : ∀ n ∈ names, IsName windows n)
    (hnames : windows.parsePrefix (joinSegments slash names) = none) :
    windows.components (windows.join base (joinSegments slash names)) =
        windows.components base ++ names.map .normal ↔ extendable base names = true := by
  have hsome : (windows.parsePrefix base).isSome = true := by
    rw [isAbsolute, Bool.and_eq_true] at hbase
    exact hbase.2
  obtain ⟨p, hp⟩ := isSome_iff_exists.mp hsome
  have hverbatim : windows.prefixVerbatim base = p.isVerbatim := by
    rw [prefixVerbatim, hp]
    rfl
  rw [extendable, hverbatim]
  cases hv : p.isVerbatim with
  | true =>
    rw [if_pos rfl]
    by_cases hnil : names = []
    · subst hnil
      rw [if_pos (by rfl), Bool.or_eq_true, ← separatorAfter_eq_nil, map_nil, append_nil]
      exact components_join_verbatim_nil hp hv hbase
    · rw [if_neg (by simpa using hnil), Bool.and_eq_true, Bool.not_eq_true',
        missingShare_eq_false hp]
      exact components_join_verbatim hp hv hbase h hnil hnames
  | false =>
    rw [if_neg (by simp)]
    cases hdevice : bareDevice base with
    | true =>
      rw [components_join_device hbase hdevice h hnames]
      simp
    | false => simp [components_join_windows hbase hp hv hdevice h hnames]

/-- An accepted path joined to an absolute base has the components of the base and then its own
just when it stays inside the base. -/
theorem components_join_iff {style : PathStyle} {path base r : PathBytes}
    (h : RelPath.new style path = .ok r) (hbase : style.isAbsolute base = true) :
    style.components (style.join base r) =
        style.components base ++ (RelPath.components r).map .normal ↔
      joinsInside style path base = true := by
  obtain ⟨names, hresolve, rfl⟩ := RelPath.new_eq h
  have hnames := resolve_names hresolve
  rw [relPathComponents_joinSegments hnames]
  cases style with
  | unix => exact iff_of_true (components_join_unix hbase hnames) rfl
  | windows =>
    rw [joinsInside, hresolve]
    simp only [any_some, Bool.and_eq_true]
    cases hdrive : windows.noDrive names with
    | true =>
      rw [components_join_extendable hbase hnames ((parsePrefix_names hnames).mpr hdrive)]
      simp
    | false =>
      have hsome : (windows.parsePrefix base).isSome = true := by
        rw [isAbsolute, Bool.and_eq_true] at hbase
        exact hbase.2
      obtain ⟨p, hp⟩ := isSome_iff_exists.mp hsome
      simpa using components_join_drive hbase hp hnames hdrive

/-- `a\..\b` on `C:\x`. -/
theorem components_join_resolved :
    RelPath.new windows [97, 92, 46, 46, 92, 98] = .ok [98] ∧
      joinsInside windows [97, 92, 46, 46, 92, 98] [67, 58, 92, 120] = true ∧
      windows.components (windows.join [67, 58, 92, 120] [98]) =
        windows.components [67, 58, 92, 120] ++ (RelPath.components [98]).map .normal :=
  ⟨by decide, by decide, (@components_join_iff windows [97, 92, 46, 46, 92, 98]
    [67, 58, 92, 120] [98] (by decide) (by decide)).mpr (by decide)⟩

/-- `C:foo` is accepted and replaces `C:\x`. -/
theorem drive_replaces_base :
    ¬ ∀ (style : PathStyle) (path base r : PathBytes), RelPath.new style path = .ok r →
      style.isAbsolute base = true → style.components (style.join base r) =
        style.components base ++ (RelPath.components r).map .normal := by
  intro hall
  have h := hall windows [67, 58, 102, 111, 111] [67, 58, 92, 120] [67, 58, 102, 111, 111]
    (by decide) (by decide)
  exact absurd h (by decide)

end PathStyle

end GpuiFast
