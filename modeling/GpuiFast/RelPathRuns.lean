import GpuiFast.RelPathIterators

/-! Every operation gives names put together again, but for an extension that is taken off a name of dots:
what is left of it is `.` or `..`. Prefixes and suffixes of such paths are those of their names, and
both ends of their iterators meet after each item has been given once. -/

namespace GpuiFast

open List Option PathStyle

open PathBytes

namespace RelPath

section Names

variable {names other : List PathBytes}

lemma splitOnP_names (h : ∀ n ∈ names, IsName .unix n) (hnil : names ≠ []) :
    (joinSegments slash names).splitOnP (fun b => b = slash) = names := by
  apply splitOnP_joinSegments (by simp) hnil
  intro s hs b hb
  have hne : b ≠ slash := fun hb' => (h s hs).no_slash (hb' ▸ hb)
  simpa using hne

lemma joinSegments_inj (h : ∀ n ∈ names, IsName .unix n) (hother : ∀ n ∈ other, IsName .unix n)
    (heq : joinSegments slash names = joinSegments slash other) : names = other := by
  rw [← relPathComponents_joinSegments h, heq, relPathComponents_joinSegments hother]

lemma stripPrefix_append {rest : List PathBytes} (h : ∀ n ∈ other, IsName .unix n) :
    stripPrefix (joinSegments slash (other ++ rest)) (joinSegments slash other) =
      some (joinSegments slash rest) := by
  unfold stripPrefix
  simp only [List.isEmpty_iff, joinSegments_eq_nil h]
  split_ifs with hnil
  · rw [hnil, nil_append]
  · by_cases hrest : rest = []
    · subst hrest
      have hsame : (joinSegments slash other).isPrefixOf? (joinSegments slash other) =
          some [] := by
        rw [isPrefixOf?_eq_some_iff_append_eq, append_nil]
      rw [append_nil, hsame]
      rfl
    · have hsuffix : (joinSegments slash other).isPrefixOf?
          (joinSegments slash (other ++ rest)) = some (slash :: joinSegments slash rest) := by
        rw [isPrefixOf?_eq_some_iff_append_eq, joinSegments_append hnil hrest]
      rw [hsuffix]
      simp

lemma startsWith_iff (h : ∀ n ∈ names, IsName .unix n) (hother : ∀ n ∈ other, IsName .unix n) :
    startsWith (joinSegments slash names) (joinSegments slash other) = true ↔ other <+: names := by
  constructor
  · intro hstarts
    unfold startsWith stripPrefix at hstarts
    simp only [List.isEmpty_iff, joinSegments_eq_nil hother] at hstarts
    split_ifs at hstarts with hnil
    · rw [hnil]
      exact nil_prefix
    · cases hsuffix : (joinSegments slash other).isPrefixOf? (joinSegments slash names) with
      | none => simp [hsuffix] at hstarts
      | some suffix =>
        have happ := isPrefixOf?_eq_some_iff_append_eq.mp hsuffix
        rw [hsuffix] at hstarts
        cases suffix with
        | nil =>
          rw [append_nil] at happ
          rw [joinSegments_inj hother h happ]
        | cons b suffix =>
          obtain rfl : b = slash := by
            by_contra hb
            simp [hb] at hstarts
          have hnames : names ≠ [] := by
            rintro rfl
            simp [joinSegments] at happ
          refine ⟨suffix.splitOnP (fun b => b = slash), ?_⟩
          rw [← splitOnP_names h hnames, ← happ, splitOnP_append_cons _ _ (by simp),
            splitOnP_names hother hnil]
  · rintro ⟨rest, rfl⟩
    unfold startsWith
    rw [stripPrefix_append hother]
    rfl

lemma endsWith_iff (h : ∀ n ∈ names, IsName .unix n) (hother : ∀ n ∈ other, IsName .unix n) :
    endsWith (joinSegments slash names) (joinSegments slash other) = true ↔ other <:+ names := by
  unfold endsWith
  simp only [List.isEmpty_iff, joinSegments_eq_nil hother]
  split_ifs with hnil
  · simp [hnil]
  · constructor
    · intro hends
      cases hsuffix : (joinSegments slash other).isSuffixOf? (joinSegments slash names) with
      | none => simp [hsuffix] at hends
      | some front =>
        have happ := isSuffixOf?_eq_some_iff_append_eq.mp hsuffix
        simp only [hsuffix, Bool.or_eq_true, decide_eq_true_eq] at hends
        rcases hends with hlast | hfront
        · obtain ⟨init, rfl⟩ := getLast?_eq_some_iff.mp hlast
          rw [List.append_assoc, singleton_append] at happ
          have hnames : names ≠ [] := by
            rintro rfl
            simp [joinSegments] at happ
          refine ⟨init.splitOnP (fun b => b = slash), ?_⟩
          rw [← splitOnP_names h hnames, ← happ, splitOnP_append_cons _ _ (by simp),
            splitOnP_names hother hnil]
        · rw [List.isEmpty_iff.mp hfront, nil_append] at happ
          rw [joinSegments_inj hother h happ]
    · rintro ⟨init, rfl⟩
      by_cases hinit : init = []
      · subst hinit
        have hsame : (joinSegments slash other).isSuffixOf?
            (joinSegments slash ([] ++ other)) = some [] := by
          rw [isSuffixOf?_eq_some_iff_append_eq]
          rfl
        rw [hsame]
        simp
      · have hfront : (joinSegments slash other).isSuffixOf?
            (joinSegments slash (init ++ other)) =
              some (joinSegments slash init ++ [slash]) := by
          rw [isSuffixOf?_eq_some_iff_append_eq, joinSegments_append hinit hnil]
          simp
        rw [hfront]
        simp

end Names

variable {file other : PathBytes} {P : PathBytes → Prop}

lemma fileStem_spec (h : IsName .unix file) :
    ∃ stem, fileStem file = some stem ∧ stem ≠ [] ∧ slash ∉ stem := by
  unfold fileStem rsplitFileAtDot
  rw [if_neg h.ne_dots]
  split_ifs with hdot
  · dsimp only
    split_ifs with hbefore
    · exact ⟨file, rfl, h.ne_nil, h.no_slash⟩
    · refine ⟨_, rfl, hbefore, ?_⟩
      rw [mem_reverse]
      intro hmem
      have hsub := (dropWhile_sublist _).subset (mem_of_mem_drop hmem)
      exact h.no_slash (mem_reverse.mp hsub)
  · exact ⟨file, rfl, h.ne_nil, h.no_slash⟩

lemma isName_withExtension (h : IsName .unix file) (extension : Extension)
    (hstem : extension.1 = [] → fileStem file ≠ some [dot] ∧ fileStem file ≠ some [dot, dot]) :
    IsName .unix (withExtension file extension) := by
  obtain ⟨stem, hfile, hnil, hslash⟩ := fileStem_spec h
  unfold withExtension
  rw [if_neg (by simp [h.ne_dot, h.ne_dots]), hfile]
  dsimp only
  have hno : ∀ l : PathBytes, slash ∉ l → ∀ b ∈ l, unix.isSepByte b = false := by
    intro l hl b hb
    have hne : b ≠ slash := fun hb' => hl (hb' ▸ hb)
    simpa [isSepByte] using hne
  split_ifs with hempty
  · rw [hfile] at hstem
    have hdots := hstem (List.isEmpty_iff.mp hempty)
    refine ⟨hnil, ?_, ?_, hno stem hslash⟩
    · rintro rfl
      exact hdots.1 rfl
    · rintro rfl
      exact hdots.2 rfl
  · have hextension : extension.1 ≠ [] := by simpa using hempty
    have hlen : 3 ≤ (stem ++ [dot] ++ extension.1).length := by
      have := length_pos_iff.mpr hnil
      have := length_pos_iff.mpr hextension
      simp only [length_append, length_cons, length_nil]
      omega
    have hshort : ∀ l : PathBytes, l.length < 3 → stem ++ [dot] ++ extension.1 ≠ l := by
      intro l hl heq
      rw [heq] at hlen
      omega
    refine ⟨hshort [] (by simp), hshort [dot] (by simp), hshort [dot, dot] (by simp), hno _ ?_⟩
    simp only [mem_append, mem_singleton, not_or]
    exact ⟨⟨hslash, by decide⟩, extension.2⟩

def NormalForm (path : PathBytes) : Prop := ∃ names, HoldsNames path names

lemma push_eq_join (path other : PathBytes) : push path other = join path other := by
  unfold push join
  split_ifs with hother hpath <;> simp_all

variable {path r : PathBytes} {paths : List PathBytes}

lemma NormalForm.join (h : NormalForm path) (hother : NormalForm other) :
    NormalForm (join path other) := by
  obtain ⟨names, hnames, rfl⟩ := h
  obtain ⟨others, hothers, rfl⟩ := hother
  refine ⟨names ++ others, ?_, join_joinSegments hnames hothers⟩
  intro n hn
  exact (mem_append.mp hn).elim (hnames n) (hothers n)

lemma NormalForm.of_name {n : PathBytes} (h : IsName .unix n) : NormalForm n :=
  ⟨[n], by simpa using h, rfl⟩

lemma NormalForm.new {style : PathStyle} (h : RelPath.new style path = .ok r) : NormalForm r := by
  obtain ⟨names, hres, rfl⟩ := new_eq h
  refine ⟨names, ?_, rfl⟩
  intro n hn
  have hname := resolve_names hres n hn
  refine ⟨hname.ne_nil, hname.ne_dot, hname.ne_dots, ?_⟩
  intro b hb
  have hne : b ≠ slash := fun hslash => hname.no_slash (hslash ▸ hb)
  simpa [isSepByte] using hne

lemma NormalForm.pushComponent {component : PathBytes} (h : NormalForm path)
    (hpush : pushComponent path component = some r) : NormalForm r := by
  unfold RelPath.pushComponent at hpush
  by_cases hcomponent : !component.isEmpty ∧ slash ∉ component ∧ component ≠ [dot] ∧
      component ≠ [dot, dot]
  · rw [if_pos hcomponent] at hpush
    obtain ⟨hnil, hslash, hdot, hdots⟩ := hcomponent
    have hname : IsName .unix component := by
      refine ⟨by simpa using hnil, hdot, hdots, ?_⟩
      intro b hb
      have hne : b ≠ slash := fun hb' => hslash (hb' ▸ hb)
      simpa [isSepByte] using hne
    have hjoin : (if path.isEmpty then path else path ++ [slash]) ++ component =
        RelPath.join path component := by
      unfold RelPath.join
      cases path <;> simp [hname.ne_nil]
    rw [hjoin] at hpush
    obtain rfl := some.inj hpush
    exact h.join (.of_name hname)
  · rw [if_neg hcomponent] at hpush
    simp at hpush

lemma NormalForm.pop (h : NormalForm path) (hpop : pop path = some r) : NormalForm r := by
  obtain ⟨names, hnames, rfl⟩ := h
  rw [pop_joinSegments hnames] at hpop
  split_ifs at hpop
  obtain rfl := some.inj hpop
  exact ⟨names.dropLast, fun n hn => hnames n (mem_of_mem_dropLast hn), rfl⟩

lemma NormalForm.parent (h : NormalForm path) (hparent : parent path = some r) :
    NormalForm r := by
  obtain ⟨names, hnames, rfl⟩ := h
  rcases eq_nil_or_concat names with rfl | ⟨init, n, rfl⟩
  · exact absurd hparent (by simp [RelPath.parent, nextBackComponent_nil])
  · rw [concat_eq_append] at hnames hparent
    rw [parent_concat (hnames n (by simp))] at hparent
    obtain rfl := some.inj hparent
    exact ⟨init, fun m hm => hnames m (by simp [hm]), rfl⟩

lemma NormalForm.lastNComponents {count : ℕ} (h : NormalForm path)
    (hlast : lastNComponents path count = some r) : NormalForm r := by
  obtain ⟨names, hnames, rfl⟩ := h
  rw [lastNComponents_joinSegments count hnames] at hlast
  split_ifs at hlast
  obtain rfl := some.inj hlast
  exact ⟨_, fun n hn => hnames n (mem_of_mem_drop hn), rfl⟩

lemma NormalForm.stripPrefix (h : NormalForm path) (hother : NormalForm other)
    (hstrip : stripPrefix path other = some r) : NormalForm r := by
  obtain ⟨names, hnames, rfl⟩ := h
  obtain ⟨others, hothers, rfl⟩ := hother
  have hstarts : startsWith (joinSegments slash names) (joinSegments slash others) = true := by
    unfold startsWith
    rw [hstrip]
    rfl
  obtain ⟨rest, rfl⟩ := (startsWith_iff hnames hothers).mp hstarts
  rw [stripPrefix_append hothers] at hstrip
  obtain rfl := some.inj hstrip
  exact ⟨rest, fun n hn => hnames n (mem_append_right others hn), rfl⟩

lemma NormalForm.setExtension {extension : Extension} (h : NormalForm path)
    (hstem : extension.1 = [] → ∀ file, fileName path = some file →
      fileStem file ≠ some [dot] ∧ fileStem file ≠ some [dot, dot])
    (hset : setExtension path extension = some r) : NormalForm r := by
  unfold RelPath.setExtension at hset
  obtain ⟨file, hfile, rfl⟩ := map_eq_some_iff.mp hset
  obtain ⟨names, hnames, rfl⟩ := h
  rcases eq_nil_or_concat names with rfl | ⟨init, n, rfl⟩
  · exact absurd hfile (by simp [fileName, nextBackComponent_nil])
  · rw [concat_eq_append] at hnames hfile hstem ⊢
    have hn := hnames n (by simp)
    rw [fileName_concat hn] at hfile hstem
    obtain rfl := some.inj hfile
    have hname := isName_withExtension hn extension (fun hempty => hstem hempty n rfl)
    rw [pop_joinSegments hnames, if_neg (by simp), dropLast_concat, getD_some,
      push_eq_join]
    exact NormalForm.join ⟨init, fun m hm => hnames m (by simp [hm]), rfl⟩ (.of_name hname)

inductive Operation where
  | new (style : PathStyle) (path : PathBytes)
  | push (target source : ℕ)
  | pushComponent (target : ℕ) (component : PathBytes)
  | pop (target : ℕ)
  | join (left right : ℕ)
  | parent (source : ℕ)
  | stripPrefix (source other : ℕ)
  | setExtension (target : ℕ) (extension : Extension)
  | lastNComponents (source count : ℕ)

def change (paths : List PathBytes) (target : ℕ) (f : PathBytes → Option PathBytes) :
    List PathBytes :=
  match paths[target]? with
  | none => paths
  | some path =>
    match f path with
    | none => paths
    | some changed => paths.set target changed

def add (paths : List PathBytes) (path : Option PathBytes) : List PathBytes :=
  paths ++ path.toList

def step (paths : List PathBytes) : Operation → List PathBytes
  | .new style path => add paths (RelPath.new style path).toOption
  | .push target source =>
    change paths target (fun path => paths[source]?.map (push path))
  | .pushComponent target component =>
    change paths target (fun path => pushComponent path component)
  | .pop target => change paths target pop
  | .join left right =>
    add paths (paths[left]?.bind (fun path => paths[right]?.map (join path)))
  | .parent source => add paths (paths[source]?.bind parent)
  | .stripPrefix source other =>
    add paths (paths[source]?.bind (fun path => paths[other]?.bind (stripPrefix path)))
  | .setExtension target extension =>
    change paths target (fun path => setExtension path extension)
  | .lastNComponents source count =>
    add paths (paths[source]?.bind (fun path => lastNComponents path count))

def run (paths : List PathBytes) (operations : List Operation) : List PathBytes :=
  operations.foldl step paths

/-- No extension is taken off a name that has only `.` or `..` in front of it. -/
def LeavesNoDots (paths : List PathBytes) : Operation → Prop
  | .setExtension target extension => extension.1 = [] →
      ∀ path, paths[target]? = some path → ∀ file, fileName path = some file →
        fileStem file ≠ some [dot] ∧ fileStem file ≠ some [dot, dot]
  | _ => True

def LeavesNoDotsAlong : List PathBytes → List Operation → Prop
  | _, [] => True
  | paths, operation :: operations =>
    LeavesNoDots paths operation ∧ LeavesNoDotsAlong (step paths operation) operations

lemma change_forall {target : ℕ} {f : PathBytes → Option PathBytes} (h : ∀ path ∈ paths, P path)
    (hf : ∀ path, paths[target]? = some path → ∀ changed, f path = some changed → P changed) :
    ∀ path ∈ change paths target f, P path := by
  unfold change
  cases htarget : paths[target]? with
  | none => exact h
  | some path =>
    cases hchanged : f path with
    | none => simpa [hchanged] using h
    | some changed =>
      simp only [hchanged]
      intro p hp
      rcases mem_or_eq_of_mem_set hp with hp | rfl
      · exact h p hp
      · exact hf path htarget _ hchanged

lemma add_forall {added : Option PathBytes} (h : ∀ path ∈ paths, P path)
    (hadded : ∀ path, added = some path → P path) : ∀ path ∈ add paths added, P path := by
  intro path hpath
  rcases mem_append.mp hpath with hpath | hpath
  · exact h path hpath
  · exact hadded path (mem_toList.mp hpath)

lemma step_normal {operation : Operation} (h : ∀ path ∈ paths, NormalForm path)
    (hdots : LeavesNoDots paths operation) : ∀ path ∈ step paths operation, NormalForm path := by
  have hget : ∀ {i : ℕ} {path : PathBytes}, paths[i]? = some path → NormalForm path :=
    fun hpath => h _ (mem_of_getElem? hpath)
  cases operation with
  | new style path =>
    apply add_forall h
    intro r hr
    cases hnew : RelPath.new style path with
    | error e => simp [hnew, Except.toOption] at hr
    | ok r' =>
      rw [hnew] at hr
      obtain rfl := some.inj hr
      exact NormalForm.new hnew
  | push target source =>
    apply change_forall h
    intro path hpath changed hchanged
    obtain ⟨other, hother, rfl⟩ := map_eq_some_iff.mp hchanged
    rw [push_eq_join]
    exact (hget hpath).join (hget hother)
  | pushComponent target component =>
    apply change_forall h
    exact fun path hpath changed hchanged => (hget hpath).pushComponent hchanged
  | pop target =>
    apply change_forall h
    exact fun path hpath changed hchanged => (hget hpath).pop hchanged
  | join left right =>
    apply add_forall h
    intro r hr
    obtain ⟨path, hpath, hr⟩ := bind_eq_some_iff.mp hr
    obtain ⟨other, hother, rfl⟩ := map_eq_some_iff.mp hr
    exact (hget hpath).join (hget hother)
  | parent source =>
    apply add_forall h
    intro r hr
    obtain ⟨path, hpath, hr⟩ := bind_eq_some_iff.mp hr
    exact (hget hpath).parent hr
  | stripPrefix source other =>
    apply add_forall h
    intro r hr
    obtain ⟨path, hpath, hr⟩ := bind_eq_some_iff.mp hr
    obtain ⟨stripped, hstripped, hr⟩ := bind_eq_some_iff.mp hr
    exact (hget hpath).stripPrefix (hget hstripped) hr
  | setExtension target extension =>
    apply change_forall h
    intro path hpath changed hchanged
    exact (hget hpath).setExtension (fun hempty => hdots hempty path hpath) hchanged
  | lastNComponents source count =>
    apply add_forall h
    intro r hr
    obtain ⟨path, hpath, hr⟩ := bind_eq_some_iff.mp hr
    exact (hget hpath).lastNComponents hr

lemma run_normal (operations : List Operation) (h : ∀ path ∈ paths, NormalForm path)
    (hdots : LeavesNoDotsAlong paths operations) :
    ∀ path ∈ run paths operations, NormalForm path := by
  induction operations generalizing paths with
  | nil => exact h
  | cons operation operations ih =>
    unfold LeavesNoDotsAlong at hdots
    exact ih (step_normal h hdots.1) hdots.2

structure ActOnComponents (paths : List PathBytes) : Prop where
  normal : ∀ path ∈ paths, NormalForm path
  stripJoined : ∀ path ∈ paths, ∀ other ∈ paths, stripPrefix (join path other) path = some other
  starts : ∀ path ∈ paths, ∀ other ∈ paths,
    startsWith path other = true ↔ components other <+: components path
  ends : ∀ path ∈ paths, ∀ other ∈ paths,
    endsWith path other = true ↔ components other <:+ components path
  componentsOnce : ∀ path ∈ paths, componentsIter.GivesOnce path (components path)
  ancestorsOnce : ∀ path ∈ paths,
    ancestorsIter.GivesOnce (ancestors path) (ancestorsFrom [] (components path))

lemma actOnComponents_of_normal (h : ∀ path ∈ paths, NormalForm path) :
    ActOnComponents paths := by
  constructor
  · exact h
  · intro path hpath other hother
    obtain ⟨names, hnames, rfl⟩ := h path hpath
    obtain ⟨others, hothers, rfl⟩ := h other hother
    rw [join_joinSegments hnames hothers, stripPrefix_append hnames]
  · intro path hpath other hother
    obtain ⟨names, hnames, rfl⟩ := h path hpath
    obtain ⟨others, hothers, rfl⟩ := h other hother
    rw [startsWith_iff hnames hothers, relPathComponents_joinSegments hnames,
      relPathComponents_joinSegments hothers]
  · intro path hpath other hother
    obtain ⟨names, hnames, rfl⟩ := h path hpath
    obtain ⟨others, hothers, rfl⟩ := h other hother
    rw [endsWith_iff hnames hothers, relPathComponents_joinSegments hnames,
      relPathComponents_joinSegments hothers]
  · intro path hpath
    obtain ⟨names, hnames, rfl⟩ := h path hpath
    rw [relPathComponents_joinSegments hnames]
    exact componentsIter_gives.givesOnce ⟨hnames, rfl⟩
  · intro path hpath
    obtain ⟨names, hnames, rfl⟩ := h path hpath
    rw [relPathComponents_joinSegments hnames]
    exact ancestorsIter_gives.givesOnce (holdsAncestors_ancestors hnames)

/-- A run that takes no extension off a name of dots keeps all its paths names put together, and acts
on the names. -/
theorem run_actOnComponents (operations : List Operation)
    (hdots : LeavesNoDotsAlong [] operations) : ActOnComponents (run [] operations) :=
  actOnComponents_of_normal (run_normal operations (by simp) hdots)

/-- `a.b` loses its extension. -/
theorem run_actOnComponents_extension :
    ActOnComponents (run [] [.new .unix [97, 46, 98], .setExtension 0 ⟨[], by simp⟩]) := by
  apply run_actOnComponents
  refine ⟨trivial, ?_, trivial⟩
  intro _ path hpath file hfile
  have hnew : step [] (.new .unix [97, 46, 98]) = [[97, 46, 98]] := by decide
  rw [hnew] at hpath
  obtain rfl := some.inj hpath
  have hname : fileName [97, 46, 98] = some [97, 46, 98] := by decide
  rw [hname] at hfile
  obtain rfl := some.inj hfile
  decide

/-- `...` loses its extension and is `..`. -/
theorem not_run_actOnComponents_dots :
    ¬ ∀ operations : List Operation, ActOnComponents (run [] operations) := by
  intro hall
  have hrun : run [] [.new .unix [46, 46, 46], .setExtension 0 ⟨[], by simp⟩] = [[46, 46]] := by
    decide
  obtain ⟨names, hnames, heq⟩ := (hall
    [.new .unix [46, 46, 46], .setExtension 0 ⟨[], by simp⟩]).normal [46, 46] (by simp [hrun])
  have hcomponents := relPathComponents_joinSegments hnames
  rw [← heq] at hcomponents
  have hdots : components [46, 46] = [[46, 46]] := by decide
  rw [hdots] at hcomponents
  exact (hnames [46, 46] (by simp [← hcomponents])).ne_dots rfl

end RelPath

end GpuiFast
