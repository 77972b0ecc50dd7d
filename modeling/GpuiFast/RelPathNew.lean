import GpuiFast.PathStyle

/-! An accepted path is the names left of the segments between its separators, once `.` and `..` are
resolved, with a slash between them. -/

namespace GpuiFast

open List RelPath WindowsPrefix

open PathBytes

def joinSegments (sep : UInt8) : List PathBytes → PathBytes
  | [] => []
  | [s] => s
  | s :: t :: rest => s ++ sep :: joinSegments sep (t :: rest)

variable {sep : UInt8} {s : PathBytes} {style : PathStyle} {names : List PathBytes}
  (segments : List PathBytes) {path : PathBytes}

lemma joinSegments_cons (s : PathBytes) {rest : List PathBytes} (h : rest ≠ []) :
    joinSegments sep (s :: rest) = s ++ sep :: joinSegments sep rest := by
  cases rest with
  | nil => exact absurd rfl h
  | cons t rest => rfl

lemma joinSegments_concat (s : PathBytes) :
    ∀ {names : List PathBytes}, names ≠ [] →
      joinSegments sep (names ++ [s]) = joinSegments sep names ++ sep :: s
  | [], h => absurd rfl h
  | [t], _ => rfl
  | t :: u :: rest, _ => by
    have ih : joinSegments sep ((u :: rest) ++ [s]) = joinSegments sep (u :: rest) ++ sep :: s :=
      joinSegments_concat s (by simp)
    rw [cons_append, joinSegments_cons t (by simp), ih, joinSegments_cons t (by simp)]
    simp

variable {p : UInt8 → Bool} {l seps r : PathBytes}

lemma splitOnP_joinSegments (hsep : p sep = true) :
    ∀ {names : List PathBytes}, names ≠ [] → (∀ s ∈ names, ∀ b ∈ s, p b = false) →
      (joinSegments sep names).splitOnP p = names
  | [], h, _ => absurd rfl h
  | [s], _, hs => splitOnP_eq_singleton (hs s (by simp))
  | s :: t :: rest, _, hs => by
    rw [joinSegments_cons s (by simp),
      splitOnP_append_cons_of_forall_mem (hs s (by simp)) sep hsep,
      splitOnP_joinSegments hsep (by simp) (fun u hu => hs u (mem_cons_of_mem s hu))]

lemma joinSegments_splitOnP (sep : UInt8) (l : PathBytes) :
    joinSegments sep (l.splitOnP (fun b => b = sep)) = l := by
  induction l with
  | nil => rfl
  | cons b l ih =>
    rw [splitOnP_cons_eq_if_modifyHead]
    obtain ⟨s, rest, hs⟩ := exists_cons_of_ne_nil
      (splitOnP_ne_nil (fun b => decide (b = sep)) l)
    rw [hs] at ih ⊢
    by_cases hb : b = sep
    · rw [if_pos (by simpa using hb), joinSegments_cons [] (by simp), ih, hb]
      rfl
    · rw [if_neg (by simpa using hb), modifyHead_cons]
      cases rest with
      | nil =>
        rw [← ih]
        rfl
      | cons t rest =>
        rw [joinSegments_cons _ (by simp), cons_append, ← joinSegments_cons _ (by simp), ih]

lemma mem_splitOnP (h : s ∈ l.splitOnP p) : ∀ b ∈ s, p b = false := by
  induction l generalizing s with
  | nil =>
    rw [splitOnP_nil, mem_singleton] at h
    simp [h]
  | cons b l ih =>
    rw [splitOnP_cons_eq_if_modifyHead] at h
    obtain ⟨t, rest, ht⟩ := exists_cons_of_ne_nil (splitOnP_ne_nil p l)
    cases hb : p b with
    | true =>
      rw [if_pos hb, mem_cons] at h
      rcases h with rfl | h
      · simp
      · exact ih h
    | false =>
      rw [if_neg (by simp [hb]), ht, modifyHead_cons, mem_cons] at h
      rcases h with rfl | h
      · have := ih (ht ▸ mem_cons_self (a := t) (l := rest))
        simpa [hb] using this
      · exact ih (ht ▸ mem_cons_of_mem t h)

/-- Takes in one segment: `.` and nothing are skipped, `..` takes the last name away. -/
def resolveStep (names : List PathBytes) (segment : PathBytes) : Option (List PathBytes) :=
  if segment = [] ∨ segment = [dot] then some names
  else if segment = [dot, dot] then if names.isEmpty then none else some names.dropLast
  else some (names ++ [segment])

/-- The names left of the segments of a path, unless `..` leads out of it. -/
def resolve (style : PathStyle) (path : PathBytes) : Option (List PathBytes) :=
  (path.splitOnP style.isSepByte).foldlM resolveStep []

structure IsName (style : PathStyle) (s : PathBytes) : Prop where
  ne_nil : s ≠ []
  ne_dot : s ≠ [dot]
  ne_dots : s ≠ [dot, dot]
  no_sep : ∀ b ∈ s, style.isSepByte b = false

lemma isSepByte_slash (style : PathStyle) : style.isSepByte slash = true := by
  cases style <;> rfl

lemma IsName.no_slash (h : IsName style s) : slash ∉ s := by
  intro hs
  have := h.no_sep slash hs
  rw [isSepByte_slash] at this
  exact Bool.noConfusion this

lemma resolveStep_names {names' : List PathBytes} (hnames : ∀ n ∈ names, IsName style n)
    (hs : ∀ b ∈ s, style.isSepByte b = false) (h : resolveStep names s = some names') :
    ∀ n ∈ names', IsName style n := by
  rw [resolveStep] at h
  by_cases h₁ : s = [] ∨ s = [dot]
  · rw [if_pos h₁] at h
    obtain rfl := Option.some.inj h
    exact hnames
  · rw [if_neg h₁] at h
    by_cases h₂ : s = [dot, dot]
    · rw [if_pos h₂] at h
      split at h
      · exact absurd h (by simp)
      · obtain rfl := Option.some.inj h
        exact fun n hn => hnames n ((dropLast_sublist names).subset hn)
    · rw [if_neg h₂] at h
      obtain rfl := Option.some.inj h
      intro n hn
      rcases mem_append.mp hn with hn | hn
      · exact hnames n hn
      · obtain rfl := mem_singleton.mp hn
        exact ⟨fun h => h₁ (.inl h), fun h => h₁ (.inr h), h₂, hs⟩

lemma resolveAll_names :
    ∀ {names names' : List PathBytes}, (∀ n ∈ names, IsName style n) →
      (∀ s ∈ segments, ∀ b ∈ s, style.isSepByte b = false) →
      segments.foldlM resolveStep names = some names' → ∀ n ∈ names', IsName style n := by
  induction segments with
  | nil =>
    intro names names' hnames _ h
    obtain rfl := Option.some.inj h
    exact hnames
  | cons s segments ih =>
    intro names names' hnames hs h
    rw [foldlM_cons] at h
    obtain ⟨next, hstep, hrest⟩ := Option.bind_eq_some_iff.mp h
    exact ih (resolveStep_names hnames (hs s (by simp)) hstep)
      (fun t ht => hs t (mem_cons_of_mem s ht)) hrest

theorem resolve_names (h : resolve style path = some names) : ∀ n ∈ names, IsName style n :=
  resolveAll_names _ (by simp) (fun _ hs => mem_splitOnP hs) h

lemma resolveStep_skip (h : s = [] ∨ s = [dot]) : resolveStep names s = some names := if_pos h

lemma foldlM_resolve_skip {segments skipped : List PathBytes} (h : ∀ s ∈ skipped, s = []) :
    (segments ++ skipped).foldlM resolveStep names = segments.foldlM resolveStep names := by
  have hskip : ∀ names, skipped.foldlM resolveStep names = some names := by
    induction skipped with
    | nil => exact fun _ => rfl
    | cons s skipped ih =>
      intro names
      rw [foldlM_cons, resolveStep_skip (.inl (h s (by simp)))]
      exact ih (fun t ht => h t (mem_cons_of_mem s ht)) names
  rw [foldlM_append]
  cases segments.foldlM resolveStep names with
  | none => rfl
  | some names' => exact hskip names'

lemma resolve_stripStart (style : PathStyle) (path : PathBytes) :
    resolve style (RelPath.stripStart style path) = resolve style path := by
  induction path using RelPath.stripStart.induct style with
  | case1 b c path hbc ih =>
    rw [RelPath.stripStart, if_pos hbc, ih, hbc.1]
    have hdot : ∀ x ∈ [dot], style.isSepByte x = false := by
      intro x hx
      rw [mem_singleton.mp hx]
      cases style <;> rfl
    have hsplit := splitOnP_append_cons_of_forall_mem hdot c hbc.2 path
    rw [singleton_append] at hsplit
    rw [resolve, resolve, hsplit, foldlM_cons, resolveStep_skip (.inr rfl)]
    rfl
  | case2 b c path hbc => rw [RelPath.stripStart, if_neg hbc]
  | case3 path h =>
    match path, h with
    | [], _ => rfl
    | [b], _ => rfl
    | b :: c :: path, h => exact absurd rfl (h b c path)

lemma splitOnP_seps (h : ∀ b ∈ seps, style.isSepByte b = true) :
    ∀ s ∈ seps.splitOnP style.isSepByte, s = [] := by
  induction seps with
  | nil => simp
  | cons b seps ih =>
    rw [splitOnP_cons_eq_if_modifyHead, if_pos (h b (by simp))]
    intro s hs
    rcases mem_cons.mp hs with rfl | hs
    · rfl
    · exact ih (fun c hc => h c (mem_cons_of_mem b hc)) s hs

lemma resolve_append_seps (h : ∀ b ∈ seps, style.isSepByte b = true) :
    resolve style (path ++ seps) = resolve style path := by
  cases seps with
  | nil => rw [append_nil]
  | cons b seps =>
    rw [resolve, splitOnP_append_cons _ _ (h b (by simp)),
      foldlM_resolve_skip (splitOnP_seps (fun c hc => h c (mem_cons_of_mem b hc)))]
    rfl

lemma stripEnd_append (style : PathStyle) (path : PathBytes) :
    ∃ seps, path = RelPath.stripEnd style path ++ seps ∧ ∀ b ∈ seps, style.isSepByte b = true := by
  cases path with
  | nil => exact ⟨[], rfl, by simp⟩
  | cons b rest =>
    refine ⟨(rest.reverse.takeWhile style.isSepByte).reverse, ?_, ?_⟩
    · rw [RelPath.stripEnd, cons_append, ← reverse_append,
        takeWhile_append_dropWhile, reverse_reverse]
    · intro c hc
      exact mem_takeWhile_imp (mem_reverse.mp hc)

lemma stripEnd_last {b : UInt8} (h : RelPath.stripEnd style path = l ++ [b])
    (hb : style.isSepByte b = true) : l = [] := by
  cases path with
  | nil => simp [RelPath.stripEnd] at h
  | cons c rest =>
    rw [RelPath.stripEnd] at h
    cases l with
    | nil => rfl
    | cons d l =>
      rw [cons_append, List.cons.injEq] at h
      have hrev : rest.reverse.dropWhile style.isSepByte = b :: l.reverse := by
        rw [← reverse_reverse (rest.reverse.dropWhile style.isSepByte), h.2]
        simp
      have hne : rest.reverse.dropWhile style.isSepByte ≠ [] := by simp [hrev]
      have hhead := head_dropWhile_not style.isSepByte hne
      simp only [hrev, head_cons] at hhead
      exact absurd (hb.symm.trans hhead) (by simp)

lemma joinSegments_eq_nil (h : ∀ n ∈ names, IsName style n) :
    joinSegments slash names = [] ↔ names = [] := by
  cases names with
  | nil => simp [joinSegments]
  | cons s rest =>
    have hs := (h s (by simp)).ne_nil
    cases rest with
    | nil => simp [joinSegments, hs]
    | cons t rest => simp [joinSegments]

lemma push_joinSegments (h : ∀ n ∈ names, IsName style n) (hs : s ≠ []) :
    push (joinSegments slash names) s = joinSegments slash (names ++ [s]) := by
  rw [push, if_neg (by simpa using hs)]
  by_cases hn : names = []
  · subst hn
    rfl
  · rw [if_neg (by simpa [joinSegments_eq_nil h] using hn), joinSegments_concat s hn]
    simp

lemma pop_joinSegments (h : ∀ n ∈ names, IsName style n) :
    pop (joinSegments slash names) =
      if names.isEmpty then none else some (joinSegments slash names.dropLast) := by
  rcases eq_nil_or_concat names with rfl | ⟨init, s, rfl⟩
  · rfl
  · rw [concat_eq_append] at h ⊢
    have hs := (h s (by simp)).no_slash
    rw [if_neg (by simp), dropLast_concat]
    by_cases hi : init = []
    · subst hi
      have hne := (h s (by simp)).ne_nil
      change pop s = some []
      rw [pop, if_neg hs, if_pos (by simpa using hne)]
    · rw [joinSegments_concat s hi, pop, if_pos (by simp)]
      have hrev : (joinSegments slash init ++ slash :: s).reverse =
          s.reverse ++ slash :: (joinSegments slash init).reverse := by simp
      rw [hrev, dropWhile_append_of_pos]
      · simp
      · intro b hb
        have hbs : b ≠ slash := fun hbs => hs (hbs ▸ mem_reverse.mp hb)
        simpa using hbs

lemma foldlM_normalize :
    ∀ {names : List PathBytes}, (∀ n ∈ names, IsName style n) →
      (∀ s ∈ segments, ∀ b ∈ s, style.isSepByte b = false) →
      segments.foldlM normalizeStep (joinSegments slash names) =
        (segments.foldlM resolveStep names).map (joinSegments slash) := by
  induction segments with
  | nil => exact fun _ _ => rfl
  | cons s segments ih =>
    intro names hnames hs
    have hstep : normalizeStep (joinSegments slash names) s =
        (resolveStep names s).map (joinSegments slash) := by
      rw [normalizeStep, resolveStep]
      by_cases h₁ : s = [] ∨ s = [dot]
      · rw [if_pos h₁, if_pos h₁]
        rfl
      · rw [if_neg h₁, if_neg h₁]
        by_cases h₂ : s = [dot, dot]
        · rw [if_pos h₂, if_pos h₂, pop_joinSegments hnames]
          split <;> rfl
        · rw [if_neg h₂, if_neg h₂, push_joinSegments hnames (fun h => h₁ (.inl h))]
          rfl
    rw [foldlM_cons, foldlM_cons, hstep]
    cases hres : resolveStep names s with
    | none => rfl
    | some next =>
      exact ih (resolveStep_names hnames (hs s (by simp)) hres)
        (fun t ht => hs t (mem_cons_of_mem s ht))

def withSlashes (style : PathStyle) (path : PathBytes) : PathBytes :=
  if style = .windows then path.map (fun b => if b = backslash then slash else b) else path

lemma splitOnP_withSlashes (style : PathStyle) (path : PathBytes) :
    (withSlashes style path).splitOnP (fun b => b = slash) = path.splitOnP style.isSepByte := by
  cases style with
  | unix => rfl
  | windows =>
    rw [withSlashes, if_pos rfl]
    induction path with
    | nil => rfl
    | cons b path ih =>
      rw [map_cons, splitOnP_cons_eq_if_modifyHead, splitOnP_cons_eq_if_modifyHead, ih]
      by_cases hb : b = backslash
      · rw [if_pos (by simp [hb]), if_pos (by simp [hb, PathStyle.isSepByte, isSepByte])]
      · by_cases hs : b = slash
        · rw [if_pos (by simp [hs, slash, backslash]), if_pos (by simp [hs, PathStyle.isSepByte,
            isSepByte])]
        · rw [if_neg hb, if_neg (by simpa using hs), if_neg]
          simp [hb, hs, PathStyle.isSepByte, isSepByte]

lemma components_split (path : PathBytes) :
    (RelPath.components path = path.splitOnP (fun b => b = slash) ∧
        (path.splitOnP (fun b => b = slash)).getLast? ≠ some []) ∨
      path.splitOnP (fun b => b = slash) = RelPath.components path ++ [[]] := by
  rw [RelPath.components]
  by_cases h : (path.splitOnP (fun b => b = slash)).getLast? = some []
  · right
    rw [if_pos h]
    exact (dropLast_append_getLast? [] h).symm
  · left
    rw [if_neg h]
    exact ⟨rfl, h⟩

lemma components_resolve (style : PathStyle) (path : PathBytes) :
    (RelPath.components (withSlashes style path)).foldlM resolveStep [] = resolve style path := by
  rw [resolve, ← splitOnP_withSlashes]
  rcases components_split (withSlashes style path) with ⟨h, -⟩ | h
  · rw [h]
  · rw [h, foldlM_resolve_skip (by simp)]

lemma components_no_sep (h : s ∈ RelPath.components (withSlashes style path)) :
    ∀ b ∈ s, style.isSepByte b = false := by
  refine mem_splitOnP (l := path) ?_
  rw [← splitOnP_withSlashes]
  rcases components_split (withSlashes style path) with ⟨hc, -⟩ | hc
  · rwa [← hc]
  · rw [hc]
    exact mem_append_left _ h

lemma foldlM_resolve_of_names :
    ∀ {names : List PathBytes}, (∀ s ∈ segments, ¬ (s = [] ∨ s = [dot] ∨ s = [dot, dot])) →
      segments.foldlM resolveStep names = some (names ++ segments) := by
  induction segments with
  | nil =>
    intro names _
    rw [append_nil]
    rfl
  | cons s segments ih =>
    intro names h
    have hs := h s (by simp)
    rw [foldlM_cons, resolveStep, if_neg (fun h' => hs (by tauto)),
      if_neg (fun h' => hs (.inr (.inr h')))]
    change segments.foldlM resolveStep (names ++ [s]) = _
    rw [ih (fun t ht => h t (mem_cons_of_mem s ht)), append_assoc]
    rfl

lemma joinSegments_components (hlast : ∀ l b, path = l ++ [b] → style.isSepByte b = true → l = [])
    (hroot : style.hasRoot path = false) :
    joinSegments slash (RelPath.components (withSlashes style path)) = withSlashes style path := by
  rcases components_split (withSlashes style path) with ⟨h, -⟩ | h
  · rw [h, joinSegments_splitOnP]
  · by_cases hc : RelPath.components (withSlashes style path) = []
    · rw [hc, nil_append] at h
      have hjoin := joinSegments_splitOnP slash (withSlashes style path)
      rw [h] at hjoin
      rw [hc, ← hjoin]
      rfl
    · -- a separator at the end would be the whole path, which then has a root
      exfalso
      have hjoin := joinSegments_splitOnP slash (withSlashes style path)
      rw [h, joinSegments_concat [] hc] at hjoin
      have hpath : ∃ l b, path = l ++ [b] ∧ style.isSepByte b = true := by
        rcases eq_nil_or_concat path with rfl | ⟨l, b, rfl⟩
        · have hnil : withSlashes style [] = [] := by cases style <;> rfl
          rw [hnil] at hjoin
          simp at hjoin
        · refine ⟨l, b, concat_eq_append, ?_⟩
          rw [concat_eq_append] at hjoin
          cases style with
          | unix =>
            rw [withSlashes, if_neg (by simp)] at hjoin
            have hb := (append_inj_right' hjoin rfl)
            simp only [List.cons.injEq, and_true] at hb
            rw [← hb]
            rfl
          | windows =>
            rw [withSlashes, if_pos rfl, map_append] at hjoin
            have hb := (append_inj_right' hjoin rfl)
            simp only [map_cons, map_nil, List.cons.injEq, and_true] at hb
            by_cases hbb : b = backslash
            · simp [hbb, PathStyle.isSepByte, isSepByte]
            · rw [if_neg hbb] at hb
              simp [← hb, PathStyle.isSepByte, isSepByte]
      obtain ⟨l, b, hl, hb⟩ := hpath
      obtain rfl := hlast l b hl hb
      rw [nil_append] at hl
      subst hl
      have hparse : style.parsePrefix [b] = none := by
        cases style with
        | unix => rfl
        | windows =>
          simp [PathStyle.parsePrefix, parsePrefix, startsWithAt, getPrefix, parseDrive]
      have hphysical : style.hasPhysicalRoot [b] = true := by
        simp [PathStyle.hasPhysicalRoot, PathStyle.prefixLen, hparse, hb]
      rw [PathStyle.hasRoot, hphysical] at hroot
      exact absurd hroot (by simp)

lemma resolve_stripped (style : PathStyle) (path : PathBytes) :
    resolve style (RelPath.stripEnd style (RelPath.stripStart style path)) =
      resolve style path := by
  obtain ⟨seps, happ, hseps⟩ := stripEnd_append style (RelPath.stripStart style path)
  rw [← resolve_stripStart style path]
  conv_rhs => rw [happ, resolve_append_seps hseps]

lemma foldlM_normalize_stripped (style : PathStyle) (path : PathBytes) :
    (RelPath.components (withSlashes style
        (RelPath.stripEnd style (RelPath.stripStart style path)))).foldlM
      normalizeStep [] = (resolve style path).map (joinSegments slash) := by
  set stripped := RelPath.stripEnd style (RelPath.stripStart style path) with hstripped
  have hnorm := @foldlM_normalize style (RelPath.components (withSlashes style stripped)) []
    (by simp) (fun s hs => components_no_sep hs)
  change (RelPath.components (withSlashes style stripped)).foldlM normalizeStep [] = _
    at hnorm
  rw [hnorm, components_resolve, hstripped, resolve_stripped]

lemma RelPath.hasRoot_of_new (h : new style path = .ok r) :
    style.hasRoot (stripEnd style (stripStart style path)) = false := by
  rw [Bool.eq_false_iff]
  intro hroot
  rw [new] at h
  dsimp only at h
  rw [hroot] at h
  simp at h

lemma RelPath.new_of_rootless
    (hroot : style.hasRoot (stripEnd style (stripStart style path)) = false) :
    new style path =
      if (components (withSlashes style (stripEnd style (stripStart style path)))).any
          (fun c => c = [] ∨ c = [dot] ∨ c = [dot, dot]) then
        match (resolve style path).map (joinSegments slash) with
        | none => .error (.pathIsNotRelative
            (withSlashes style (stripEnd style (stripStart style path))))
        | some normalized => .ok normalized
      else .ok (withSlashes style (stripEnd style (stripStart style path))) := by
  rw [← foldlM_normalize_stripped, new]
  dsimp only
  rw [hroot]
  rfl

theorem RelPath.new_eq (h : new style path = .ok r) :
    ∃ names, resolve style path = some names ∧ r = joinSegments slash names := by
  have hroot := hasRoot_of_new h
  rw [new_of_rootless hroot] at h
  split at h
  · cases hres : resolve style path with
    | none => simp [hres] at h
    | some names =>
      rw [hres] at h
      exact ⟨names, rfl, (Except.ok.inj h).symm⟩
  · rename_i hany
    have hstrip := resolve_stripped style path
    set stripped := stripEnd style (stripStart style path) with hstripped
    have hnames : ∀ s ∈ components (withSlashes style stripped),
        ¬ (s = [] ∨ s = [dot] ∨ s = [dot, dot]) := by
      intro s hs hspecial
      exact hany (any_eq_true.mpr ⟨s, hs, by simpa using hspecial⟩)
    refine ⟨components (withSlashes style stripped), ?_, ?_⟩
    · rw [← hstrip, ← components_resolve, foldlM_resolve_of_names _ hnames]
      rfl
    · have hlast : ∀ l b, stripped = l ++ [b] → style.isSepByte b = true → l = [] :=
        fun l b hl hb => stripEnd_last (hstripped ▸ hl) hb
      rw [joinSegments_components hlast hroot]
      exact (Except.ok.inj h).symm

theorem RelPath.new_isOk_iff (style : PathStyle) (path : PathBytes) :
    (∃ r, new style path = .ok r) ↔
      style.hasRoot (stripEnd style (stripStart style path)) = false ∧
        resolve style path ≠ none := by
  constructor
  · rintro ⟨r, h⟩
    obtain ⟨names, hres, -⟩ := new_eq h
    exact ⟨hasRoot_of_new h, by simp [hres]⟩
  · rintro ⟨hroot, hres⟩
    obtain ⟨names, hres⟩ := Option.ne_none_iff_exists'.mp hres
    rw [new_of_rootless hroot, hres]
    split <;> exact ⟨_, rfl⟩

end GpuiFast
