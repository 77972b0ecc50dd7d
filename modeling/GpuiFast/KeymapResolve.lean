import GpuiFast.Keymap
import GpuiFast.ListSplit

namespace GpuiFast

open List Option

namespace Keymap

/-- Whether a `NoAction` among `passed` suppresses `binding`. -/
def Suppressed (passed : List Matched) (binding : KeyBinding) : Prop :=
  ∃ m ∈ passed, m.binding.action.isNoAction = true ∧ m.binding.source ≤ binding.source

/-- What is found after the matched bindings `passed`. -/
def resolving (passed : List Matched) : Resolving := passed.foldl resolveNext ⟨[], none, [], none⟩

variable (passed : List Matched) {windows : Bool} {input : List Keystroke}
  {entries : List (ℕ × KeyBinding)} {binding : KeyBinding}

lemma resolving_append (m : Matched) :
    resolving (passed ++ [m]) = resolveNext (resolving passed) m := by
  simp [resolving, foldl_append]

lemma noActionMeta_resolving (binding : KeyBinding) :
    (resolving passed).noActionMeta.any (fun m => decide (m ≤ binding.source)) = true ↔
      Suppressed passed binding := by
  induction passed using reverseRecOn with
  | nil => simp [resolving, Suppressed]
  | append_singleton passed m ih =>
    have hsplit : Suppressed (passed ++ [m]) binding ↔ Suppressed passed binding ∨
        m.binding.action.isNoAction = true ∧ m.binding.source ≤ binding.source := by
      simp only [Suppressed, mem_append, mem_singleton, or_and_right, exists_or, exists_eq_left]
    rw [hsplit, ← ih, resolving_append]
    by_cases hn : m.binding.action.isNoAction = true
    · simp only [resolveNext, hn, if_true, true_and]
      cases (resolving passed).noActionMeta with
      | none => simp
      | some source => simp
    · have hkeep : (resolveNext (resolving passed) m).noActionMeta =
          (resolving passed).noActionMeta := by
        simp only [resolveNext, if_neg hn]
        split
        · rfl
        · split
          · rfl
          · split <;> rfl
      simp [hkeep, hn]

lemma mem_unboundBindings_resolving (binding : KeyBinding) :
    binding ∈ (resolving passed).unboundBindings ↔
      ∃ before m after, passed = before ++ m :: after ∧ m.binding = binding ∧
        binding.action.isUnbind = true ∧ ¬ Suppressed before binding := by
  induction passed using reverseRecOn with
  | nil => simp [resolving]
  | append_singleton passed m ih =>
    rw [exists_snoc_split, ← ih, resolving_append]
    by_cases hn : m.binding.action.isNoAction = true
    · have hu : m.binding.action.isUnbind = false := by
        cases ha : m.binding.action <;> simp_all [Action.isNoAction, Action.isUnbind]
      simp only [resolveNext, hn, if_true, iff_self_or]
      rintro ⟨rfl, hu', -⟩
      simp [hu] at hu'
    by_cases hs : Suppressed passed m.binding
    · have hs' := (noActionMeta_resolving passed m.binding).mpr hs
      simp only [resolveNext, if_neg hn, if_pos hs', iff_self_or]
      rintro ⟨rfl, -, hs''⟩
      exact absurd hs hs''
    have hs' := mt (noActionMeta_resolving passed m.binding).mp hs
    by_cases hu : m.binding.action.isUnbind = true
    · simp only [resolveNext, if_neg hn, if_neg hs', if_pos hu, mem_append, mem_singleton]
      refine or_congr_right ⟨?_, ?_⟩
      · rintro rfl
        exact ⟨rfl, hu, hs⟩
      · rintro ⟨rfl, -, -⟩
        rfl
    · have hkeep : (resolveNext (resolving passed) m).unboundBindings =
          (resolving passed).unboundBindings := by
        simp only [resolveNext, if_neg hn, if_neg hs', if_neg hu]
        split <;> rfl
      rw [hkeep, iff_self_or]
      rintro ⟨rfl, hu', -⟩
      exact absurd hu' hu

lemma mem_bindings_resolving (index : ℕ) (binding : KeyBinding) :
    (index, binding) ∈ (resolving passed).bindings ↔
      ∃ before m after, passed = before ++ m :: after ∧
        (m.index = index ∧ m.binding = binding) ∧ binding.disables = false ∧
        ¬ Suppressed before binding ∧
        ∀ u ∈ (resolving before).unboundBindings, u.unbinds binding = false := by
  induction passed using reverseRecOn with
  | nil => simp [resolving]
  | append_singleton passed m ih =>
    rw [exists_snoc_split, ← ih, resolving_append]
    by_cases hn : m.binding.action.isNoAction = true
    · simp only [resolveNext, hn, if_true, iff_self_or]
      rintro ⟨⟨-, rfl⟩, hd, -⟩
      simp [KeyBinding.disables, hn] at hd
    by_cases hs : Suppressed passed m.binding
    · have hs' := (noActionMeta_resolving passed m.binding).mpr hs
      simp only [resolveNext, if_neg hn, if_pos hs', iff_self_or]
      rintro ⟨⟨-, rfl⟩, -, hs'', -⟩
      exact absurd hs hs''
    have hs' := mt (noActionMeta_resolving passed m.binding).mp hs
    by_cases hu : m.binding.action.isUnbind = true
    · simp only [resolveNext, if_neg hn, if_neg hs', if_pos hu, iff_self_or]
      rintro ⟨⟨-, rfl⟩, hd, -⟩
      simp [KeyBinding.disables, hu] at hd
    have hd : m.binding.disables = false := by simp [KeyBinding.disables, hn, hu]
    by_cases hb : (resolving passed).unboundBindings.any (fun u => u.unbinds m.binding) = true
    · simp only [resolveNext, if_neg hn, if_neg hs', if_neg hu, if_pos hb, iff_self_or]
      rintro ⟨⟨-, rfl⟩, -, -, hall⟩
      obtain ⟨u, hmem, hunb⟩ := any_eq_true.mp hb
      simp [hall u hmem] at hunb
    · simp only [resolveNext, if_neg hn, if_neg hs', if_neg hu, if_neg hb, mem_append,
        mem_singleton, Prod.mk.injEq]
      refine or_congr_right ⟨?_, ?_⟩
      · rintro ⟨rfl, rfl⟩
        refine ⟨⟨rfl, rfl⟩, hd, hs, fun u hmem => ?_⟩
        by_contra hunb
        exact hb (any_eq_true.mpr ⟨u, hmem, by simpa using hunb⟩)
      · rintro ⟨⟨rfl, rfl⟩, -⟩
        exact ⟨rfl, rfl⟩

lemma firstBindingIndex_resolving :
    (resolving passed).firstBindingIndex = none ↔ (resolving passed).bindings = [] := by
  induction passed using reverseRecOn with
  | nil => simp [resolving]
  | append_singleton passed m ih =>
    rw [resolving_append]
    simp only [resolveNext]
    split
    · exact ih
    split
    · exact ih
    split
    · exact ih
    split
    · exact ih
    · simp

/-- `a` is deeper than `b`, or as deep and added later. -/
def Matched.Outranks (a b : Matched) : Prop :=
  b.depth < a.depth ∨ a.depth = b.depth ∧ b.index < a.index

/-- Whether a `NoAction` that outranks `m` comes from a source at least as strong. -/
def SuppressedByRank (matched : Set Matched) (m : Matched) : Prop :=
  ∃ n ∈ matched, n.Outranks m ∧ n.binding.action.isNoAction = true ∧
    n.binding.source ≤ m.binding.source

/-- Whether `m` is suppressed, or an `Unbind` of its action outranks it that is not. -/
def DisabledByRank (matched : Set Matched) (m : Matched) : Prop :=
  SuppressedByRank matched m ∨
    ∃ u ∈ matched, u.Outranks m ∧ u.binding.unbinds m.binding = true ∧
      ¬ SuppressedByRank matched u

section

variable {sorted : List Matched} {matched : Set Matched}

variable {before after : List Matched} {m : Matched}

section

variable (hsorted : sorted.Pairwise Matched.Before) (hnodup : (sorted.map Matched.index).Nodup)
include hsorted hnodup

lemma mem_before_iff (hsplit : sorted = before ++ m :: after) (n : Matched) :
    n ∈ before ↔ n ∈ sorted ∧ n.Outranks m := by
  subst hsplit
  rw [pairwise_append, pairwise_cons] at hsorted
  rw [map_append, map_cons, nodup_append] at hnodup
  constructor
  · intro hn
    refine ⟨mem_append_left _ hn, ?_⟩
    have hne : n.index ≠ m.index :=
      hnodup.2.2 n.index (mem_map_of_mem hn) m.index (mem_cons_self ..)
    rcases hsorted.2.2 n hn m (mem_cons_self ..) with h | ⟨h, hle⟩
    · exact .inl h
    · exact .inr ⟨h, by omega⟩
  · rintro ⟨hn, hout⟩
    rcases mem_append.mp hn with h | h
    · exact h
    rcases mem_cons.mp h with rfl | h
    · rcases hout with h | h <;> omega
    · have hbefore := hsorted.2.1.1 n h
      rcases hout with h | h <;> rcases hbefore with h' | h' <;> omega

lemma suppressed_iff (hmem : ∀ m, m ∈ sorted ↔ m ∈ matched) (hsplit : sorted = before ++ m :: after) :
    Suppressed before m.binding ↔ SuppressedByRank matched m := by
  simp only [Suppressed, SuppressedByRank, mem_before_iff hsorted hnodup hsplit, hmem, and_assoc]

lemma mem_unboundBindings_iff (hmem : ∀ m, m ∈ sorted ↔ m ∈ matched)
    (hsplit : sorted = before ++ m :: after) (u : KeyBinding) :
    u ∈ (resolving before).unboundBindings ↔ ∃ n ∈ matched, n.Outranks m ∧ n.binding = u ∧
      u.action.isUnbind = true ∧ ¬ SuppressedByRank matched n := by
  rw [mem_unboundBindings_resolving]
  constructor
  · rintro ⟨first, n, rest, rfl, rfl, hu, hs⟩
    have hn := (mem_before_iff hsorted hnodup hsplit n).mp (by simp)
    have hsplit' : sorted = first ++ n :: (rest ++ m :: after) := by rw [hsplit]; simp
    rw [suppressed_iff hsorted hnodup hmem hsplit'] at hs
    exact ⟨n, (hmem _).mp hn.1, hn.2, rfl, hu, hs⟩
  · rintro ⟨n, hn, hout, rfl, hu, hs⟩
    have hbefore := (mem_before_iff hsorted hnodup hsplit n).mpr ⟨(hmem _).mpr hn, hout⟩
    obtain ⟨first, rest, rfl⟩ := append_of_mem hbefore
    have hsplit' : sorted = first ++ n :: (rest ++ m :: after) := by rw [hsplit]; simp
    rw [← suppressed_iff hsorted hnodup hmem hsplit'] at hs
    exact ⟨first, n, rest, rfl, rfl, hu, hs⟩

end

lemma unbinds_isUnbind {u binding : KeyBinding} (h : u.unbinds binding = true) :
    u.action.isUnbind = true := by
  simp only [KeyBinding.unbinds, Bool.and_eq_true] at h
  cases ha : u.action <;> simp_all [Action.isUnbind]

lemma mem_bindings_iff (hsorted : sorted.Pairwise Matched.Before)
    (hnodup : (sorted.map Matched.index).Nodup) (hmem : ∀ m, m ∈ sorted ↔ m ∈ matched)
    (index : ℕ) (binding : KeyBinding) :
    (index, binding) ∈ (resolving sorted).bindings ↔ ∃ m ∈ matched,
      (m.index = index ∧ m.binding = binding) ∧ binding.disables = false ∧
        ¬ DisabledByRank matched m := by
  rw [mem_bindings_resolving]
  constructor
  · rintro ⟨before, m, after, hsplit, ⟨rfl, rfl⟩, hd, hs, hu⟩
    refine ⟨m, (hmem _).mp (by rw [hsplit]; simp), ⟨rfl, rfl⟩, hd, ?_⟩
    rintro (hs' | ⟨u, hum, hout, hunb, hs'⟩)
    · exact hs ((suppressed_iff hsorted hnodup hmem hsplit).mpr hs')
    · have := hu u.binding ((mem_unboundBindings_iff hsorted hnodup hmem hsplit _).mpr
        ⟨u, hum, hout, rfl, unbinds_isUnbind hunb, hs'⟩)
      simp [hunb] at this
  · rintro ⟨m, hm, ⟨rfl, rfl⟩, hd, hdis⟩
    obtain ⟨before, after, hsplit⟩ := append_of_mem ((hmem _).mpr hm)
    refine ⟨before, m, after, hsplit, ⟨rfl, rfl⟩, hd, fun hs => ?_, fun u hu => ?_⟩
    · exact hdis (.inl ((suppressed_iff hsorted hnodup hmem hsplit).mp hs))
    · obtain ⟨n, hn, hout, rfl, -, hs⟩ :=
        (mem_unboundBindings_iff hsorted hnodup hmem hsplit u).mp hu
      by_contra hunb
      exact hdis (.inr ⟨n, hn, hout, by simpa using hunb, hs⟩)

end

instance : Std.Total Matched.Before where
  total a b := by
    simp only [Matched.Before]
    omega

instance : IsTrans Matched Matched.Before where
  trans a b c hab hbc := by
    simp only [Matched.Before] at hab hbc ⊢
    omega

variable {contexts : List KeyContext}

lemma mem_matchedBindings {m : Matched} :
    m ∈ matchedBindings windows input contexts entries ↔
      (m.index, m.binding) ∈ entries ∧ m.binding.enabled contexts = some m.depth ∧
        m.binding.matchKeystrokes windows input = some false := by
  simp only [matchedBindings, mem_filterMap, bind_eq_some_iff]
  constructor
  · rintro ⟨entry, hmem, depth, hdepth, h⟩
    split at h
    · next hmatch =>
      injection h with h
      subst h
      exact ⟨hmem, hdepth, hmatch⟩
    · cases h
  · rintro ⟨hmem, hdepth, hmatch⟩
    exact ⟨(m.index, m.binding), hmem, m.depth, hdepth, by rw [if_pos hmatch]⟩

lemma filterMap_index_sublist {f : ℕ × KeyBinding → Option Matched}
    (h : ∀ entry m, f entry = some m → m.index = entry.1) (entries : List (ℕ × KeyBinding)) :
    ((entries.filterMap f).map Matched.index).Sublist (entries.map Prod.fst) := by
  induction entries with
  | nil => exact Sublist.refl _
  | cons entry entries ih =>
    rw [filterMap_cons]
    split
    · exact ih.cons _
    · next m hm =>
      rw [map_cons, map_cons, h entry m hm]
      exact ih.cons_cons _

lemma matchedBindings_nodup (windows : Bool) (input : List Keystroke) (contexts : List KeyContext)
    (h : (entries.map Prod.fst).Nodup) :
    ((matchedBindings windows input contexts entries).map Matched.index).Nodup := by
  refine h.sublist (filterMap_index_sublist (fun entry m hm => ?_) entries)
  obtain ⟨depth, -, hm⟩ := bind_eq_some_iff.mp hm
  split at hm
  · rw [← some.inj hm]
  · cases hm

/-- The bindings of `entries` that match `input` in context, and their depths. -/
def matching (windows : Bool) (input : List Keystroke) (contexts : List KeyContext)
    (entries : List (ℕ × KeyBinding)) : Set Matched :=
  {m | (m.index, m.binding) ∈ entries ∧ m.binding.enabled contexts = some m.depth ∧
    m.binding.matchKeystrokes windows input = some false}

theorem mem_resolveBindingsForInput (windows : Bool) (input : List Keystroke)
    (contexts : List KeyContext) (hnodup : (entries.map Prod.fst).Nodup) (index : ℕ)
    (binding : KeyBinding) :
    (index, binding) ∈ (resolveBindingsForInput windows input contexts entries).1 ↔
      ∃ m ∈ matching windows input contexts entries,
        (m.index = index ∧ m.binding = binding) ∧ binding.disables = false ∧
          ¬ DisabledByRank (matching windows input contexts entries) m := by
  have hperm := perm_insertionSort Matched.Before
    (matchedBindings windows input contexts entries)
  have hnodup' := (hperm.map Matched.index).nodup_iff.mpr
    (matchedBindings_nodup windows input contexts hnodup)
  exact mem_bindings_iff (pairwise_insertionSort _ _) hnodup'
    (fun m => hperm.mem_iff.trans mem_matchedBindings) index binding

lemma mem_resolved_iff (hnodup : (entries.map Prod.fst).Nodup) {index depth : ℕ}
    (hmem : (index, binding) ∈ entries) (hdepth : binding.enabled contexts = some depth)
    (hmatch : binding.matchKeystrokes windows input = some false) (hd : binding.disables = false) :
    (index, binding) ∈ (resolveBindingsForInput windows input contexts entries).1 ↔
      ¬ DisabledByRank (matching windows input contexts entries) ⟨depth, index, binding⟩ := by
  rw [mem_resolveBindingsForInput _ _ _ hnodup]
  constructor
  · rintro ⟨m, hm, ⟨rfl, rfl⟩, -, hdis⟩
    have hmd : m.depth = depth := some.inj (hm.2.1.symm.trans hdepth)
    rwa [← hmd]
  · intro hdis
    exact ⟨⟨depth, index, binding⟩, ⟨hmem, hdepth, hmatch⟩, ⟨rfl, rfl⟩, hd, hdis⟩

lemma mem_reversed {keymap : Keymap} {index : ℕ} :
    (index, binding) ∈ keymap.reversed ↔ keymap.bindings[index]? = some binding := by
  simp only [reversed, mem_reverse, List.mem_map, Prod.exists, Prod.swap_prod_mk, Prod.mk.injEq]
  constructor
  · rintro ⟨b, i, hmem, rfl, rfl⟩
    exact mem_zipIdx_iff_getElem?.mp hmem
  · intro h
    exact ⟨binding, index, mem_zipIdx_iff_getElem?.mpr h, rfl, rfl⟩

lemma reversed_nodup (keymap : Keymap) : (keymap.reversed.map Prod.fst).Nodup := by
  have h : (keymap.bindings.zipIdx.map Prod.swap).map Prod.fst =
      List.range keymap.bindings.length := by
    rw [List.map_map, show Prod.fst ∘ Prod.swap = (Prod.snd : KeyBinding × ℕ → ℕ) from rfl,
      zipIdx_map_snd, range_eq_range']
  rw [reversed, map_reverse, nodup_reverse, h]
  exact nodup_range

lemma matchKeystrokes_eq_some {typed : List Keystroke} {pending : Bool} :
    binding.matchKeystrokes windows typed = some pending ↔
      typed.length ≤ binding.keystrokes.length ∧
        (∀ (i : ℕ) (target : KeybindingKeystroke) (stroke : Keystroke),
          binding.keystrokes[i]? = some target → typed[i]? = some stroke →
            stroke.shouldMatch windows target = true) ∧
          decide (typed.length < binding.keystrokes.length) = pending := by
  have hall : (binding.keystrokes.zip typed).all (fun pair => pair.2.shouldMatch windows pair.1) =
      true ↔ ∀ (i : ℕ) (target : KeybindingKeystroke) (stroke : Keystroke),
        binding.keystrokes[i]? = some target → typed[i]? = some stroke →
          stroke.shouldMatch windows target = true := by
    rw [List.all_eq_true]
    constructor
    · intro h i target stroke ht hs
      exact h (target, stroke) (mem_of_getElem? (getElem?_zip_eq_some.mpr ⟨ht, hs⟩))
    · rintro h ⟨target, stroke⟩ hmem
      obtain ⟨i, hi⟩ := mem_iff_getElem?.mp hmem
      obtain ⟨ht, hs⟩ := getElem?_zip_eq_some.mp hi
      exact h i target stroke ht hs
  simp only [KeyBinding.matchKeystrokes]
  rw [← hall]
  split
  · next h => simp [Nat.not_le.mpr h]
  · next h =>
    simp only [Nat.not_lt.mp h, true_and]
    split
    · next hm => simp only [hm, some.injEq, true_and]
    · next hm => simp only [hm, Bool.false_eq_true, false_and, reduceCtorEq]

lemma shouldMatch_inner (windows : Bool) (target : KeybindingKeystroke) :
    target.inner.shouldMatch windows target = true := by
  simp [Keystroke.shouldMatch]

lemma length_fullInput (h : input.length ≤ binding.keystrokes.length) :
    (fullInput input binding).length = binding.keystrokes.length := by
  simp only [fullInput, length_append, length_map, length_drop]
  omega

lemma matchKeystrokes_fullInput (h : binding.matchKeystrokes windows input = some true) :
    binding.matchKeystrokes windows (fullInput input binding) = some false := by
  obtain ⟨hle, hall, -⟩ := matchKeystrokes_eq_some.mp h
  have hlength := length_fullInput hle
  rw [matchKeystrokes_eq_some]
  refine ⟨hlength.le, fun i target stroke ht hs => ?_, by simp [hlength]⟩
  rw [fullInput] at hs
  by_cases hi : i < input.length
  · rw [getElem?_append_left hi] at hs
    exact hall i target stroke ht hs
  · rw [getElem?_append_right (Nat.not_lt.mp hi), getElem?_map, getElem?_drop,
      Nat.add_sub_cancel' (Nat.not_lt.mp hi), ht, map_some, some.injEq] at hs
    rw [← hs]
    exact shouldMatch_inner windows target

lemma matchKeystrokes_of_fullInput {other : KeyBinding}
    (h : binding.matchKeystrokes windows input = some true)
    (hother : other.matchKeystrokes windows (fullInput input binding) = some false) :
    other.matchKeystrokes windows input = some true := by
  obtain ⟨hle, -, hlt⟩ := matchKeystrokes_eq_some.mp h
  obtain ⟨hle', hall, hge⟩ := matchKeystrokes_eq_some.mp hother
  rw [length_fullInput hle] at hle' hge
  rw [decide_eq_true_eq] at hlt
  rw [matchKeystrokes_eq_some, decide_eq_true_eq]
  refine ⟨by omega, fun i target stroke ht hs => ?_, by omega⟩
  have hi : i < input.length := (List.getElem?_eq_some_iff.mp hs).1
  refine hall i target stroke ht ?_
  rw [fullInput, getElem?_append_left hi]
  exact hs

end Keymap

end GpuiFast
