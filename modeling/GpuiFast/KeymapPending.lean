import GpuiFast.KeymapResolve

namespace GpuiFast

open List

namespace Keymap

lemma mem_foldl_pendNext {entries : List (ℕ × KeyBinding)}
    (hsorted : entries.Pairwise (fun a b => a.1 < b.1)) (keystrokes : List KeybindingKeystroke) :
    keystrokes ∈ entries.foldl (fun pending entry => pendNext pending entry.2) [] ↔
      ∃ e ∈ entries, e.2.disables = false ∧ e.2.keystrokes = keystrokes ∧
        ∀ c ∈ entries, e.1 < c.1 → c.2.disables = true → c.2.keystrokes ≠ keystrokes := by
  induction entries using reverseRecOn with
  | nil => simp
  | append_singleton entries x ih =>
    rw [pairwise_append] at hsorted
    have hlast : ∀ e ∈ entries, e.1 < x.1 := fun e he => hsorted.2.2 e he x (by simp)
    rw [foldl_append, foldl_cons, foldl_nil, pendNext]
    by_cases hx : x.2.disables = true
    · rw [if_pos hx, mem_filter, ih hsorted.1]
      constructor
      · rintro ⟨⟨e, he, hd, hk, hafter⟩, hne⟩
        refine ⟨e, mem_append_left _ he, hd, hk, fun c hc hlt hdc => ?_⟩
        rcases mem_append.mp hc with hc | hc
        · exact hafter c hc hlt hdc
        · rw [mem_singleton.mp hc]
          exact fun h => by simp [h] at hne
      · rintro ⟨e, he, hd, hk, hafter⟩
        rcases mem_append.mp he with he | he
        · refine ⟨⟨e, he, hd, hk, fun c hc => hafter c (mem_append_left _ hc)⟩, ?_⟩
          have := hafter x (by simp) (hlast e he) hx
          simpa using this.symm
        · rw [mem_singleton.mp he, hx] at hd
          cases hd
    · rw [if_neg hx, mem_insert_iff, ih hsorted.1]
      constructor
      · rintro (rfl | ⟨e, he, hd, hk, hafter⟩)
        · refine ⟨x, by simp, by simpa using hx, rfl, fun c hc hlt hdc => ?_⟩
          rcases mem_append.mp hc with hc | hc
          · have := hlast c hc
            omega
          · rw [mem_singleton.mp hc] at hlt
            omega
        · refine ⟨e, mem_append_left _ he, hd, hk, fun c hc hlt hdc => ?_⟩
          rcases mem_append.mp hc with hc | hc
          · exact hafter c hc hlt hdc
          · rw [mem_singleton.mp hc] at hdc
            exact absurd hdc hx
      · rintro ⟨e, he, hd, hk, hafter⟩
        rcases mem_append.mp he with he | he
        · exact .inr ⟨e, he, hd, hk, fun c hc => hafter c (mem_append_left _ hc)⟩
        · rw [mem_singleton.mp he] at hk
          exact .inl hk.symm

/-- A binding in context that needs more keystrokes after `input`. -/
structure Continues (keymap : Keymap) (windows : Bool) (input : List Keystroke)
    (contexts : List KeyContext) (index : ℕ) (binding : KeyBinding) : Prop where
  binding_eq : keymap.bindings[index]? = some binding
  enabled : (binding.enabled contexts).isSome
  pending : binding.matchKeystrokes windows input = some true

section

variable {keymap : Keymap} {windows : Bool} {input : List Keystroke} {contexts : List KeyContext}

variable {index : ℕ} {binding : KeyBinding}

lemma mem_pendingBindings :
    (index, binding) ∈ pendingBindings windows input contexts keymap.reversed ↔
      keymap.Continues windows input contexts index binding := by
  simp only [pendingBindings, mem_filter, mem_reversed, Bool.and_eq_true, decide_eq_true_eq]
  exact ⟨fun ⟨hb, he, hp⟩ => ⟨hb, he, hp⟩, fun ⟨hb, he, hp⟩ => ⟨hb, he, hp⟩⟩

lemma pendingBindings_pairwise :
    (pendingBindings windows input contexts keymap.reversed).reverse.Pairwise
      (fun a b => a.1 < b.1) := by
  have h : (keymap.bindings.zipIdx.map Prod.swap).Pairwise (fun a b => a.1 < b.1) := by
    have hmap : (keymap.bindings.zipIdx.map Prod.swap).map Prod.fst =
        List.range keymap.bindings.length := by
      rw [map_map, show Prod.fst ∘ Prod.swap = (Prod.snd : KeyBinding × ℕ → ℕ) from rfl,
        zipIdx_map_snd, range_eq_range']
    have hrange := pairwise_lt_range (n := keymap.bindings.length)
    rw [← hmap, pairwise_map] at hrange
    exact hrange
  rw [pendingBindings, reversed, filter_reverse, reverse_reverse]
  exact h.filter _

def KeptInOrder (keymap : Keymap) (windows : Bool) (input : List Keystroke)
    (contexts : List KeyContext) (index : ℕ) (binding : KeyBinding) : Prop :=
  keymap.Continues windows input contexts index binding ∧ binding.disables = false ∧
    ∀ later other, keymap.Continues windows input contexts later other → index < later →
      other.disables = true → other.keystrokes ≠ binding.keystrokes

lemma pending_iff (h : (keymap.bindingsForInput windows input contexts).1 = []) :
    (keymap.bindingsForInput windows input contexts).2 = true ↔
      ∃ index binding, keymap.KeptInOrder windows input contexts index binding := by
  have hbindings : (resolving ((matchedBindings windows input contexts
      keymap.reversed).insertionSort Matched.Before)).bindings = [] :=
    map_eq_nil_iff.mp h
  have hfirst := (firstBindingIndex_resolving _).mpr hbindings
  simp only [resolving] at hfirst
  simp only [bindingsForInput, resolveBindingsForInput, hfirst, Option.any_none,
    Bool.false_eq_true, if_false, Bool.not_eq_true', isEmpty_eq_false_iff_exists_mem]
  simp only [mem_foldl_pendNext pendingBindings_pairwise, mem_reverse, Prod.exists,
    mem_pendingBindings]
  constructor
  · rintro ⟨keystrokes, index, binding, hc, hd, rfl, hafter⟩
    exact ⟨index, binding, hc, hd, fun later other hcont =>
      hafter (later, other) (mem_pendingBindings.mpr hcont)⟩
  · rintro ⟨index, binding, hc, hd, hafter⟩
    exact ⟨_, index, binding, hc, hd, rfl, fun c hcont =>
      hafter c.1 c.2 (mem_pendingBindings.mp hcont)⟩

def KeptByRank (keymap : Keymap) (windows : Bool) (input : List Keystroke)
    (contexts : List KeyContext) (index : ℕ) (binding : KeyBinding) : Prop :=
  keymap.Continues windows input contexts index binding ∧ binding.disables = false ∧
    ∃ depth, binding.enabled contexts = some depth ∧
      ¬ DisabledByRank (matching windows (fullInput input binding) contexts keymap.reversed)
        ⟨depth, index, binding⟩

def extending (keymap : Keymap) (windows : Bool) (input : List Keystroke) : List (ℕ × KeyBinding) :=
  keymap.reversed.filter (fun entry => entry.2.matchKeystrokes windows input = some true)

lemma mem_extending :
    (index, binding) ∈ keymap.extending windows input ↔
      keymap.bindings[index]? = some binding ∧ binding.matchKeystrokes windows input = some true := by
  rw [extending, mem_filter, mem_reversed, decide_eq_true_eq]

lemma extending_nodup : ((keymap.extending windows input).map Prod.fst).Nodup :=
  keymap.reversed_nodup.sublist (filter_sublist.map _)

lemma matching_extending (h : binding.matchKeystrokes windows input = some true) :
    matching windows (fullInput input binding) contexts (keymap.extending windows input) =
      matching windows (fullInput input binding) contexts keymap.reversed := by
  ext m
  simp only [matching, extending, mem_filter, Set.mem_ofPred_eq, decide_eq_true_eq]
  constructor
  · rintro ⟨⟨hmem, -⟩, hd, hm⟩
    exact ⟨hmem, hd, hm⟩
  · rintro ⟨hmem, hd, hm⟩
    exact ⟨⟨hmem, matchKeystrokes_of_fullInput h hm⟩, hd, hm⟩

lemma dispatched_iff {depth : ℕ} (hmem : (index, binding) ∈ keymap.reversed)
    (h : binding.matchKeystrokes windows input = some true)
    (hdepth : binding.enabled contexts = some depth) (hd : binding.disables = false) :
    (resolveBindingsForInput windows (fullInput input binding) contexts
        (keymap.extending windows input)).1.any (fun d => d.1 = index) = true ↔
      (index, binding) ∈ (resolveBindingsForInput windows (fullInput input binding) contexts
        keymap.reversed).1 := by
  have hextending : (index, binding) ∈ keymap.extending windows input :=
    mem_extending.mpr ⟨mem_reversed.mp hmem, h⟩
  have hfull := matchKeystrokes_fullInput h
  rw [mem_resolved_iff keymap.reversed_nodup hmem hdepth hfull hd, ← matching_extending h,
    ← mem_resolved_iff extending_nodup hextending hdepth hfull hd, any_eq_true]
  constructor
  · rintro ⟨⟨i, b⟩, hdisp, hi⟩
    simp only [decide_eq_true_eq] at hi
    subst hi
    have hb : b = binding := by
      obtain ⟨m, hm, ⟨rfl, rfl⟩, -⟩ := (mem_resolveBindingsForInput _ _ _ extending_nodup _ _).mp hdisp
      have hget := (mem_extending.mp hm.1).1
      exact Option.some.inj (hget.symm.trans (mem_reversed.mp hmem))
    rw [hb] at hdisp
    exact hdisp
  · exact fun hdisp => ⟨(index, binding), hdisp, by simp⟩

def candidates (keymap : Keymap) (windows : Bool) (input : List Keystroke)
    (contexts : List KeyContext) : List Matched :=
  ((keymap.extending windows input).filter (fun entry => !entry.2.disables)).filterMap (fun entry =>
    (entry.2.enabled contexts).bind (fun depth =>
      let dispatched := (resolveBindingsForInput windows (fullInput input entry.2) contexts
        (keymap.extending windows input)).1
      if dispatched.any (fun d => d.1 = entry.1) then some (⟨depth, entry.1, entry.2⟩ : Matched)
      else none))

lemma possibleNext_eq : keymap.possibleNextBindingsForInput windows input contexts =
    ((keymap.candidates windows input contexts).insertionSort Matched.Before).map
      Matched.binding := rfl

lemma mem_candidates {m : Matched} :
    m ∈ keymap.candidates windows input contexts ↔
      keymap.bindings[m.index]? = some m.binding ∧ m.binding.enabled contexts = some m.depth ∧
        m.binding.disables = false ∧ m.binding.matchKeystrokes windows input = some true ∧
          (m.index, m.binding) ∈ (resolveBindingsForInput windows (fullInput input m.binding)
            contexts keymap.reversed).1 := by
  simp only [candidates, mem_filterMap, mem_filter, Option.bind_eq_some_iff, Prod.exists,
    Bool.not_eq_true', mem_extending]
  constructor
  · rintro ⟨index, binding, ⟨⟨hget, hmatch⟩, hd⟩, depth, hdepth, hm⟩
    split at hm
    · next hany =>
      obtain rfl := Option.some.inj hm
      exact ⟨hget, hdepth, hd, hmatch,
        (dispatched_iff (mem_reversed.mpr hget) hmatch hdepth hd).mp hany⟩
    · cases hm
  · rintro ⟨hget, hdepth, hd, hmatch, hrun⟩
    refine ⟨m.index, m.binding, ⟨⟨hget, hmatch⟩, hd⟩, m.depth, hdepth, ?_⟩
    exact if_pos ((dispatched_iff (mem_reversed.mpr hget) hmatch hdepth hd).mpr hrun)

lemma possibleNext_ne_nil_iff :
    keymap.possibleNextBindingsForInput windows input contexts ≠ [] ↔
      ∃ index binding, keymap.KeptByRank windows input contexts index binding := by
  have hcandidates : keymap.possibleNextBindingsForInput windows input contexts ≠ [] ↔
      ∃ m, m ∈ keymap.candidates windows input contexts := by
    rw [possibleNext_eq, ne_eq, map_eq_nil_iff, ← length_eq_zero_iff,
      length_insertionSort, length_eq_zero_iff]
    exact ⟨exists_mem_of_ne_nil _, fun ⟨m, hm⟩ => ne_nil_of_mem hm⟩
  rw [hcandidates]
  simp only [mem_candidates]
  constructor
  · rintro ⟨m, hget, hdepth, hd, hmatch, hrun⟩
    rw [mem_resolved_iff keymap.reversed_nodup (mem_reversed.mpr hget) hdepth (matchKeystrokes_fullInput hmatch) hd] at hrun
    exact ⟨m.index, m.binding, ⟨hget, by rw [hdepth]; rfl, hmatch⟩, hd, m.depth, hdepth, hrun⟩
  · rintro ⟨index, binding, ⟨hget, -, hmatch⟩, hd, depth, hdepth, hdis⟩
    refine ⟨⟨depth, index, binding⟩, hget, hdepth, hd, hmatch, ?_⟩
    rwa [mem_resolved_iff keymap.reversed_nodup (mem_reversed.mpr hget) hdepth (matchKeystrokes_fullInput hmatch) hd]

end

/-- A binding that some typed keystrokes run: one in context that they match in full, neither `null`
nor `Unbind`, and disabled by none that they match. -/
def Runs (keymap : Keymap) (windows : Bool) (contexts : List KeyContext) (typed : List Keystroke)
    (index : ℕ) (binding : KeyBinding) : Prop :=
  binding.disables = false ∧
    ∃ depth, (⟨depth, index, binding⟩ : Matched) ∈ matching windows typed contexts keymap.reversed ∧
      ¬ DisabledByRank (matching windows typed contexts keymap.reversed) ⟨depth, index, binding⟩

lemma bindingsForInput_ne_nil_iff (keymap : Keymap) (windows : Bool) (contexts : List KeyContext)
    (typed : List Keystroke) : (keymap.bindingsForInput windows typed contexts).1 ≠ [] ↔
      ∃ index binding, keymap.Runs windows contexts typed index binding := by
  rw [bindingsForInput, ne_eq, map_eq_nil_iff]
  constructor
  · intro h
    obtain ⟨⟨index, binding⟩, hmem⟩ := exists_mem_of_ne_nil _ h
    obtain ⟨⟨depth, i, b⟩, hm, ⟨rfl, rfl⟩, hd, hdis⟩ :=
      (mem_resolveBindingsForInput _ _ _ keymap.reversed_nodup _ _).mp hmem
    exact ⟨i, b, hd, depth, hm, hdis⟩
  · rintro ⟨index, binding, hd, depth, hm, hdis⟩
    exact ne_nil_of_mem ((mem_resolveBindingsForInput _ _ _ keymap.reversed_nodup _ _).mpr
      ⟨_, hm, ⟨rfl, rfl⟩, hd, hdis⟩)

/-- What is kept by rank runs once its own keystrokes are typed. -/
lemma KeptByRank.runs {keymap : Keymap} {windows : Bool} {input : List Keystroke}
    {contexts : List KeyContext} {index : ℕ} {binding : KeyBinding}
    (h : keymap.KeptByRank windows input contexts index binding) :
    ∃ more, more ≠ [] ∧ keymap.Runs windows contexts (input ++ more) index binding := by
  obtain ⟨⟨hget, -, hmatch⟩, hd, depth, hdepth, hdis⟩ := h
  refine ⟨(binding.keystrokes.drop input.length).map KeybindingKeystroke.inner, ?_, hd, depth,
    ⟨mem_reversed.mpr hget, hdepth, matchKeystrokes_fullInput hmatch⟩, hdis⟩
  have hlt := of_decide_eq_true (matchKeystrokes_eq_some.mp hmatch).2.2
  simpa using hlt

lemma agree_iff {p q r : Prop} (h : q → r) : (p ↔ q) ∧ (q ↔ r) ↔ p ∧ q ∨ ¬ p ∧ ¬ r := by
  tauto

/-- For an input that runs no binding, the pending flag, the bindings that can follow and the longer
inputs that run one agree exactly if there are both a binding kept in order and one kept by rank, or
no binding is kept in order and none runs however the input goes on. -/
theorem pending_agrees_iff (keymap : Keymap) (windows : Bool) (input : List Keystroke)
    (contexts : List KeyContext) (h : (keymap.bindingsForInput windows input contexts).1 = []) :
    (((keymap.bindingsForInput windows input contexts).2 = true ↔
        keymap.possibleNextBindingsForInput windows input contexts ≠ []) ∧
      (keymap.possibleNextBindingsForInput windows input contexts ≠ [] ↔
        ∃ more, more ≠ [] ∧ (keymap.bindingsForInput windows (input ++ more) contexts).1 ≠ [])) ↔
      ((∃ index binding, keymap.KeptInOrder windows input contexts index binding) ∧
        ∃ index binding, keymap.KeptByRank windows input contexts index binding) ∨
      (∀ index binding, ¬ keymap.KeptInOrder windows input contexts index binding) ∧
        ∀ more, more ≠ [] → ∀ index binding,
          ¬ keymap.Runs windows contexts (input ++ more) index binding := by
  have hruns : (∃ index binding, keymap.KeptByRank windows input contexts index binding) →
      ∃ more, more ≠ [] ∧ ∃ index binding,
        keymap.Runs windows contexts (input ++ more) index binding := by
    rintro ⟨index, binding, hkept⟩
    obtain ⟨more, hmore, hrun⟩ := hkept.runs
    exact ⟨more, hmore, index, binding, hrun⟩
  have hnone : (∀ more, more ≠ [] → ∀ index binding,
        ¬ keymap.Runs windows contexts (input ++ more) index binding) ↔
      ¬ ∃ more, more ≠ [] ∧ ∃ index binding,
        keymap.Runs windows contexts (input ++ more) index binding := by
    simp only [not_exists, not_and]
  rw [pending_iff h, possibleNext_ne_nil_iff, hnone]
  simp only [bindingsForInput_ne_nil_iff, ← not_exists]
  exact agree_iff hruns

def plain (key : String) : KeybindingKeystroke := ⟨⟨Modifiers.none, key, none⟩, none⟩

def rebound : Keymap :=
  ⟨[⟨.action "Alpha" "", [plain "k", plain "a"], none, none⟩,
    ⟨.noAction, [plain "k", plain "a"], some (.identifier "Editor"), none⟩,
    ⟨.action "Beta" "", [plain "k", plain "a"], some (.identifier "Editor"), none⟩]⟩

theorem pending_agrees_rebound :
    let input := [(plain "k").inner]
    let contexts : List KeyContext := [[⟨"Editor", none⟩]]
    (((rebound.bindingsForInput false input contexts).2 = true ↔
        rebound.possibleNextBindingsForInput false input contexts ≠ []) ∧
      (rebound.possibleNextBindingsForInput false input contexts ≠ [] ↔
        ∃ more, more ≠ [] ∧ (rebound.bindingsForInput false (input ++ more) contexts).1 ≠ [])) ↔
      ((∃ index binding, rebound.KeptInOrder false input contexts index binding) ∧
        ∃ index binding, rebound.KeptByRank false input contexts index binding) ∨
      (∀ index binding, ¬ rebound.KeptInOrder false input contexts index binding) ∧
        ∀ more, more ≠ [] → ∀ index binding,
          ¬ rebound.Runs false contexts (input ++ more) index binding :=
  pending_agrees_iff rebound false [(plain "k").inner] [[⟨"Editor", none⟩]] (by decide)

/-- An `Unbind` of another action takes a chord out of the pending ones, though typing it in full
would run it. -/
theorem not_pending_agrees_unbindOther :
    let keymap : Keymap :=
      ⟨[⟨.action "Alpha" "", [plain "k", plain "a"], none, none⟩,
        ⟨.unbind "Beta", [plain "k", plain "a"], none, none⟩]⟩
    keymap.bindingsForInput false [(plain "k").inner] [] = ([], false) ∧
      (keymap.possibleNextBindingsForInput false [(plain "k").inner] []).map (·.action.name) =
        ["Alpha"] ∧
      (keymap.bindingsForInput false [(plain "k").inner, (plain "a").inner] []).1.map
        (·.action.name) = ["Alpha"] := by
  decide

end Keymap

end GpuiFast
