import GpuiFast.KeyContextSuperset
import GpuiFast.KeymapResolve

namespace GpuiFast

open List Option

def Action.sameType : Action → Action → Bool
  | .noAction, .noAction => true
  | .unbind _, .unbind _ => true
  | .action name _, .action other _ => decide (name = other)
  | _, _ => false

namespace KeyBinding

/-- `disabled_binding_matches_context`. -/
def matchesContextOf (disabled binding : KeyBinding) : Bool :=
  match disabled.contextPredicate, binding.contextPredicate with
  | none, _ => true
  | some _, none => false
  | some disabledPredicate, some predicate => disabledPredicate.isSuperset predicate

/-- Whether `disabled` takes `binding` away when it is added later. -/
def hides (disabled binding : KeyBinding) : Bool :=
  if disabled.keystrokes ≠ binding.keystrokes then false
  else if disabled.action.isNoAction then disabled.matchesContextOf binding
  else disabled.action.isUnbind && disabled.matchesContextOf binding && disabled.unbinds binding

def ownKeystrokes (binding : KeyBinding) : List Keystroke :=
  binding.keystrokes.map (fun keystroke => { keystroke.inner with keyChar := none })

end KeyBinding

namespace Keymap

def bindingIndices (keymap : Keymap) (action : Action) : List ℕ :=
  (List.range keymap.bindings.length).filter (fun ix => keymap.bindings[ix]?.any (fun binding =>
    !binding.disables && binding.action.sameType action))

def disabledBindingIndices (keymap : Keymap) : List ℕ :=
  (List.range keymap.bindings.length).filter (fun ix =>
    keymap.bindings[ix]?.any KeyBinding.disables)

/-- The binding at `ix`, if it is one of the action's and no later one takes it away. -/
def bindingForAction (keymap : Keymap) (action : Action) (ix : ℕ) : Option KeyBinding :=
  keymap.bindings[ix]?.bind (fun binding =>
    if binding.action ≠ action then none
    else if keymap.disabledBindingIndices.any (fun disabledIx => ix < disabledIx &&
        keymap.bindings[disabledIx]?.any (fun disabled => disabled.hides binding)) then none
    else some binding)

def bindingsForAction (keymap : Keymap) (action : Action) : List KeyBinding :=
  (keymap.bindingIndices action).filterMap (keymap.bindingForAction action)

end Keymap

namespace KeyBindingContextPredicate

variable {contexts : List KeyContext} {depth : ℕ}

variable {predicate : KeyBindingContextPredicate}

lemma depthOf_spec (h : predicate.depthOf contexts = some depth) :
    depth ≤ contexts.length ∧ predicate.evalInner (contexts.take depth) contexts = true := by
  rw [depthOf] at h
  have hmem := mem_of_find?_eq_some h
  have heval := find?_some h
  rw [mem_reverse, mem_range] at hmem
  exact ⟨by omega, heval⟩

lemma le_depthOf (hle : depth ≤ contexts.length)
    (h : predicate.evalInner (contexts.take depth) contexts = true) :
    ∃ deeper, predicate.depthOf contexts = some deeper ∧ depth ≤ deeper := by
  have hmem : depth ∈ (List.range (contexts.length + 1)).reverse := by
    rw [mem_reverse, mem_range]
    omega
  obtain ⟨deeper, hdeeper⟩ : ∃ deeper, predicate.depthOf contexts = some deeper :=
    isSome_iff_exists.mp (find?_isSome.mpr ⟨depth, hmem, h⟩)
  refine ⟨deeper, hdeeper, ?_⟩
  obtain ⟨-, before, after, hsplit, hbefore⟩ := find?_eq_some_iff_append.mp hdeeper
  have hsorted : (before ++ deeper :: after).Pairwise (fun a b => b < a) := by
    rw [← hsplit, pairwise_reverse]
    exact pairwise_lt_range
  rw [hsplit, mem_append, mem_cons] at hmem
  rcases hmem with hmem | rfl | hmem
  · have := hbefore depth hmem
    rw [h] at this
    cases this
  · exact le_refl _
  · exact (rel_of_pairwise_cons (pairwise_append.mp hsorted).2.1 hmem).le

lemma depthOf_of_isSuperset {self other : KeyBindingContextPredicate} (hself : self.NegationFree)
    (hother : other.NegationFree) (h : self.isSuperset other = true)
    (hdepth : other.depthOf contexts = some depth) :
    ∃ deeper, self.depthOf contexts = some deeper ∧ depth ≤ deeper := by
  obtain ⟨hle, heval⟩ := depthOf_spec hdepth
  rw [evalInner_iff_holds hother] at heval
  exact le_depthOf hle
    ((evalInner_iff_holds hself _ _).mpr (heval.of_isSuperset hself hother h))

end KeyBindingContextPredicate

namespace KeyBinding

def NegationFree (binding : KeyBinding) : Prop :=
  ∀ predicate, binding.contextPredicate = some predicate → predicate.NegationFree

variable {binding : KeyBinding}

variable {contexts : List KeyContext} {depth : ℕ} {disabled : KeyBinding}

lemma enabled_le (h : binding.enabled contexts = some depth) : depth ≤ contexts.length := by
  rw [enabled] at h
  split at h
  · exact (KeyBindingContextPredicate.depthOf_spec h).1
  · exact (some.inj h).ge

lemma enabled_of_matchesContextOf (hdisabled : disabled.NegationFree)
    (hbinding : binding.NegationFree) (h : disabled.matchesContextOf binding = true)
    (hdepth : binding.enabled contexts = some depth) :
    ∃ deeper, disabled.enabled contexts = some deeper ∧ depth ≤ deeper := by
  cases hd : disabled.contextPredicate with
  | none => exact ⟨contexts.length, by rw [enabled, hd], enabled_le hdepth⟩
  | some disabledPredicate =>
    cases hb : binding.contextPredicate with
    | none => simp [matchesContextOf, hd, hb] at h
    | some predicate =>
      simp only [matchesContextOf, hd, hb] at h
      simp only [enabled, hb] at hdepth
      simp only [enabled, hd]
      exact KeyBindingContextPredicate.depthOf_of_isSuperset (hdisabled _ hd) (hbinding _ hb) h
        hdepth

lemma matchKeystrokes_ownKeystrokes (windows : Bool) {other : KeyBinding}
    (h : other.keystrokes = binding.keystrokes) :
    other.matchKeystrokes windows binding.ownKeystrokes = some false := by
  rw [Keymap.matchKeystrokes_eq_some, h, ownKeystrokes]
  refine ⟨by simp, fun i target stroke ht hs => ?_, by simp⟩
  rw [getElem?_map, ht, map_some, some.injEq] at hs
  subst hs
  simp [Keystroke.shouldMatch]

lemma hides_spec (h : disabled.hides binding = true) :
    disabled.keystrokes = binding.keystrokes ∧ disabled.matchesContextOf binding = true ∧
      (disabled.action.isNoAction = true ∨ disabled.unbinds binding = true) := by
  rw [hides] at h
  split at h
  · cases h
  next hkeys =>
  rw [not_not] at hkeys
  split at h
  · next hno => exact ⟨hkeys, h, .inl hno⟩
  · simp only [Bool.and_eq_true] at h
    exact ⟨hkeys, h.1.2, .inr h.2⟩

end KeyBinding

namespace Keymap

lemma Matched.Outranks.trans {a b c : Matched} (hab : a.Outranks b) (hbc : b.Outranks c) :
    a.Outranks c := by
  simp only [Matched.Outranks] at hab hbc ⊢
  omega

variable {keymap : Keymap} {index : ℕ} {binding : KeyBinding}

lemma bindingForAction_eq_none (hget : keymap.bindings[index]? = some binding)
    (h : keymap.bindingForAction binding.action index = none) :
    ∃ later disabled, index < later ∧ keymap.bindings[later]? = some disabled ∧
      disabled.hides binding = true := by
  rw [bindingForAction, hget, bind_some, if_neg (not_not.mpr rfl)] at h
  split at h
  · next hany =>
    simp only [List.any_eq_true, Bool.and_eq_true, decide_eq_true_eq, Option.any_eq_true] at hany
    obtain ⟨later, -, hlt, disabled, hlater, hhides⟩ := hany
    exact ⟨later, disabled, hlt, hlater, hhides⟩
  · cases h

def StrongerLater (keymap : Keymap) : Prop :=
  keymap.bindings.Pairwise (fun earlier later => later.source ≤ earlier.source)

lemma StrongerLater.source_le (h : keymap.StrongerLater) {i j : ℕ} {a b : KeyBinding}
    (ha : keymap.bindings[i]? = some a) (hb : keymap.bindings[j]? = some b) (hlt : i < j) :
    b.source ≤ a.source := by
  obtain ⟨hi, rfl⟩ := List.getElem?_eq_some_iff.mp ha
  obtain ⟨hj, rfl⟩ := List.getElem?_eq_some_iff.mp hb
  exact pairwise_iff_getElem.mp h i j hi hj hlt

variable {windows : Bool} {contexts : List KeyContext}

lemma disabledByRank_of_hides (hsources : keymap.StrongerLater)
    (hfree : ∀ binding ∈ keymap.bindings, binding.NegationFree) {m : Matched} {later : ℕ}
    {disabled : KeyBinding}
    (hm : m ∈ matching windows m.binding.ownKeystrokes contexts keymap.reversed)
    (hlt : m.index < later) (hlater : keymap.bindings[later]? = some disabled)
    (hhides : disabled.hides m.binding = true) :
    DisabledByRank (matching windows m.binding.ownKeystrokes contexts keymap.reversed) m := by
  obtain ⟨hkeys, hcontext, hkind⟩ := KeyBinding.hides_spec hhides
  have hget := mem_reversed.mp hm.1
  have hsource := hsources.source_le hget hlater hlt
  obtain ⟨deeper, hdeeper, hle⟩ := KeyBinding.enabled_of_matchesContextOf
    (hfree _ (mem_of_getElem? hlater)) (hfree _ (mem_of_getElem? hget)) hcontext hm.2.1
  have hmem : (⟨deeper, later, disabled⟩ : Matched) ∈
      matching windows m.binding.ownKeystrokes contexts keymap.reversed :=
    ⟨mem_reversed.mpr hlater, hdeeper, KeyBinding.matchKeystrokes_ownKeystrokes windows hkeys⟩
  have hout : (⟨deeper, later, disabled⟩ : Matched).Outranks m := by
    rcases hle.lt_or_eq with h | h
    · exact .inl h
    · exact .inr ⟨h.symm, hlt⟩
  rcases hkind with hno | hunbinds
  · exact .inl ⟨_, hmem, hout, hno, hsource⟩
  · by_cases hsuppressed : SuppressedByRank
        (matching windows m.binding.ownKeystrokes contexts keymap.reversed) ⟨deeper, later, disabled⟩
    · -- a null strong enough for the unbind is strong enough for what it unbinds
      obtain ⟨n, hn, hnout, hno, hle'⟩ := hsuppressed
      exact .inl ⟨n, hn, hnout.trans hout, hno, hle'.trans hsource⟩
    · exact .inr ⟨_, hmem, hout, hunbinds, hsuppressed⟩

lemma of_mem_resolved {input : List Keystroke}
    (h : (index, binding) ∈ (resolveBindingsForInput windows input contexts keymap.reversed).1) :
    keymap.bindings[index]? = some binding ∧ binding.disables = false := by
  rw [mem_resolveBindingsForInput _ _ _ keymap.reversed_nodup] at h
  obtain ⟨m, hm, ⟨rfl, rfl⟩, hd, -⟩ := h
  exact ⟨mem_reversed.mp hm.1, hd⟩

lemma mem_bindingsForAction (hget : keymap.bindings[index]? = some binding)
    (hd : binding.disables = false) (h : keymap.bindingForAction binding.action index ≠ none) :
    binding ∈ keymap.bindingsForAction binding.action := by
  refine mem_filterMap.mpr ⟨index, ?_, ?_⟩
  · have hsame : binding.action.sameType binding.action = true := by
      cases binding.action <;> simp [Action.sameType]
    rw [bindingIndices, mem_filter, mem_range, hget, any_some, hd, hsame]
    exact ⟨(List.getElem?_eq_some_iff.mp hget).1, rfl⟩
  · rw [bindingForAction, hget, bind_some, if_neg (not_not.mpr rfl)] at h ⊢
    split at h
    · exact absurd rfl h
    · next hany => rw [if_neg hany]

/-- With stronger sources later and no negations, a binding that is not shown for its action, since
a later null or unbind takes it away, is run by its own keystrokes in no stack of contexts: neither
the one at that index, nor any like it if none like it is shown. -/
theorem hidden_not_dispatched (keymap : Keymap) (hsources : keymap.StrongerLater)
    (hfree : ∀ binding ∈ keymap.bindings, binding.NegationFree) (binding : KeyBinding)
    (windows : Bool) (contexts : List KeyContext) :
    (∀ index, keymap.bindings[index]? = some binding →
        keymap.bindingForAction binding.action index = none →
          (index, binding) ∉ (resolveBindingsForInput windows binding.ownKeystrokes contexts
            keymap.reversed).1) ∧
      (binding ∉ keymap.bindingsForAction binding.action →
        binding ∉ (keymap.bindingsForInput windows binding.ownKeystrokes contexts).1) := by
  have hindex : ∀ index, keymap.bindings[index]? = some binding →
      keymap.bindingForAction binding.action index = none →
        (index, binding) ∉ (resolveBindingsForInput windows binding.ownKeystrokes contexts
          keymap.reversed).1 := by
    intro index hget hhidden hmem
    obtain ⟨later, disabled, hlt, hlater, hhides⟩ := bindingForAction_eq_none hget hhidden
    rw [mem_resolveBindingsForInput _ _ _ keymap.reversed_nodup] at hmem
    obtain ⟨m, hm, ⟨rfl, rfl⟩, -, hdisabled⟩ := hmem
    exact hdisabled (disabledByRank_of_hides hsources hfree hm hlt hlater hhides)
  refine ⟨hindex, fun hnot hmem => hnot ?_⟩
  obtain ⟨⟨index, b⟩, hresolved, rfl⟩ := mem_map.mp hmem
  obtain ⟨hget, hd⟩ := of_mem_resolved hresolved
  exact mem_bindingsForAction hget hd (fun hhidden => hindex index hget hhidden hresolved)

/-- The user's unbind of a built-in binding, under more contexts than it had. -/
theorem hidden_not_dispatched_unbound :
    let builtIn : KeyBinding := ⟨.action "Copy" "", [⟨⟨Modifiers.none, "c", some "c"⟩, none⟩],
      some (.descendant (.identifier "Workspace") (.identifier "Editor")), some 2⟩
    let keymap : Keymap := ⟨[builtIn, { builtIn with
      action := .unbind "Copy", contextPredicate := some (.identifier "Editor"),
      metaIndex := some 0 }]⟩
    (0, builtIn) ∉ (resolveBindingsForInput false builtIn.ownKeystrokes
        [[⟨"Workspace", none⟩], [⟨"Editor", none⟩]] keymap.reversed).1 ∧
      builtIn ∉ (keymap.bindingsForInput false builtIn.ownKeystrokes
        [[⟨"Workspace", none⟩], [⟨"Editor", none⟩]]).1 := by
  intro builtIn keymap
  have hsources : keymap.StrongerLater := by
    rw [StrongerLater]
    decide
  have hfree : ∀ binding ∈ keymap.bindings, binding.NegationFree := by
    simp [keymap, builtIn, KeyBinding.NegationFree, KeyBindingContextPredicate.NegationFree]
  have h := hidden_not_dispatched keymap hsources hfree builtIn false
    [[⟨"Workspace", none⟩], [⟨"Editor", none⟩]]
  exact ⟨h.1 0 rfl (by decide), h.2 (by decide)⟩

end Keymap

end GpuiFast
