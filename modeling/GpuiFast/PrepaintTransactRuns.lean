import GpuiFast.DispatchStacks
import GpuiFast.PrepaintTransactHolds

namespace GpuiFast

open List DispatchTree

namespace PrepaintWindow

variable {V N C L : Type*}

/-- Truncating the frame takes back what an operation does. `before` is the window the prepaint
began at, `window` the one the operation is done at. -/
def TakenBack (before window : PrepaintWindow V N C L) : PrepaintOp V N → Prop
  | .pushNode viewId focusId =>
    (∀ key ∈ viewId, window.nextFrame.dispatchTree.viewStack.head? ≠ some key →
      before.nextFrame.dispatchTree.viewNodeIds.get? key = none) ∧
    ∀ key ∈ focusId, before.nextFrame.dispatchTree.focusableNodeIds.get? key = none ∧
      (before.focus = some key → before.nextFrame.focus = some key)
  | .pushA11y id _ => id ∈ before.a11y.seenIds
  | .pushLeafA11y node => node.id ∈ before.a11y.seenIds
  | .beginRetained id insideLayer =>
    insideLayer = true ∨ ∃ record ∈ before.nextFrame.records, record.id = id
  | .reusePrepaint start stop records =>
    let copied := window.nextFrame.dispatchTree.copyNodes window.renderedFrame.dispatchTree
      start.dispatchTree stop.dispatchTree none window.focus
    (∀ node ∈ copied.target.nodes.drop window.nextFrame.dispatchTree.nodes.length,
      before.nextFrame.dispatchTree.Unknown node) ∧
    (copied.containsFocus = true → before.nextFrame.focus = before.focus) ∧
    records = [] ∧
    (before.a11yReplays = true → ∀ op ∈ slice before.previousOps start.a11y stop.a11y,
      A11yNodeBuilder.ReplaysSeen before.previousNodes before.a11y op) ∧
    (∀ index : ℕ, start.tooltips ≤ index → index < stop.tooltips →
      ∀ request ∈ before.renderedFrame.tooltipRequests[index]?, request = none) ∧
    ∀ index : ℕ, start.dispatchTree ≤ index → index < stop.dispatchTree →
      ∀ node ∈ before.renderedFrame.dispatchTree.nodes[index]?,
        DispatchTree.DispatchNode.taken node = node
  | _ => True

/-- Accessibility nodes are finished only if they were pushed since the prepaint began. -/
def Balanced (before window : PrepaintWindow V N C L) : PrepaintOp V N → Prop
  | .popA11y => before.a11y.nodesStack.length < window.a11y.nodesStack.length
  | .reusePrepaint start stop _ =>
    A11yNodeBuilder.ReplaysBalanced
      (window.a11y.replayOpen.length - before.a11y.replayOpen.length)
      (slice before.previousOps start.a11y stop.a11y)
  | _ => True

/-- Every operation of a prepaint that began at `before` and has come to `window` satisfies
`p`. -/
def Along [Inhabited N] (p : PrepaintWindow V N C L → PrepaintOp V N → Prop) :
    PrepaintWindow V N C L → List (PrepaintOp V N) → Prop
  | _, [] => True
  | window, op :: ops => p window op ∧ Along p (window.step op) ops

variable {before window : PrepaintWindow V N C L}

def Traces [Inhabited N] (before window : PrepaintWindow V N C L) (op : PrepaintOp V N) : Prop :=
  before.Grown (window.step op) ∧
    (before.Restorable (window.step op) ↔ before.Restorable window ∧ before.TakenBack window op)

lemma pushNode_tree (window : PrepaintWindow V N C L) (viewId : Option EntityId)
    (focusId : Option FocusId) :
    ∃ node, node.focusId = focusId ∧
      (window.pushNode viewId focusId).nextFrame.dispatchTree.nodes =
        (window.nextFrame.dispatchTree.place node node.parent (viewId.filter fun key =>
          window.nextFrame.dispatchTree.viewStack.head? ≠ some key)).nodes ∧
      (window.pushNode viewId focusId).nextFrame.dispatchTree.focusableNodeIds =
        (window.nextFrame.dispatchTree.place node node.parent (viewId.filter fun key =>
          window.nextFrame.dispatchTree.viewStack.head? ≠ some key)).focusableNodeIds ∧
      (window.pushNode viewId focusId).nextFrame.dispatchTree.viewNodeIds =
        (window.nextFrame.dispatchTree.place node node.parent (viewId.filter fun key =>
          window.nextFrame.dispatchTree.viewStack.head? ≠ some key)).viewNodeIds := by
  refine ⟨⟨[], [], [], none, focusId, none, window.nextFrame.dispatchTree.nodeStack.head?⟩, rfl, ?_⟩
  cases viewId with
  | none =>
    cases focusId <;>
      simp [pushNode, next, setFocusHandle, DispatchTree.pushNode, setFocusId, modifyNode, place,
        modify_length_append]
  | some viewId =>
    by_cases hview : window.nextFrame.dispatchTree.viewStack.head? = some viewId
    · cases focusId <;>
        simp [pushNode, next, setFocusHandle, DispatchTree.pushNode, setFocusId, setViewId,
          modifyNode, place, modify_length_append, hview, Option.filter]
    · cases focusId <;>
        simp [pushNode, next, setFocusHandle, DispatchTree.pushNode, setFocusId, setViewId,
          modifyNode, place, modify_length_append, hview, Option.filter]

lemma assigned_focus_iff {was focus assigned : Option FocusId} (h : focus = was ∨ focus = assigned)
    (p : Prop) [Decidable p] :
    (if p then assigned else focus) = was ↔ focus = was ∧ (p → was = assigned) := by
  by_cases hp : p
  · rw [if_pos hp]
    constructor
    · rintro rfl
      exact ⟨h.elim id id, fun _ => rfl⟩
    · rintro ⟨-, heq⟩
      exact (heq hp).symm
  · simp [hp]

variable [Inhabited N]

lemma traces_append {op : PrepaintOp V N}
    (hgrown : before.Grown (window.step op)) (htaken : before.TakenBack window op)
    (htree : (window.step op).nextFrame.dispatchTree.nodes = window.nextFrame.dispatchTree.nodes)
    (hfocus : (window.step op).nextFrame.focus = window.nextFrame.focus)
    (hrecords : (window.step op).nextFrame.records = window.nextFrame.records)
    (ha11y : (window.step op).a11y = window.a11y)
    (hrendered : (window.step op).renderedFrame = window.renderedFrame) :
    Traces before window op := by
  refine ⟨hgrown, ?_⟩
  constructor
  · intro hres
    exact ⟨⟨htree ▸ hres.nodes, hfocus ▸ hres.focus, hrecords ▸ hres.records, ha11y ▸ hres.a11y,
      hrendered ▸ hres.offeredTooltips, hrendered ▸ hres.offeredNodes⟩, htaken⟩
  · rintro ⟨hres, -⟩
    exact ⟨htree ▸ hres.nodes, hfocus ▸ hres.focus, hrecords ▸ hres.records, ha11y ▸ hres.a11y,
      hrendered ▸ hres.offeredTooltips, hrendered ▸ hres.offeredNodes⟩

lemma Grown.step_pushNode (h : before.Grown window) (viewId : Option EntityId)
    (focusId : Option FocusId) : Traces before window (.pushNode viewId focusId) := by
  obtain ⟨node, hfocusId, hnodes, hfocusIds, hviewIds⟩ := pushNode_tree window viewId focusId
  have hfocus : (window.pushNode viewId focusId).nextFrame.focus =
      if ∃ key ∈ focusId, window.focus = some key then window.focus else window.nextFrame.focus := by
    cases viewId <;> cases focusId with
    | none => simp [pushNode, next]
    | some key => by_cases hkey : window.focus = some key <;>
        simp [pushNode, next, setFocusHandle, hkey]
  have hrest : window.pushNode viewId focusId =
      { window with nextFrame := { window.nextFrame with
        dispatchTree := (window.pushNode viewId focusId).nextFrame.dispatchTree
        focus := (window.pushNode viewId focusId).nextFrame.focus } } := by
    cases viewId <;> cases focusId <;> rfl
  have htree : before.nextFrame.dispatchTree.Grown
      (window.pushNode viewId focusId).nextFrame.dispatchTree :=
    (h.tree.place node node.parent _).congr hnodes hfocusIds hviewIds
  -- the nodes added are those added before and the one opened
  have hadded : (∀ node ∈ (window.pushNode viewId focusId).nextFrame.dispatchTree.nodes.drop
        before.nextFrame.dispatchTree.nodes.length, before.nextFrame.dispatchTree.Unknown node) ↔
      (∀ node ∈ window.nextFrame.dispatchTree.nodes.drop before.nextFrame.dispatchTree.nodes.length,
        before.nextFrame.dispatchTree.Unknown node) ∧
      (∀ key ∈ viewId, window.nextFrame.dispatchTree.viewStack.head? ≠ some key →
        before.nextFrame.dispatchTree.viewNodeIds.get? key = none) ∧
      ∀ key ∈ focusId, before.nextFrame.dispatchTree.focusableNodeIds.get? key = none := by
    rw [hnodes, place.eq_def]
    dsimp only
    rw [h.tree.drop_append, forall_mem_append, forall_mem_singleton, Unknown]
    dsimp only
    rw [hfocusId, @and_comm (∀ key ∈ focusId, _)]
    simp only [Option.mem_filter_iff, decide_eq_true_eq, and_imp]
  -- the focus is the window's if the node has it
  have hassigned : (window.pushNode viewId focusId).nextFrame.focus = before.nextFrame.focus ↔
      window.nextFrame.focus = before.nextFrame.focus ∧
        ∀ key ∈ focusId, before.focus = some key → before.nextFrame.focus = some key := by
    rw [hfocus, h.windowFocus, assigned_focus_iff h.focus]
    refine and_congr_right fun _ => ?_
    constructor
    · intro hassign key hkey heq
      exact (hassign ⟨key, hkey, heq⟩).trans heq
    · rintro hkeys ⟨key, hkey, heq⟩
      exact (hkeys key hkey heq).trans heq.symm
  refine ⟨?_, ?_⟩
  · rw [step, hrest]
    exact { h with
      tree := htree
      focus := by
        dsimp only
        rw [hfocus, h.windowFocus]
        split
        · exact .inr rfl
        · exact h.focus }
  · rw [step, hrest, TakenBack]
    constructor
    · intro hres
      obtain ⟨hbefore, hview, hids⟩ := hadded.mp hres.nodes
      obtain ⟨hfocus', hkeys⟩ := hassigned.mp hres.focus
      exact ⟨⟨hbefore, hfocus', hres.records, hres.a11y, hres.offeredTooltips, hres.offeredNodes⟩,
        hview, fun key hkey => ⟨hids key hkey, hkeys key hkey⟩⟩
    · rintro ⟨hres, hview, hids⟩
      exact ⟨hadded.mpr ⟨hres.nodes, hview, fun key hkey => (hids key hkey).1⟩,
        hassigned.mpr ⟨hres.focus, fun key hkey => (hids key hkey).2⟩, hres.records, hres.a11y,
        hres.offeredTooltips, hres.offeredNodes⟩

lemma Grown.traces_a11y (h : before.Grown window) {op : PrepaintOp V N}
    {a11y : A11yNodeBuilder N} (hstep : window.step op = { window with a11y })
    (hgrown : before.a11y.Grown a11y)
    (hsame : before.a11y.Same a11y ↔ before.a11y.Same window.a11y ∧ before.TakenBack window op) :
    Traces before window op := by
  refine ⟨hstep ▸ { h with a11y := hgrown }, ?_⟩
  rw [hstep]
  constructor
  · intro hres
    obtain ⟨hsame', htaken⟩ := hsame.mp hres.a11y
    exact ⟨{ hres with a11y := hsame' }, htaken⟩
  · rintro ⟨hres, htaken⟩
    exact { hres with a11y := hsame.mpr ⟨hres.a11y, htaken⟩ }

lemma length_pushRecord (records : List RetainedSubtree) (record : RetainedSubtree) :
    (pushRecord records record).length = records.length + 1 := by
  simp [pushRecord]

lemma length_foldl_pushRecord (records added : List RetainedSubtree) :
    (added.foldl pushRecord records).length = records.length + added.length := by
  induction added generalizing records with
  | nil => rfl
  | cons record added ih =>
    rw [foldl_cons, ih, length_pushRecord, length_cons]
    omega

lemma Grown.step_beginRetained (h : before.Grown window) (id : ℕ) (insideLayer : Bool) :
    Traces before window (.beginRetained id insideLayer) := by
  have hle := h.records_length
  rw [Traces, step, beginRetained]
  by_cases hskip : (window.nextFrame.records.any (·.id = id) || insideLayer) = true
  · rw [if_pos hskip]
    refine ⟨h, ?_⟩
    constructor
    · intro hres
      refine ⟨hres, ?_⟩
      rw [hres.records, Bool.or_eq_true, any_eq_true] at hskip
      simpa [TakenBack, or_comm] using hskip
    · rintro ⟨hres, -⟩
      exact hres
  · rw [if_neg hskip]
    have hlength := length_pushRecord window.nextFrame.records ⟨id, .unpainted⟩
    refine ⟨{ h with records_length := ?_, records := ?_ }, ?_⟩
    · dsimp only [next]
      omega
    · dsimp only [next]
      intro heq
      omega
    · constructor
      · intro hres
        have heq := congrArg List.length hres.records
        dsimp only [next] at heq
        omega
      · rintro ⟨hres, htaken⟩
        refine absurd ?_ hskip
        rw [hres.records, Bool.or_eq_true, any_eq_true]
        simpa [TakenBack, or_comm] using htaken

variable {α : Type*}

lemma getElem?_takeSlice (entries : List (Option α)) (start stop index : ℕ) :
    (takeSlice entries start stop)[index]? =
      if start ≤ index ∧ index < stop then entries[index]?.map fun _ => none
      else entries[index]? := by
  rw [takeSlice, getElem?_mapIdx]
  split <;> simp_all

lemma takeSlice_eq_iff {before entries : List (Option α)} {start stop : ℕ}
    (h : ∀ index : ℕ, entries[index]? = before[index]? ∨
      entries[index]? = some none ∧ before[index]? ≠ none) :
    takeSlice entries start stop = before ↔ entries = before ∧
      ∀ index : ℕ, start ≤ index → index < stop → ∀ request ∈ before[index]?, request = none := by
  have hget := getElem?_takeSlice entries start stop
  constructor
  · intro heq
    have hpoint : ∀ index : ℕ, (takeSlice entries start stop)[index]? = before[index]? := by
      simp [heq]
    have hnone : ∀ index : ℕ, start ≤ index → index < stop →
        ∀ request ∈ before[index]?, request = none := by
      intro index hstart hstop request hrequest
      have hat := hpoint index
      rw [hget, if_pos ⟨hstart, hstop⟩, hrequest] at hat
      cases hentry : entries[index]? <;> simp_all
    refine ⟨ext_getElem? fun index => ?_, hnone⟩
    rcases h index with hsame | ⟨htaken, hsome⟩
    · exact hsame
    · have hat := hpoint index
      rw [hget, htaken] at hat
      rw [htaken, ← hat]
      split <;> rfl
  · rintro ⟨rfl, hnone⟩
    refine ext_getElem? fun index => ?_
    rw [hget]
    split
    case isTrue hin =>
      cases hentry : entries[index]? with
      | none => rfl
      | some request => rw [Option.map_some, hnone index hin.1 hin.2 request hentry]
    case isFalse => rfl

lemma takeSlice_kept {before entries : List (Option α)}
    (h : ∀ index : ℕ, entries[index]? = before[index]? ∨
      entries[index]? = some none ∧ before[index]? ≠ none) (start stop index : ℕ) :
    (takeSlice entries start stop)[index]? = before[index]? ∨
      (takeSlice entries start stop)[index]? = some none ∧ before[index]? ≠ none := by
  rw [getElem?_takeSlice]
  split
  · rcases h index with hsame | ⟨htaken, hsome⟩
    · rw [hsame]
      cases before[index]? with
      | none => exact .inl rfl
      | some request => exact .inr ⟨rfl, nofun⟩
    · exact .inr ⟨by rw [htaken]; rfl, hsome⟩
  · exact h index

lemma drained_kept {before nodes drained : List (DispatchNode C L)} {lo hi : ℕ}
    (h : ∀ index : ℕ, nodes[index]? = before[index]? ∨
      nodes[index]? = before[index]?.map DispatchTree.DispatchNode.taken)
    (hdrained : Drained nodes drained lo hi) (index : ℕ) :
    drained[index]? = before[index]? ∨
      drained[index]? = before[index]?.map DispatchTree.DispatchNode.taken := by
  rw [hdrained index]
  split
  · rcases h index with hsame | htaken
    · exact .inr (by rw [hsame])
    · exact .inr (by rw [htaken, Option.map_map]; rfl)
  · exact h index

lemma drained_eq_iff {before nodes drained : List (DispatchNode C L)} {lo hi : ℕ}
    (h : ∀ index : ℕ, nodes[index]? = before[index]? ∨
      nodes[index]? = before[index]?.map DispatchTree.DispatchNode.taken)
    (hdrained : Drained nodes drained lo hi) :
    drained = before ↔ nodes = before ∧
      ∀ index : ℕ, lo ≤ index → index < hi →
        ∀ node ∈ before[index]?, DispatchTree.DispatchNode.taken node = node := by
  constructor
  · rintro rfl
    have hkept : ∀ index : ℕ, lo ≤ index → index < hi →
        ∀ node ∈ drained[index]?, DispatchTree.DispatchNode.taken node = node := by
      intro index hlo hhi node hnode
      have hat := hdrained index
      rw [if_pos ⟨hlo, hhi⟩, hnode] at hat
      obtain ⟨source, -, rfl⟩ := Option.map_eq_some_iff.mp hat.symm
      rfl
    refine ⟨ext_getElem? fun index => ?_, hkept⟩
    rcases h index with hsame | htaken
    · exact hsame
    · have hat := hdrained index
      rw [htaken] at hat ⊢
      split at hat
      case isTrue =>
        rw [Option.map_map] at hat
        exact hat.symm
      case isFalse => exact hat.symm
  · rintro ⟨rfl, hkept⟩
    refine ext_getElem? fun index => ?_
    rw [hdrained index]
    split
    case isTrue hin =>
      cases hnode : nodes[index]? with
      | none => rfl
      | some node => rw [Option.map_some, hkept index hin.1 hin.2 node hnode]
    case isFalse => rfl

lemma pushRecords_eq_iff {before current : List RetainedSubtree}
    (hle : before.length ≤ current.length) (records : List RetainedSubtree) :
    records.foldl pushRecord current = before ↔ current = before ∧ records = [] := by
  constructor
  · intro heq
    have hcount := congrArg List.length heq
    rw [length_foldl_pushRecord] at hcount
    obtain rfl : records = [] := length_eq_zero_iff.mp (by omega)
    exact ⟨heq, rfl⟩
  · rintro ⟨heq, rfl⟩
    exact heq

lemma Grown.replays_iff (h : before.Grown window) {start stop : PrepaintStateIndex}
    {records : List RetainedSubtree}
    (hbalanced : before.Balanced window (.reusePrepaint start stop records)) :
    before.a11y.Grown (window.reusePrepaint start stop records).a11y ∧
      (before.a11y.Same (window.reusePrepaint start stop records).a11y ↔
        before.a11y.Same window.a11y ∧ (before.a11yReplays = true →
          ∀ op ∈ slice before.previousOps start.a11y stop.a11y,
            A11yNodeBuilder.ReplaysSeen before.previousNodes before.a11y op)) := by
  obtain ⟨hreplays, hops, hnodes⟩ := h.replays
  rw [reusePrepaint]
  dsimp only
  rw [hreplays, hops, hnodes]
  by_cases hreplay : before.a11yReplays = true
  · rw [if_pos hreplay]
    obtain ⟨hgrown, hiff⟩ := h.a11y.replay before.previousNodes _ hbalanced
    exact ⟨hgrown, hiff.trans (by simp [hreplay])⟩
  · rw [if_neg hreplay]
    exact ⟨h.a11y, by simp [hreplay]⟩

lemma Grown.step_reusePrepaint (h : before.Grown window) (start stop : PrepaintStateIndex)
    (records : List RetainedSubtree)
    (hbalanced : before.Balanced window (.reusePrepaint start stop records)) :
    Traces before window (.reusePrepaint start stop records) := by
  obtain ⟨htree, hdrained⟩ := h.tree.copyNodes window.renderedFrame.dispatchTree
    start.dispatchTree stop.dispatchTree window.focus
  obtain ⟨hself, -⟩ := (DispatchTree.Grown.refl window.nextFrame.dispatchTree).copyNodes
    window.renderedFrame.dispatchTree start.dispatchTree stop.dispatchTree window.focus
  obtain ⟨ha11y, hsame⟩ := h.replays_iff hbalanced
  have hrecords := pushRecords_eq_iff h.records_length records
  have htooltips := @takeSlice_eq_iff V _ _ start.tooltips stop.tooltips h.offeredTooltips
  have hoffered := drained_eq_iff h.offeredNodes hdrained
  have hassigned := assigned_focus_iff (h.windowFocus ▸ h.focus)
    ((window.nextFrame.dispatchTree.copyNodes window.renderedFrame.dispatchTree
      start.dispatchTree stop.dispatchTree none window.focus).containsFocus = true)
  -- the nodes added are those added before and the copies
  have hadded : (∀ node ∈ (window.nextFrame.dispatchTree.copyNodes
        window.renderedFrame.dispatchTree start.dispatchTree stop.dispatchTree none
        window.focus).target.nodes.drop before.nextFrame.dispatchTree.nodes.length,
        before.nextFrame.dispatchTree.Unknown node) ↔
      (∀ node ∈ window.nextFrame.dispatchTree.nodes.drop
        before.nextFrame.dispatchTree.nodes.length, before.nextFrame.dispatchTree.Unknown node) ∧
      ∀ node ∈ (window.nextFrame.dispatchTree.copyNodes
        window.renderedFrame.dispatchTree start.dispatchTree stop.dispatchTree none
        window.focus).target.nodes.drop window.nextFrame.dispatchTree.nodes.length,
        before.nextFrame.dispatchTree.Unknown node := by
    obtain ⟨added, hadded⟩ := hself.nodes
    rw [← hadded, h.tree.drop_append, drop_left, forall_mem_append]
  refine ⟨?_, ?_⟩
  · exact
      { hitboxes := h.hitboxes.trans (prefix_append _ _)
        tooltipRequests := h.tooltipRequests.trans (prefix_append _ _)
        deferredDraws := h.deferredDraws.trans (prefix_append _ _)
        accessedElementStates := h.accessedElementStates.trans (prefix_append _ _)
        lines := h.lines.trans (prefix_append _ _)
        wrappedLines := h.wrappedLines.trans (prefix_append _ _)
        tree := htree
        windowFocus := h.windowFocus
        focus := by
          dsimp only [step, reusePrepaint]
          rw [← h.windowFocus]
          split
          · exact .inr rfl
          · exact h.windowFocus ▸ h.focus
        records_length := by
          dsimp only [step, reusePrepaint]
          rw [length_foldl_pushRecord]
          exact h.records_length.trans (Nat.le_add_right _ _)
        records := fun heq => by
          dsimp only [step, reusePrepaint] at heq ⊢
          rw [length_foldl_pushRecord] at heq
          have hle := h.records_length
          obtain rfl : records = [] := length_eq_zero_iff.mp (by omega)
          exact h.records heq
        a11y := ha11y
        replays := h.replays
        offeredTooltips := takeSlice_kept h.offeredTooltips _ _
        offeredNodes := drained_kept h.offeredNodes hdrained }
  · constructor
    · intro hres
      obtain ⟨hbefore, hcopies⟩ := hadded.mp hres.nodes
      obtain ⟨hfocus, hcontains⟩ := hassigned.mp hres.focus
      obtain ⟨hsame', hseen⟩ := hsame.mp hres.a11y
      obtain ⟨hkept, hnew⟩ := hrecords.mp hres.records
      obtain ⟨hrequests, hnone⟩ := htooltips.mp hres.offeredTooltips
      obtain ⟨hnodes, hlisteners⟩ := hoffered.mp hres.offeredNodes
      exact ⟨⟨hbefore, hfocus, hkept, hsame', hrequests, hnodes⟩, hcopies,
        fun hfocused => (hcontains hfocused).trans h.windowFocus, hnew, hseen, hnone, hlisteners⟩
    · rintro ⟨hres, hcopies, hcontains, hnew, hseen, hnone, hlisteners⟩
      exact ⟨hadded.mpr ⟨hres.nodes, hcopies⟩,
        hassigned.mpr ⟨hres.focus, fun hfocused => (hcontains hfocused).trans h.windowFocus.symm⟩,
        hrecords.mpr ⟨hres.records, hnew⟩, hsame.mpr ⟨hres.a11y, hseen⟩,
        htooltips.mpr ⟨hres.offeredTooltips, hnone⟩, hoffered.mpr ⟨hres.offeredNodes, hlisteners⟩⟩

lemma Grown.step (h : before.Grown window) (op : PrepaintOp V N)
    (hbalanced : before.Balanced window op) : Traces before window op := by
  cases op with
  | insertHitbox hitbox =>
    exact traces_append { h with hitboxes := h.hitboxes.trans (prefix_append _ _) } trivial
      rfl rfl rfl rfl rfl
  | setTooltip tooltip =>
    exact traces_append
      { h with tooltipRequests := h.tooltipRequests.trans (prefix_append _ _) } trivial
      rfl rfl rfl rfl rfl
  | deferDraw draw =>
    exact traces_append { h with deferredDraws := h.deferredDraws.trans (prefix_append _ _) }
      trivial rfl rfl rfl rfl rfl
  | accessElementState key =>
    exact traces_append
      { h with accessedElementStates := h.accessedElementStates.trans (prefix_append _ _) }
      trivial rfl rfl rfl rfl rfl
  | layoutLine line =>
    exact traces_append { h with lines := h.lines.trans (prefix_append _ _) } trivial
      rfl rfl rfl rfl rfl
  | layoutWrappedLine line =>
    exact traces_append { h with wrappedLines := h.wrappedLines.trans (prefix_append _ _) }
      trivial rfl rfl rfl rfl rfl
  | pushNode viewId focusId => exact h.step_pushNode viewId focusId
  | popNode =>
    have hpop : window.nextFrame.dispatchTree.popNode.nodes = window.nextFrame.dispatchTree.nodes ∧
        window.nextFrame.dispatchTree.popNode.focusableNodeIds =
          window.nextFrame.dispatchTree.focusableNodeIds ∧
        window.nextFrame.dispatchTree.popNode.viewNodeIds =
          window.nextFrame.dispatchTree.viewNodeIds := by
      rw [DispatchTree.popNode]
      split <;> exact ⟨rfl, rfl, rfl⟩
    exact traces_append { h with tree := h.tree.congr hpop.1 hpop.2.1 hpop.2.2 } trivial
      hpop.1 rfl rfl rfl rfl
  | pushA11y id data =>
    obtain ⟨hgrown, hsame⟩ := h.a11y.push id data
    exact h.traces_a11y rfl hgrown hsame
  | pushLeafA11y node =>
    obtain ⟨hgrown, hsame⟩ := h.a11y.pushLeaf node
    exact h.traces_a11y rfl hgrown hsame
  | popA11y =>
    obtain ⟨hgrown, hsame⟩ := h.a11y.pop hbalanced
    exact h.traces_a11y rfl hgrown (hsame.trans (and_iff_left trivial).symm)
  | beginRetained id insideLayer => exact h.step_beginRetained id insideLayer
  | reusePrepaint start stop records => exact h.step_reusePrepaint start stop records hbalanced

lemma Grown.run (h : before.Grown window) (ops : List (PrepaintOp V N))
    (hbalanced : Along before.Balanced window ops) :
    before.Grown (ops.foldl PrepaintWindow.step window) ∧
      (before.Restorable (ops.foldl PrepaintWindow.step window) ↔
        before.Restorable window ∧ Along before.TakenBack window ops) := by
  induction ops generalizing window with
  | nil => exact ⟨h, (and_iff_left trivial).symm⟩
  | cons op ops ih =>
    obtain ⟨hop, hrest⟩ := hbalanced
    obtain ⟨hgrown, hiff⟩ := h.step op hop
    obtain ⟨hfinal, hrun⟩ := ih hgrown hrest
    refine ⟨hfinal, hrun.trans ?_⟩
    rw [hiff, and_assoc]
    rfl

/-- A window drawing a frame in which the element focused by handle `5` has its node, inside
another. -/
def focusedWindow : PrepaintWindow Unit Unit Unit Unit where
  renderedFrame := ⟨[], [], [], .new, [], none, []⟩
  nextFrame := ⟨[], [], [],
    ((new.pushNode).pushNode.setFocusId 5).popNode, [], none, []⟩
  lines := []
  previousLines := []
  wrappedLines := []
  previousWrappedLines := []
  focus := none
  a11y := ⟨[⟨0, (), []⟩], [], [], false, [], []⟩
  a11yReplays := false
  previousOps := []
  previousNodes := []

end PrepaintWindow

end GpuiFast
