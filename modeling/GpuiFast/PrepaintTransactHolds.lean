import GpuiFast.PrepaintTransact

namespace GpuiFast

open List

lemma KeyMap.get?_forget {κ β α : Type*} [DecidableEq κ] (keyOf : α → Option κ) (entries : List α)
    (ids : KeyMap κ β) (key : κ) :
    (entries.foldl (fun ids entry => match keyOf entry with
      | some removed => ids.filter fun key _ => key ≠ removed
      | none => ids) ids).get? key =
      if ∃ entry ∈ entries, keyOf entry = some key then none else ids.get? key := by
  induction entries generalizing ids with
  | nil => simp
  | cons entry entries ih =>
    rw [foldl_cons, ih]
    cases hentry : keyOf entry with
    | none => simp [hentry]
    | some removed =>
      have hget : (ids.filter fun key _ => key ≠ removed).get? key =
          if removed = key then none else ids.get? key := by
        rw [KeyMap.get?_filter]
        by_cases hkey : removed = key
        · cases ids.get? key <;> simp [hkey, Option.filter]
        · have hne : key ≠ removed := fun h => hkey h.symm
          cases ids.get? key <;> simp [hkey, hne, Option.filter]
      dsimp only
      rw [hget]
      by_cases hkey : removed = key <;> simp [hentry, hkey]

namespace DispatchTree

variable {C L : Type*}

variable (nodes : List (DispatchNode C L))

lemma get?_forgetFocusIds (ids : KeyMap FocusId ℕ) (key : FocusId) :
    (forgetFocusIds nodes ids).get? key =
      if ∃ node ∈ nodes, node.focusId = some key then none else ids.get? key := by
  rw [← KeyMap.get?_forget DispatchNode.focusId nodes ids key, forgetFocusIds]
  congr 2
  funext ids node
  cases node.focusId <;> rfl

lemma get?_forgetViewIds (ids : KeyMap EntityId ℕ) (key : EntityId) :
    (forgetViewIds nodes ids).get? key =
      if ∃ node ∈ nodes, node.viewId = some key then none else ids.get? key := by
  rw [← KeyMap.get?_forget DispatchNode.viewId nodes ids key, forgetViewIds]
  congr 2
  funext ids node
  cases node.viewId <;> rfl

structure Grown (before t : DispatchTree C L) : Prop where
  nodes : before.nodes <+: t.nodes
  focusIds : ∀ key, (∃ node ∈ t.nodes.drop before.nodes.length, node.focusId = some key) ∨
    t.focusableNodeIds.get? key = before.focusableNodeIds.get? key
  viewIds : ∀ key, (∃ node ∈ t.nodes.drop before.nodes.length, node.viewId = some key) ∨
    t.viewNodeIds.get? key = before.viewNodeIds.get? key

def Unknown (t : DispatchTree C L) (node : DispatchNode C L) : Prop :=
  (∀ key ∈ node.focusId, t.focusableNodeIds.get? key = none) ∧
    ∀ key ∈ node.viewId, t.viewNodeIds.get? key = none

variable {before t : DispatchTree C L}

lemma Grown.refl (t : DispatchTree C L) : t.Grown t :=
  ⟨prefix_rfl, fun _ => .inr rfl, fun _ => .inr rfl⟩

lemma Grown.truncate_iff (h : before.Grown t) :
    ((t.truncate before.nodes.length).nodes = before.nodes ∧
      (∀ key, (t.truncate before.nodes.length).focusableNodeIds.get? key =
        before.focusableNodeIds.get? key) ∧
      ∀ key, (t.truncate before.nodes.length).viewNodeIds.get? key = before.viewNodeIds.get? key) ↔
    ∀ node ∈ t.nodes.drop before.nodes.length, before.Unknown node := by
  have hnodes : (t.truncate before.nodes.length).nodes = before.nodes :=
    (prefix_iff_eq_take.mp h.nodes).symm
  simp only [hnodes, true_and]
  simp only [truncate, get?_forgetFocusIds, get?_forgetViewIds]
  constructor
  · rintro ⟨hfocus, hview⟩ node hnode
    constructor
    · intro key hkey
      have hget := hfocus key
      rw [if_pos ⟨node, hnode, hkey⟩] at hget
      exact hget.symm
    · intro key hkey
      have hget := hview key
      rw [if_pos ⟨node, hnode, hkey⟩] at hget
      exact hget.symm
  · intro hunknown
    constructor
    · intro key
      split
      case isTrue hnode =>
        obtain ⟨node, hmem, hkey⟩ := hnode
        exact ((hunknown node hmem).1 key hkey).symm
      case isFalse hnone => exact (h.focusIds key).resolve_left hnone
    · intro key
      split
      case isTrue hnode =>
        obtain ⟨node, hmem, hkey⟩ := hnode
        exact ((hunknown node hmem).2 key hkey).symm
      case isFalse hnone => exact (h.viewIds key).resolve_left hnone

lemma Grown.congr {t' : DispatchTree C L} (h : before.Grown t) (hnodes : t'.nodes = t.nodes)
    (hfocus : t'.focusableNodeIds = t.focusableNodeIds) (hview : t'.viewNodeIds = t.viewNodeIds) :
    before.Grown t' :=
  ⟨hnodes ▸ h.nodes, by rw [hnodes, hfocus]; exact h.focusIds,
    by rw [hnodes, hview]; exact h.viewIds⟩

lemma Grown.drop_append (h : before.Grown t) (added : List (DispatchNode C L)) :
    (t.nodes ++ added).drop before.nodes.length = t.nodes.drop before.nodes.length ++ added :=
  drop_append_of_le_length h.nodes.length_le

lemma Grown.place (h : before.Grown t) (node : DispatchNode C L) (parent : Option ℕ)
    (viewId : Option EntityId) : before.Grown (t.place node parent viewId) := by
  have hdrop := h.drop_append [{ node with viewId := viewId, parent := parent }]
  refine ⟨h.nodes.trans (prefix_append _ _), ?_, ?_⟩
  · intro key
    simp only [DispatchTree.place, hdrop, mem_append, mem_singleton]
    by_cases hkey : node.focusId = some key
    · exact .inl ⟨_, .inr rfl, hkey⟩
    · rcases h.focusIds key with ⟨other, hother, hid⟩ | hsame
      · exact .inl ⟨other, .inl hother, hid⟩
      · right
        cases hfocus : node.focusId with
        | none => exact hsame
        | some focusId =>
          have hne : key ≠ focusId := by
            rintro rfl
            exact hkey hfocus
          simp only [KeyMap.get?_insert, if_neg hne]
          exact hsame
  · intro key
    simp only [DispatchTree.place, hdrop, mem_append, mem_singleton]
    by_cases hkey : viewId = some key
    · exact .inl ⟨_, .inr rfl, hkey⟩
    · rcases h.viewIds key with ⟨other, hother, hid⟩ | hsame
      · exact .inl ⟨other, .inl hother, hid⟩
      · right
        cases hview : viewId with
        | none => exact hsame
        | some viewId =>
          have hne : key ≠ viewId := by
            rintro rfl
            exact hkey hview
          simp only [KeyMap.get?_insert, if_neg hne]
          exact hsame

/-- The source of a copy keeps its nodes, but for the listeners of those copied. -/
def Drained (before nodes : List (DispatchNode C L)) (lo hi : ℕ) : Prop :=
  ∀ index, nodes[index]? =
    if lo ≤ index ∧ index < hi then before[index]?.map DispatchNode.taken else before[index]?

lemma foldl_copyNode (lo hi start : ℕ) (openNodes : List ℕ) (focus : Option FocusId)
    (s : Copying C L) (first count : ℕ) (h : before.Grown s.target) :
    before.Grown ((range' first count).foldl (copyNode lo hi start openNodes focus) s).target ∧
      Drained s.source.nodes
        ((range' first count).foldl (copyNode lo hi start openNodes focus) s).source.nodes
        first (first + count) := by
  induction count generalizing s first with
  | zero =>
    refine ⟨h, fun index => ?_⟩
    rw [if_neg (by omega)]
    rfl
  | succ count ih =>
    rw [range'_succ, foldl_cons]
    cases hnode : s.source.nodes[first]? with
    | none =>
      have hstep : copyNode lo hi start openNodes focus s first = s := by
        rw [copyNode, hnode]
      rw [hstep]
      obtain ⟨hgrown, hdrained⟩ := ih s (first + 1) h
      refine ⟨hgrown, fun index => ?_⟩
      rw [hdrained index]
      rcases eq_or_ne index first with rfl | hne
      · rw [if_neg (by omega), if_pos (by omega), hnode]
        rfl
      · congr 1
        simp only [eq_iff_iff]
        omega
    | some node =>
      obtain ⟨parent, viewId, htarget, hsource⟩ : ∃ parent viewId,
          (copyNode lo hi start openNodes focus s first).target =
            s.target.place node parent viewId ∧
          (copyNode lo hi start openNodes focus s first).source =
            s.source.modifyNode first DispatchNode.taken := by
        rw [copyNode, hnode]
        exact ⟨_, _, rfl, rfl⟩
      obtain ⟨hgrown, hdrained⟩ := ih (copyNode lo hi start openNodes focus s first) (first + 1)
        (htarget ▸ h.place node parent viewId)
      refine ⟨hgrown, fun index => ?_⟩
      rw [hdrained index, hsource, modifyNode, getElem?_modify]
      rcases eq_or_ne index first with rfl | hne
      · rw [if_neg (by omega), if_pos (by omega)]
        simp
      · have hne' : first ≠ index := hne.symm
        simp only [if_neg hne', id_map']
        congr 1
        simp only [eq_iff_iff]
        omega

lemma Grown.copyNodes (h : before.Grown t) (source : DispatchTree C L) (lo hi : ℕ)
    (focus : Option FocusId) :
    before.Grown (t.copyNodes source lo hi none focus).target ∧
      Drained source.nodes (t.copyNodes source lo hi none focus).source.nodes lo hi := by
  obtain ⟨hgrown, hdrained⟩ := foldl_copyNode lo hi t.nodes.length [] focus
    ⟨t, source, 0, false⟩ lo (hi - lo) h
  refine ⟨hgrown, fun index => (hdrained index).trans ?_⟩
  congr 1
  simp only [eq_iff_iff]
  omega

end DispatchTree

namespace A11yNodeBuilder

variable {N : Type*} {before builder : A11yNodeBuilder N}

structure Grown (before builder : A11yNodeBuilder N) : Prop where
  seenIds : before.seenIds <:+ builder.seenIds
  replayOpen : before.replayOpen <:+ builder.replayOpen
  kept : builder.seenIds = before.seenIds →
    builder.nodesStack = before.nodesStack ∧ builder.allNodes = before.allNodes ∧
      ∀ pushed ∈ builder.replayOpen.take (builder.replayOpen.length - before.replayOpen.length),
        pushed = false

def Same (before builder : A11yNodeBuilder N) : Prop :=
  builder.nodesStack = before.nodesStack ∧ builder.allNodes = before.allNodes ∧
    builder.seenIds = before.seenIds

lemma Grown.refl (builder : A11yNodeBuilder N) : builder.Grown builder :=
  ⟨suffix_rfl, suffix_rfl, fun _ => ⟨rfl, rfl, by simp⟩⟩

lemma ne_of_cons_suffix {seen before : List ℕ} {id : ℕ} (h : before <:+ seen) :
    id :: seen ≠ before := by
  intro heq
  have hle := h.length_le
  rw [← heq, length_cons] at hle
  omega

lemma seenIds_log (builder : A11yNodeBuilder N) (op : A11yOp) :
    (builder.log op).seenIds = builder.seenIds ∧ (builder.log op).nodesStack = builder.nodesStack ∧
      (builder.log op).allNodes = builder.allNodes ∧
      (builder.log op).replayOpen = builder.replayOpen := by
  rw [log]
  split <;> exact ⟨rfl, rfl, rfl, rfl⟩

lemma push_replayOpen (builder : A11yNodeBuilder N) (id : ℕ) (data : N) :
    (builder.push id data).1.replayOpen = builder.replayOpen := by
  rw [A11yNodeBuilder.push]
  split
  · rfl
  · exact (seenIds_log _ _).2.2.2

lemma pop_ids (builder : A11yNodeBuilder N) : builder.pop.seenIds = builder.seenIds ∧
    builder.pop.replayOpen = builder.replayOpen := by
  rw [A11yNodeBuilder.pop]
  split
  · exact ⟨rfl, rfl⟩
  · exact ⟨(seenIds_log _ _).1, (seenIds_log _ _).2.2.2⟩

lemma become_ids (builder : A11yNodeBuilder N) (node : Option (A11yNode N)) :
    (builder.become node).seenIds = builder.seenIds ∧
      (builder.become node).replayOpen = builder.replayOpen := by
  rw [become.eq_def]
  split <;> exact ⟨rfl, rfl⟩

lemma Grown.seen (h : before.Grown builder) {next : A11yNodeBuilder N} (id : ℕ)
    (hold : id ∈ builder.seenIds → next = builder)
    (hnew : id ∉ builder.seenIds →
      next.seenIds = id :: builder.seenIds ∧ next.replayOpen = builder.replayOpen) :
    before.Grown next ∧ (before.Same next ↔ before.Same builder ∧ id ∈ before.seenIds) := by
  by_cases hmem : id ∈ builder.seenIds
  · rw [hold hmem]
    refine ⟨h, ?_⟩
    constructor
    · intro hsame
      exact ⟨hsame, hsame.2.2 ▸ hmem⟩
    · rintro ⟨hsame, -⟩
      exact hsame
  · obtain ⟨hseen, hreplay⟩ := hnew hmem
    have hne : next.seenIds ≠ before.seenIds := hseen ▸ ne_of_cons_suffix h.seenIds
    refine ⟨⟨hseen ▸ h.seenIds.trans (suffix_cons _ _), hreplay ▸ h.replayOpen,
      fun heq => absurd heq hne⟩, ?_⟩
    constructor
    · rintro ⟨-, -, heq⟩
      exact absurd heq hne
    · rintro ⟨hsame, hbefore⟩
      exact absurd (hsame.2.2 ▸ hbefore) hmem

lemma Grown.push (h : before.Grown builder) (id : ℕ) (data : N) :
    before.Grown (builder.push id data).1 ∧
      (before.Same (builder.push id data).1 ↔ before.Same builder ∧ id ∈ before.seenIds) :=
  h.seen id (fun hmem => by rw [A11yNodeBuilder.push, if_pos hmem]) fun hmem => by
    rw [A11yNodeBuilder.push, if_neg hmem]
    exact ⟨rfl, (seenIds_log _ _).2.2.2⟩

lemma Grown.pushLeaf (h : before.Grown builder) (node : A11yNode N) :
    before.Grown (builder.pushLeaf node) ∧
      (before.Same (builder.pushLeaf node) ↔ before.Same builder ∧ node.id ∈ before.seenIds) :=
  h.seen node.id (fun hmem => by rw [A11yNodeBuilder.pushLeaf, if_pos hmem]) fun hmem => by
    rw [A11yNodeBuilder.pushLeaf, if_neg hmem]
    exact ⟨rfl, (seenIds_log _ _).2.2.2⟩

lemma Grown.pop (h : before.Grown builder)
    (hopen : before.nodesStack.length < builder.nodesStack.length) :
    before.Grown builder.pop ∧ (before.Same builder.pop ↔ before.Same builder) := by
  have hseen : builder.seenIds ≠ before.seenIds := by
    intro heq
    rw [(h.kept heq).1] at hopen
    omega
  have hpop := pop_ids builder
  refine ⟨⟨hpop.1 ▸ h.seenIds, hpop.2 ▸ h.replayOpen, fun heq => ?_⟩, ?_⟩
  · exact absurd (hpop.1.symm.trans heq) hseen
  · refine iff_of_false (fun hsame => hseen ?_) fun hsame => hseen hsame.2.2
    exact hpop.1.symm.trans hsame.2.2

/-- Nothing is finished that was not pushed since: `opened` nodes were. -/
def ReplaysBalanced : ℕ → List A11yOp → Prop
  | _, [] => True
  | opened, .push _ :: ops => ReplaysBalanced (opened + 1) ops
  | opened, .leaf _ :: ops => ReplaysBalanced opened ops
  | opened, .pop _ :: ops => 0 < opened ∧ ReplaysBalanced (opened - 1) ops

def ReplaysSeen (nodes : List (A11yNode N)) (before : A11yNodeBuilder N) : A11yOp → Prop
  | .push id => id ∈ before.seenIds
  | .leaf index => ∀ node ∈ nodes[index]?, node.id ∈ before.seenIds
  | .pop _ => True

variable [Inhabited N]

lemma Grown.replayPush (h : before.Grown builder) (nodes : List (A11yNode N)) (id : ℕ) :
    before.Grown (builder.replayOp nodes (.push id)) ∧
      (before.Same (builder.replayOp nodes (.push id)) ↔
        before.Same builder ∧ id ∈ before.seenIds) ∧
      (builder.replayOp nodes (.push id)).replayOpen.length = builder.replayOpen.length + 1 := by
  obtain ⟨hgrown, hsame⟩ := h.push id default
  have hlength := h.replayOpen.length_le
  rw [replayOp]
  refine ⟨⟨hgrown.seenIds, hgrown.replayOpen.trans (suffix_cons _ _), fun heq => ?_⟩, hsame, ?_⟩
  · obtain ⟨hstack, hall, hown⟩ := hgrown.kept heq
    refine ⟨hstack, hall, ?_⟩
    have hmem : id ∈ builder.seenIds := by
      by_contra hnot
      rw [A11yNodeBuilder.push, if_neg hnot] at heq
      exact ne_of_cons_suffix h.seenIds heq
    rw [A11yNodeBuilder.push, if_pos hmem] at hown ⊢
    dsimp only at hown ⊢
    rw [length_cons, Nat.sub_add_comm hlength, take_succ_cons]
    intro pushed hpushed
    rcases mem_cons.mp hpushed with rfl | hpushed
    · rfl
    · exact hown pushed hpushed
  · exact congrArg (·.length + 1) (push_replayOpen builder id default)

lemma Grown.replayPop (h : before.Grown builder) (nodes : List (A11yNode N)) (index : ℕ)
    (hopen : before.replayOpen.length < builder.replayOpen.length) :
    before.Grown (builder.replayOp nodes (.pop index)) ∧
      (before.Same (builder.replayOp nodes (.pop index)) ↔ before.Same builder) ∧
      (builder.replayOp nodes (.pop index)).replayOpen.length = builder.replayOpen.length - 1 := by
  rw [replayOp]
  cases hreplay : builder.replayOpen with
  | nil =>
    rw [hreplay] at hopen
    simp at hopen
  | cons pushed rest =>
    have hsuffix : before.replayOpen <:+ rest := by
      have hsuffix := h.replayOpen
      rw [hreplay] at hsuffix hopen
      rcases suffix_cons_iff.mp hsuffix with heq | hsuffix
      · rw [heq] at hopen
        simp at hopen
      · exact hsuffix
    have hown := fun heq => (h.kept heq).2.2
    have hle := hsuffix.length_le
    rw [hreplay, length_cons, Nat.sub_add_comm hle, take_succ_cons] at hown
    cases pushed with
    | false =>
      refine ⟨⟨h.seenIds, hsuffix, fun heq => ?_⟩, Iff.rfl, rfl⟩
      obtain ⟨hstack, hall, -⟩ := h.kept heq
      exact ⟨hstack, hall, fun pushed hpushed => hown heq pushed (mem_cons_of_mem _ hpushed)⟩
    | true =>
      have hseen : builder.seenIds ≠ before.seenIds := by
        intro heq
        exact absurd (hown heq true mem_cons_self) nofun
      have hpop := pop_ids ({ builder with replayOpen := rest }.become nodes[index]?)
      have hbecome := become_ids { builder with replayOpen := rest } nodes[index]?
      have hids := hpop.1.trans hbecome.1
      have hrest := hpop.2.trans hbecome.2
      dsimp only at hids hrest ⊢
      refine ⟨⟨by rw [hids]; exact h.seenIds, by rw [hrest]; exact hsuffix, fun heq => ?_⟩, ?_, ?_⟩
      · exact absurd (hids.symm.trans heq) hseen
      · refine iff_of_false (fun hsame => hseen ?_) fun hsame => hseen hsame.2.2
        exact hids.symm.trans hsame.2.2
      · exact congrArg List.length hrest

lemma Grown.replay (h : before.Grown builder) (nodes : List (A11yNode N)) (ops : List A11yOp)
    (hbalanced : ReplaysBalanced (builder.replayOpen.length - before.replayOpen.length) ops) :
    before.Grown (ops.foldl (replayOp nodes) builder) ∧
      (before.Same (ops.foldl (replayOp nodes) builder) ↔
        before.Same builder ∧ ∀ op ∈ ops, ReplaysSeen nodes before op) := by
  induction ops generalizing builder with
  | nil => simp [h]
  | cons op ops ih =>
    have hle := h.replayOpen.length_le
    rw [foldl_cons, forall_mem_cons]
    cases op with
    | push id =>
      obtain ⟨hgrown, hsame, hlength⟩ := h.replayPush nodes id
      obtain ⟨hfinal, hiff⟩ := ih hgrown (by
        rw [hlength, Nat.sub_add_comm hle]
        exact hbalanced)
      rw [hiff, hsame, and_assoc]
      exact ⟨hfinal, Iff.rfl⟩
    | leaf index =>
      rw [replayOp]
      cases hnode : nodes[index]? with
      | none =>
        obtain ⟨hfinal, hiff⟩ := ih h hbalanced
        simp [hiff, hfinal, ReplaysSeen, hnode]
      | some node =>
        obtain ⟨hgrown, hsame⟩ := h.pushLeaf node
        have hreplay : (builder.pushLeaf node).replayOpen = builder.replayOpen := by
          rw [A11yNodeBuilder.pushLeaf]
          split
          · rfl
          · exact (seenIds_log _ _).2.2.2
        obtain ⟨hfinal, hiff⟩ := ih hgrown (by rw [hreplay]; exact hbalanced)
        refine ⟨hfinal, hiff.trans ?_⟩
        rw [hsame, and_assoc]
        simp [ReplaysSeen, hnode]
    | pop index =>
      obtain ⟨hopen, hbalanced⟩ := hbalanced
      obtain ⟨hgrown, hsame, hlength⟩ := h.replayPop nodes index (by omega)
      obtain ⟨hfinal, hiff⟩ := ih hgrown (by
        rw [hlength, Nat.sub_right_comm]
        exact hbalanced)
      rw [hiff, hsame]
      simp [hfinal, ReplaysSeen]

end A11yNodeBuilder

namespace PrepaintWindow

variable {V N C L : Type*}

/-- A second attempt finds what the first one found: the arrays of the frame being drawn, its
dispatch tree, its focus and its records, the accessibility nodes, and what the last frame offers
to be drawn again. -/
structure LeavesNoTrace (before after : PrepaintWindow V N C L) : Prop where
  hitboxes : after.nextFrame.hitboxes = before.nextFrame.hitboxes
  tooltipRequests : after.nextFrame.tooltipRequests = before.nextFrame.tooltipRequests
  deferredDraws : after.nextFrame.deferredDraws = before.nextFrame.deferredDraws
  accessedElementStates :
    after.nextFrame.accessedElementStates = before.nextFrame.accessedElementStates
  lines : after.lines = before.lines
  wrappedLines : after.wrappedLines = before.wrappedLines
  tree : after.nextFrame.dispatchTree.nodes = before.nextFrame.dispatchTree.nodes ∧
    (∀ key, after.nextFrame.dispatchTree.focusableNodeIds.get? key =
      before.nextFrame.dispatchTree.focusableNodeIds.get? key) ∧
    ∀ key, after.nextFrame.dispatchTree.viewNodeIds.get? key =
      before.nextFrame.dispatchTree.viewNodeIds.get? key
  focus : after.nextFrame.focus = before.nextFrame.focus
  records : after.nextFrame.records = before.nextFrame.records
  a11y : before.a11y.Same after.a11y
  offeredTooltips :
    after.renderedFrame.tooltipRequests = before.renderedFrame.tooltipRequests
  offeredNodes :
    after.renderedFrame.dispatchTree.nodes = before.renderedFrame.dispatchTree.nodes

/-- What holds of a window while a prepaint that began at `before` runs. -/
structure Grown (before window : PrepaintWindow V N C L) : Prop where
  hitboxes : before.nextFrame.hitboxes <+: window.nextFrame.hitboxes
  tooltipRequests : before.nextFrame.tooltipRequests <+: window.nextFrame.tooltipRequests
  deferredDraws : before.nextFrame.deferredDraws <+: window.nextFrame.deferredDraws
  accessedElementStates :
    before.nextFrame.accessedElementStates <+: window.nextFrame.accessedElementStates
  lines : before.lines <+: window.lines
  wrappedLines : before.wrappedLines <+: window.wrappedLines
  tree : before.nextFrame.dispatchTree.Grown window.nextFrame.dispatchTree
  windowFocus : window.focus = before.focus
  focus : window.nextFrame.focus = before.nextFrame.focus ∨
    window.nextFrame.focus = before.focus
  records_length : before.nextFrame.records.length ≤ window.nextFrame.records.length
  records : window.nextFrame.records.length = before.nextFrame.records.length →
    window.nextFrame.records = before.nextFrame.records
  a11y : before.a11y.Grown window.a11y
  replays : window.a11yReplays = before.a11yReplays ∧ window.previousOps = before.previousOps ∧
    window.previousNodes = before.previousNodes
  offeredTooltips : ∀ index : ℕ, window.renderedFrame.tooltipRequests[index]? =
      before.renderedFrame.tooltipRequests[index]? ∨
    window.renderedFrame.tooltipRequests[index]? = some none ∧
      before.renderedFrame.tooltipRequests[index]? ≠ none
  offeredNodes : ∀ index : ℕ, window.renderedFrame.dispatchTree.nodes[index]? =
      before.renderedFrame.dispatchTree.nodes[index]? ∨
    window.renderedFrame.dispatchTree.nodes[index]? =
      before.renderedFrame.dispatchTree.nodes[index]?.map DispatchTree.DispatchNode.taken

structure Restorable (before window : PrepaintWindow V N C L) : Prop where
  nodes : ∀ node ∈ window.nextFrame.dispatchTree.nodes.drop
      before.nextFrame.dispatchTree.nodes.length, before.nextFrame.dispatchTree.Unknown node
  focus : window.nextFrame.focus = before.nextFrame.focus
  records : window.nextFrame.records = before.nextFrame.records
  a11y : before.a11y.Same window.a11y
  offeredTooltips :
    window.renderedFrame.tooltipRequests = before.renderedFrame.tooltipRequests
  offeredNodes :
    window.renderedFrame.dispatchTree.nodes = before.renderedFrame.dispatchTree.nodes

variable {before window : PrepaintWindow V N C L}

lemma Grown.refl (window : PrepaintWindow V N C L) : window.Grown window where
  hitboxes := prefix_rfl
  tooltipRequests := prefix_rfl
  deferredDraws := prefix_rfl
  accessedElementStates := prefix_rfl
  lines := prefix_rfl
  wrappedLines := prefix_rfl
  tree := .refl _
  windowFocus := rfl
  focus := .inl rfl
  records_length := le_rfl
  records := fun _ => rfl
  a11y := .refl _
  replays := ⟨rfl, rfl, rfl⟩
  offeredTooltips := fun _ => .inl rfl
  offeredNodes := fun _ => .inl rfl

lemma Restorable.refl (window : PrepaintWindow V N C L) : window.Restorable window :=
  ⟨by simp, rfl, rfl, ⟨rfl, rfl, rfl⟩, rfl, rfl⟩

lemma Grown.leavesNoTrace_iff (h : before.Grown window) :
    before.LeavesNoTrace (window.truncateTo before.prepaintIndex) ↔ before.Restorable window := by
  constructor
  · intro hno
    exact ⟨h.tree.truncate_iff.mp hno.tree, hno.focus, hno.records, hno.a11y, hno.offeredTooltips,
      hno.offeredNodes⟩
  · intro hres
    exact ⟨(prefix_iff_eq_take.mp h.hitboxes).symm,
      (prefix_iff_eq_take.mp h.tooltipRequests).symm,
      (prefix_iff_eq_take.mp h.deferredDraws).symm,
      (prefix_iff_eq_take.mp h.accessedElementStates).symm,
      (prefix_iff_eq_take.mp h.lines).symm, (prefix_iff_eq_take.mp h.wrappedLines).symm,
      h.tree.truncate_iff.mpr hres.nodes, hres.focus, hres.records, hres.a11y,
      hres.offeredTooltips, hres.offeredNodes⟩

end PrepaintWindow

end GpuiFast
