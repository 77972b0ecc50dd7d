import GpuiFast.DispatchCopy

namespace GpuiFast.DispatchTree

open List

variable {C L : Type*}

inductive BuildOp (C L : Type*) where
  | pushNode
  | popNode
  | setKeyContext (context : C)
  | setFocusId (focusId : FocusId)
  | setViewId (viewId : EntityId)
  | onKeyEvent (listener : L)
  | onModifiersChanged (listener : L)
  | onAction (listener : L)

def build (t : DispatchTree C L) : BuildOp C L → DispatchTree C L
  | .pushNode => t.pushNode
  | .popNode => t.popNode
  | .setKeyContext context => t.setKeyContext context
  | .setFocusId focusId => t.setFocusId focusId
  | .setViewId viewId => t.setViewId viewId
  | .onKeyEvent listener => t.onKeyEvent listener
  | .onModifiersChanged listener => t.onModifiersChanged listener
  | .onAction listener => t.onAction listener

/-- From `depth` nodes of their own, the operations close every node they open and no other, and
name a node's context and view at most once. -/
def Builds : (depth : ℕ) → DispatchTree C L → List (BuildOp C L) → Prop
  | depth, _, [] => depth = 0
  | depth, t, .pushNode :: ops => Builds (depth + 1) t.pushNode ops
  | 0, _, .popNode :: _ => False
  | depth + 1, t, .popNode :: ops => Builds depth t.popNode ops
  | depth, t, .setKeyContext context :: ops =>
    t.nodeStack.head?.bind (contextOf t.nodes) = none ∧ Builds depth (t.setKeyContext context) ops
  | depth, t, .setViewId viewId :: ops =>
    t.nodeStack.head?.bind (viewOf t.nodes) = none ∧ Builds depth (t.setViewId viewId) ops
  | depth, t, .setFocusId focusId :: ops => Builds depth (t.setFocusId focusId) ops
  | depth, t, .onKeyEvent listener :: ops => Builds depth (t.onKeyEvent listener) ops
  | depth, t, .onModifiersChanged listener :: ops => Builds depth (t.onModifiersChanged listener) ops
  | depth, t, .onAction listener :: ops => Builds depth (t.onAction listener) ops

variable {nodes : List (DispatchNode C L)} {stack : List ℕ} {t : DispatchTree C L}

variable {f : DispatchNode C L → DispatchNode C L} {id : ℕ} {below : List ℕ}

lemma IsPath.modify (h : IsPath nodes stack) (id : ℕ) (hf : ∀ node, (f node).parent = node.parent) :
    IsPath (nodes.modify id f) stack := by
  induction h with
  | nil => exact .nil
  | @cons j node below here up older _ ih =>
    by_cases hj : id = j
    · have here' : (nodes.modify id f)[j]? = some (f node) := by
        simp [here, hj]
      exact .cons here' ((hf node).trans up) older ih
    · have here' : (nodes.modify id f)[j]? = some node := by
        simp [here, hj]
      exact .cons here' up older ih

lemma IsPath.lt_head (h : IsPath nodes (id :: stack)) {j : ℕ} (hj : j ∈ stack) : j < id := by
  induction stack generalizing id with
  | nil => simp at hj
  | cons p below ih =>
    cases h with
    | cons _ _ older rest =>
      have hp : p < id := older p rfl
      rcases mem_cons.mp hj with rfl | hj
      · exact hp
      · exact (ih rest hj).trans hp

lemma filterMap_modify_head {β : Type*} {node : DispatchNode C L} (h : IsPath nodes (id :: below))
    (hn : nodes[id]? = some node) (f : DispatchNode C L → DispatchNode C L)
    (g : DispatchNode C L → Option β) :
    (id :: below).filterMap (fun j => (nodes.modify id f)[j]?.bind g) =
      (g (f node)).toList ++ below.filterMap (fun j => nodes[j]?.bind g) := by
  have hbelow : below.filterMap (fun j => (nodes.modify id f)[j]?.bind g) =
      below.filterMap (fun j => nodes[j]?.bind g) := by
    refine filterMap_congr (fun j hj => ?_)
    simp [(h.lt_head hj).ne']
  have hhere : (nodes.modify id f)[id]?.bind g = g (f node) := by
    simp [hn]
  rw [← toList_append_filterMap, hbelow, hhere]

lemma Inv.write (h : t.Inv) (hs : t.nodeStack = id :: below) :
    ∃ node, t.nodes[id]? = some node ∧
      t.contextStack = node.context.toList ++ below.filterMap (contextOf t.nodes) ∧
      t.viewStack = node.viewId.toList ++ below.filterMap (viewOf t.nodes) ∧
      ∀ (f : DispatchNode C L → DispatchNode C L) (t' : DispatchTree C L),
        (∀ node, (f node).parent = node.parent) → t'.nodes = t.nodes.modify id f →
        t'.nodeStack = id :: below →
        t'.contextStack = (f node).context.toList ++ below.filterMap (contextOf t.nodes) →
        t'.viewStack = (f node).viewId.toList ++ below.filterMap (viewOf t.nodes) → t'.Inv := by
  have hpath := h.path
  rw [hs] at hpath
  obtain ⟨node, hnode⟩ : ∃ node, t.nodes[id]? = some node :=
    ⟨_, getElem?_eq_getElem (hpath.lt_length mem_cons_self)⟩
  refine ⟨node, hnode, ?_, ?_, ?_⟩
  · rw [h.contexts, hs, ← toList_append_filterMap, contextOf, hnode, Option.bind_some]
  · rw [h.views, hs, ← toList_append_filterMap, viewOf, hnode, Option.bind_some]
  · intro f t' hf hn' hs' hc' hv'
    refine Inv.of_stacks ?_ ?_ ?_
    · rw [hn', hs']
      exact hpath.modify id hf
    · rw [hs', hn', hc']
      exact (filterMap_modify_head hpath hnode f (·.context)).symm
    · rw [hs', hn', hv']
      exact (filterMap_modify_head hpath hnode f (·.viewId)).symm

lemma Inv.pushNode (h : t.Inv) : t.pushNode.Inv := by
  have hpath := IsPath.place h.path ⟨[], [], [], none, none, none, t.nodeStack.head?⟩ none
  have hplace := restack_place h.path ⟨[], [], [], none, none, none, t.nodeStack.head?⟩
    t.nodeStack.head? none
  have heq : t.pushNode = (t.place ⟨[], [], [], none, none, none, t.nodeStack.head?⟩
      t.nodeStack.head? none).restack (t.nodes.length :: t.nodeStack) := by
    rw [hplace]
    simp [DispatchTree.pushNode, place, h.contexts, h.views]
  rw [heq]
  exact .restack hpath

lemma Inv.popNode (h : t.Inv) : t.popNode.Inv ∧ t.popNode.nodeStack = t.nodeStack.tail := by
  cases hs : t.nodeStack with
  | nil =>
    have heq : t.popNode = t := by simp [DispatchTree.popNode, hs]
    rw [heq]
    exact ⟨h, hs⟩
  | cons id below =>
    have heq : t.popNode = t.restack below := by
      rw [← popNode_restack t id below, ← hs, ← h.stacked]
    have hp := h.path.drop 1
    rw [hs] at hp
    rw [heq]
    exact ⟨.restack hp, rfl⟩

lemma Inv.setKeyContext (h : t.Inv) (hn : t.nodeStack.head?.bind (contextOf t.nodes) = none)
    (context : C) :
    (t.setKeyContext context).Inv ∧ (t.setKeyContext context).nodeStack = t.nodeStack := by
  cases hs : t.nodeStack with
  | nil => exact ⟨by simpa [DispatchTree.setKeyContext, hs] using h, by simp [DispatchTree.setKeyContext, hs]⟩
  | cons id below =>
    obtain ⟨node, hnode, hc, hv, hw⟩ := h.write hs
    have hnone : node.context = none := by simpa [hs, contextOf, hnode] using hn
    rw [hnone] at hc
    refine ⟨hw (fun node => { node with context := some context }) _ (fun _ => rfl) ?_ ?_ ?_ ?_, ?_⟩
    all_goals simp [DispatchTree.setKeyContext, hs, modifyNode, hc, hv]

lemma Inv.setViewId (h : t.Inv) (hn : t.nodeStack.head?.bind (viewOf t.nodes) = none)
    (viewId : EntityId) :
    (t.setViewId viewId).Inv ∧ (t.setViewId viewId).nodeStack = t.nodeStack := by
  by_cases hview : t.viewStack.head? = some viewId
  · have heq : t.setViewId viewId = t := by simp [DispatchTree.setViewId, hview]
    rw [heq]
    exact ⟨h, rfl⟩
  · cases hs : t.nodeStack with
    | nil =>
      have heq : t.setViewId viewId = t := by simp [DispatchTree.setViewId, hs]
      rw [heq]
      exact ⟨h, hs⟩
    | cons id below =>
      obtain ⟨node, hnode, hc, hv, hw⟩ := h.write hs
      have hnone : node.viewId = none := by simpa [hs, viewOf, hnode] using hn
      have heq : t.setViewId viewId = { t.modifyNode id (fun node =>
          { node with viewId := some viewId }) with
          viewNodeIds := t.viewNodeIds.insert viewId id, viewStack := viewId :: t.viewStack } := by
        simp only [DispatchTree.setViewId, ne_eq, hview, not_false_eq_true, if_true, hs]
        rfl
      rw [hnone] at hv
      rw [heq]
      refine ⟨hw (fun node => { node with viewId := some viewId }) _ (fun _ => rfl) rfl hs hc ?_, hs⟩
      rw [hv]
      rfl

def Silent (f : DispatchNode C L → DispatchNode C L) : Prop :=
  ∀ node, (f node).parent = node.parent ∧ (f node).context = node.context ∧
    (f node).viewId = node.viewId

lemma Inv.silent (h : t.Inv) (hs : t.nodeStack = id :: below) (hf : Silent f)
    {t' : DispatchTree C L} (hn' : t'.nodes = t.nodes.modify id f)
    (hs' : t'.nodeStack = t.nodeStack) (hc' : t'.contextStack = t.contextStack)
    (hv' : t'.viewStack = t.viewStack) : t'.Inv := by
  obtain ⟨node, hnode, hct, hvt, hw⟩ := h.write hs
  refine hw f t' (fun node => (hf node).1) hn' (hs'.trans hs) ?_ ?_
  · rw [(hf node).2.1, hc', hct]
  · rw [(hf node).2.2, hv', hvt]

lemma Inv.setFocusId (h : t.Inv) (focusId : FocusId) :
    (t.setFocusId focusId).Inv ∧ (t.setFocusId focusId).nodeStack = t.nodeStack := by
  have hf : Silent (fun node : DispatchNode C L => { node with focusId := some focusId }) :=
    fun _ => ⟨rfl, rfl, rfl⟩
  cases hs : t.nodeStack with
  | nil =>
    have heq : t.setFocusId focusId = t := by simp [DispatchTree.setFocusId, hs]
    rw [heq]
    exact ⟨h, hs⟩
  | cons id below =>
    have heq : t.setFocusId focusId = { t.modifyNode id (fun node =>
        { node with focusId := some focusId }) with
        focusableNodeIds := t.focusableNodeIds.insert focusId id } := by
      simp only [DispatchTree.setFocusId, hs]
      rfl
    rw [heq]
    exact ⟨h.silent hs hf rfl rfl rfl rfl, hs⟩

lemma Inv.modifyActive (h : t.Inv) (hf : Silent f) :
    (t.modifyActive f).Inv ∧ (t.modifyActive f).nodeStack = t.nodeStack := by
  cases hs : t.nodeStack with
  | nil =>
    have heq : t.modifyActive f = t := by simp [DispatchTree.modifyActive, hs]
    rw [heq]
    exact ⟨h, hs⟩
  | cons id below =>
    have heq : t.modifyActive f = t.modifyNode id f := by simp [DispatchTree.modifyActive, hs]
    rw [heq]
    exact ⟨h.silent hs hf rfl rfl rfl rfl, hs⟩

lemma Inv.builds (h : t.Inv) {depth : ℕ} {ops : List (BuildOp C L)} (hb : Builds depth t ops) :
    (ops.foldl build t).Inv ∧ (ops.foldl build t).nodeStack = t.nodeStack.drop depth := by
  induction ops generalizing t depth with
  | nil =>
    obtain rfl : depth = 0 := hb
    exact ⟨h, rfl⟩
  | cons op ops ih =>
    rw [foldl_cons]
    cases op with
    | pushNode => exact ih h.pushNode hb
    | popNode =>
      cases depth with
      | zero => exact absurd hb (by simp [Builds])
      | succ depth =>
        obtain ⟨hi, hs⟩ := h.popNode
        obtain ⟨hi', hs'⟩ := ih hi hb
        refine ⟨hi', hs'.trans ?_⟩
        rw [hs, drop_tail]
    | setKeyContext context =>
      obtain ⟨hi, hs⟩ := h.setKeyContext hb.1 context
      exact hs ▸ ih hi hb.2
    | setFocusId focusId =>
      obtain ⟨hi, hs⟩ := h.setFocusId focusId
      exact hs ▸ ih hi hb
    | setViewId viewId =>
      obtain ⟨hi, hs⟩ := h.setViewId hb.1 viewId
      exact hs ▸ ih hi hb.2
    | onKeyEvent listener =>
      obtain ⟨hi, hs⟩ : (t.onKeyEvent listener).Inv ∧ (t.onKeyEvent listener).nodeStack = t.nodeStack :=
        h.modifyActive (fun _ => ⟨rfl, rfl, rfl⟩)
      exact hs ▸ ih hi hb
    | onModifiersChanged listener =>
      obtain ⟨hi, hs⟩ : (t.onModifiersChanged listener).Inv ∧ (t.onModifiersChanged listener).nodeStack = t.nodeStack :=
        h.modifyActive (fun _ => ⟨rfl, rfl, rfl⟩)
      exact hs ▸ ih hi hb
    | onAction listener =>
      obtain ⟨hi, hs⟩ : (t.onAction listener).Inv ∧ (t.onAction listener).nodeStack = t.nodeStack :=
        h.modifyActive (fun _ => ⟨rfl, rfl, rfl⟩)
      exact hs ▸ ih hi hb

structure OpenDispatchCopy (C L : Type*) where
  target : DispatchTree C L
  source : DispatchTree C L
  openNodes : List ℕ
  stretches : List ((ℕ × ℕ) × ℕ)
  containsFocus : List Bool

inductive CopyOp (C L : Type*) where
  | copy (lo hi : ℕ)
  | unwindTo (parent : Option ℕ)
  | build (ops : List (BuildOp C L))

namespace OpenDispatchCopy

/-- One step of a splice that copies its stretches by `copyStretch`. -/
def step (copyStretch : DispatchTree C L → DispatchTree C L → ℕ → ℕ → List ℕ → Copied C L)
    (s : OpenDispatchCopy C L) : CopyOp C L → OpenDispatchCopy C L
  | .copy lo hi =>
    let copied := copyStretch s.target s.source lo hi s.openNodes
    { target := copied.target
      source := copied.source
      openNodes := copied.openNodes
      stretches := s.stretches ++ [((lo, hi), s.target.nodes.length)]
      containsFocus := s.containsFocus ++ [copied.containsFocus] }
  | .unwindTo parent =>
    { s with
      target := (unwindTo parent s.openNodes s.target).2
      openNodes := (unwindTo parent s.openNodes s.target).1 }
  | .build ops => { s with target := ops.foldl DispatchTree.build s.target }

def inOnePass (focus : Option FocusId) (s : OpenDispatchCopy C L) (op : CopyOp C L) :
    OpenDispatchCopy C L :=
  s.step (fun target source lo hi openNodes =>
    copyNodes target source lo hi (some openNodes) focus) op

def oneByOne (focus : Option FocusId) (s : OpenDispatchCopy C L) (op : CopyOp C L) :
    OpenDispatchCopy C L :=
  s.step (fun target source lo hi openNodes =>
    copyOneByOne target source lo hi openNodes focus) op

/-- The stretches lie in the subtree from `lo` up to `hi`, and what is built between them is
balanced. -/
def Allowed (lo hi : ℕ) (focus : Option FocusId) : OpenDispatchCopy C L → List (CopyOp C L) → Prop
  | _, [] => True
  | s, .copy lo' hi' :: ops =>
    (lo ≤ lo' ∧ lo' ≤ hi' ∧ hi' ≤ hi) ∧ Allowed lo hi focus (s.oneByOne focus (.copy lo' hi')) ops
  | s, .unwindTo parent :: ops => Allowed lo hi focus (s.oneByOne focus (.unwindTo parent)) ops
  | s, .build build :: ops =>
    Builds 0 s.target build ∧ Allowed lo hi focus (s.oneByOne focus (.build build)) ops

structure Inv (source : DispatchTree C L) (s : OpenDispatchCopy C L) : Prop where
  target : s.target.Inv
  below : s.openNodes.length ≤ s.target.nodeStack.length
  parents : parentOf s.source.nodes = parentOf source.nodes
  length : s.source.nodes.length = source.nodes.length

end OpenDispatchCopy

lemma InOrder.mono {source : DispatchTree C L} {lo hi lo' hi' : ℕ} (h : source.InOrder lo hi)
    (hlo : lo ≤ lo') (hhi : hi' ≤ hi) : source.InOrder lo' hi' :=
  fun i hi₁ hi₂ p hp hle => h i (hlo.trans_lt hi₁) (hi₂.trans_le hhi) p hp (hlo.trans hle)

namespace OpenDispatchCopy

variable {source : DispatchTree C L} {lo hi : ℕ} {s : OpenDispatchCopy C L}

lemma Inv.unwindTo (h : s.Inv source) (parent : Option ℕ) (focus : Option FocusId) :
    (s.oneByOne focus (.unwindTo parent)).Inv source := by
  have heq := unwindTo_restack s.target parent s.openNodes s.target.nodeStack h.below
  rw [← h.target.stacked] at heq
  simp only [oneByOne, step, heq]
  refine ⟨.restack (h.target.path.drop _), ?_, h.parents, h.length⟩
  have := h.below
  simp only [restack_nodeStack, length_drop]
  omega

lemma Inv.build (h : s.Inv source) {ops : List (BuildOp C L)} (hb : Builds 0 s.target ops)
    (focus : Option FocusId) : (s.oneByOne focus (.build ops)).Inv source := by
  obtain ⟨hi, hs⟩ := h.target.builds hb
  exact ⟨hi, by simpa only [oneByOne, step, hs, drop_zero] using h.below, h.parents, h.length⟩

lemma Inv.copy (h : s.Inv source) (hb : source.ParentsBefore) (ho : source.InOrder lo hi)
    (hle : lo ≤ hi) (hlen : hi ≤ source.nodes.length) (focus : Option FocusId) :
    s.inOnePass focus (.copy lo hi) = s.oneByOne focus (.copy lo hi) ∧
      (s.oneByOne focus (.copy lo hi)).Inv source := by
  have hb' : s.source.ParentsBefore := by
    simpa only [ParentsBefore, h.parents] using hb
  have ho' : s.source.InOrder lo hi := by
    simpa only [InOrder, h.parents] using ho
  have hlen' : hi ≤ s.source.nodes.length := by rw [h.length]; exact hlen
  constructor
  · simp only [inOnePass, oneByOne, step, copyNodes_some h.target h.below hb' ho' hle hlen' focus]
  · obtain ⟨chain, hm⟩ := matches_stretch h.target h.below hb' ho' hlen' focus (hi - lo) (by omega)
    refine ⟨?_, ?_, ?_, ?_⟩
    all_goals simp only [oneByOne, step, copyOneByOne]
    · rw [hm.target_eq]
      exact .restack hm.path
    · rw [hm.target_eq, hm.openNodes_eq]
      have := h.below
      simp only [restack_nodeStack, openStack, length_append, length_drop, length_map]
      omega
    · rw [hm.source_eq, hm.parents, h.parents]
    · rw [hm.source_eq, hm.source_length, h.length]

lemma Inv.run (h : s.Inv source) (hb : source.ParentsBefore) (ho : source.InOrder lo hi)
    (hlen : hi ≤ source.nodes.length) (focus : Option FocusId) (ops : List (CopyOp C L))
    (ha : Allowed lo hi focus s ops) :
    ops.foldl (inOnePass focus) s = ops.foldl (oneByOne focus) s := by
  induction ops generalizing s with
  | nil => rfl
  | cons op ops ih =>
    rw [foldl_cons, foldl_cons]
    cases op with
    | copy lo' hi' =>
      obtain ⟨⟨hlo, hle, hhi⟩, ha⟩ := ha
      obtain ⟨heq, hi'⟩ := h.copy hb (ho.mono hlo hhi) hle (hhi.trans hlen) focus
      rw [heq]
      exact ih hi' ha
    | unwindTo parent => exact ih (h.unwindTo parent focus) ha
    | build ops' => exact ih (h.build ha.1 focus) ha.2

end OpenDispatchCopy

/-- For nodes that lie as pushing and popping lays them out, copying a subtree in one pass, closed
again or stretch by stretch with the copy left open, leaves the same trees, open nodes and answers
about the focus as copying it one by one. -/
theorem copyNodes_eq_oneByOne (source target : DispatchTree C L) (lo hi : ℕ)
    (focus : Option FocusId) (hb : source.ParentsBefore) (ho : source.InOrder lo hi)
    (hle : lo ≤ hi) (hlen : hi ≤ source.nodes.length) (ht : target.Inv) :
    copyNodes target source lo hi none focus = copyOneByOneClosed target source lo hi focus ∧
      ∀ ops : List (CopyOp C L),
        OpenDispatchCopy.Allowed lo hi focus ⟨target, source, [], [], []⟩ ops →
        ops.foldl (OpenDispatchCopy.inOnePass focus) ⟨target, source, [], [], []⟩ =
          ops.foldl (OpenDispatchCopy.oneByOne focus) ⟨target, source, [], [], []⟩ := by
  refine ⟨copyNodes_none ht hb ho hle hlen focus, fun ops ha => ?_⟩
  have hinv : (⟨target, source, [], [], []⟩ : OpenDispatchCopy C L).Inv source :=
    ⟨ht, Nat.zero_le _, rfl, rfl⟩
  exact hinv.run hb ho hlen focus ops ha

lemma inv_new : (new : DispatchTree C L).Inv := ⟨.nil, rfl⟩

def twoChildren : DispatchTree Unit Unit :=
  new.pushNode.pushNode.popNode.pushNode

theorem copyNodes_eq_oneByOne_twoChildren :
    OpenDispatchCopy.Allowed 0 3 none ⟨new.pushNode, twoChildren, [], [], []⟩
      [.copy 0 1, .unwindTo (some 0), .build [.pushNode, .setKeyContext (), .popNode], .copy 2 3] ∧
    [.copy 0 1, .unwindTo (some 0), .build [.pushNode, .setKeyContext (), .popNode],
        .copy 2 3].foldl (OpenDispatchCopy.inOnePass none) ⟨new.pushNode, twoChildren, [], [], []⟩ =
      [.copy 0 1, .unwindTo (some 0), .build [.pushNode, .setKeyContext (), .popNode],
        .copy 2 3].foldl
        (OpenDispatchCopy.oneByOne none) ⟨new.pushNode, twoChildren, [], [], []⟩ := by
  have hparents : ∀ id p, parentOf twoChildren.nodes id = some p → p = 0 ∧ (id = 1 ∨ id = 2) := by
    intro id p h
    match id with
    | 0 => cases h
    | 1 => exact ⟨(Option.some.inj h).symm, .inl rfl⟩
    | 2 => exact ⟨(Option.some.inj h).symm, .inr rfl⟩
    | n + 3 => cases h
  have hb : twoChildren.ParentsBefore := by
    intro id p h
    have := hparents id p h
    omega
  have ho : twoChildren.InOrder 0 3 := by
    intro i hi _ p hp _
    obtain ⟨rfl, rfl | rfl⟩ := hparents i p hp
    · exact .refl
    · exact .single rfl
  have ha : OpenDispatchCopy.Allowed 0 3 none ⟨new.pushNode, twoChildren, [], [], []⟩
      [.copy 0 1, .unwindTo (some 0), .build [.pushNode, .setKeyContext (), .popNode],
        .copy 2 3] := by
    refine ⟨by decide, ⟨rfl, rfl⟩, by decide, trivial⟩
  exact ⟨ha, (copyNodes_eq_oneByOne twoChildren new.pushNode 0 3 none hb ho (by decide) (by decide)
    inv_new.pushNode).2 _ ha⟩

/-- A node made active again after its sibling was pushed, as a deferred draw makes it: the node
pushed then hangs off a node that copying one by one has closed. -/
def reopenedSibling : DispatchTree Unit Unit :=
  (new.pushNode.pushNode.popNode.pushNode.setActiveNode 1).pushNode

theorem copyNodes_ne_oneByOne_reopenedSibling :
    reopenedSibling.ParentsBefore ∧ (new.pushNode : DispatchTree Unit Unit).Inv ∧
      (∀ i, i < reopenedSibling.nodes.length →
        Relation.ReflTransGen (fun n q => parentOf reopenedSibling.nodes n = some q) i 0) ∧
      copyNodes new.pushNode reopenedSibling 0 4 none none ≠
        copyOneByOneClosed new.pushNode reopenedSibling 0 4 none := by
  refine ⟨?_, inv_new.pushNode, ?_, ?_⟩
  · intro id p h
    match id with
    | 0 => cases h
    | 1 => cases h; decide
    | 2 => cases h; decide
    | 3 => cases h; decide
    | n + 4 => cases h
  · intro i hi
    match i with
    | 0 => exact .refl
    | 1 => exact .single rfl
    | 2 => exact .single rfl
    | 3 => exact .head (b := 1) rfl (.single rfl)
    | n + 4 =>
      have hlen : reopenedSibling.nodes.length = 4 := rfl
      omega
  · intro h
    exact absurd (congrArg (fun c => c.target.nodes.map (·.parent)) h) (by decide)

end GpuiFast.DispatchTree
