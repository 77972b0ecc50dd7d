import GpuiFast.DispatchStacks

/-! The copy in one pass and the node-by-node copy are run side by side: after each node the open
nodes of the second are the stretch's own chain of ancestors on top of what is left of the nodes
that were open before, and this is what the first brings the stacks to at its end. -/

namespace GpuiFast.DispatchTree

open List Option

variable {C L : Type*}

def ParentsBefore (t : DispatchTree C L) : Prop :=
  ∀ id p, parentOf t.nodes id = some p → p < id

/-- The nodes from `lo` up to `hi` lie as pushing and popping lays them out: each hangs off the
node before it, off an ancestor of that node, or off a node outside. -/
def InOrder (t : DispatchTree C L) (lo hi : ℕ) : Prop :=
  ∀ i, lo < i → i < hi → ∀ p, parentOf t.nodes i = some p → lo ≤ p →
    Relation.ReflTransGen (fun n q => parentOf t.nodes n = some q) (i - 1) p

/-- A chain of ancestors within the stretch that starts at `lo`, innermost first. -/
inductive IsStretch (parent : ℕ → Option ℕ) (lo : ℕ) : List ℕ → Prop
  | nil : IsStretch parent lo []
  | root {i : ℕ} (inside : lo ≤ i) (out : ∀ p, parent i = some p → p < lo) : IsStretch parent lo [i]
  | cons {i p : ℕ} {rest : List ℕ} (inside : lo ≤ i) (up : parent i = some p)
      (older : IsStretch parent lo (p :: rest)) : IsStretch parent lo (i :: p :: rest)

variable {parent : ℕ → Option ℕ} {i p hi : ℕ}

lemma IsStretch.inside {lo : ℕ} {chain : List ℕ} (h : IsStretch parent lo chain) (hi : i ∈ chain) :
    lo ≤ i := by
  induction h with
  | nil => simp at hi
  | root inside _ => rwa [mem_singleton.mp hi]
  | cons inside _ _ ih =>
    rcases mem_cons.mp hi with rfl | hi
    · exact inside
    · exact ih hi

lemma IsStretch.parent_mem {lo : ℕ} {chain : List ℕ} (h : IsStretch parent lo chain)
    (hi : i ∈ chain) (hp : parent i = some p) (hlo : lo ≤ p) : p ∈ chain := by
  induction h with
  | nil => simp at hi
  | root _ out =>
    rw [mem_singleton.mp hi] at hp
    exact absurd (out p hp) (Nat.not_lt.mpr hlo)
  | cons _ up _ ih =>
    rcases mem_cons.mp hi with rfl | hi
    · have hpp := some.inj (up.symm.trans hp)
      simp [hpp]
    · exact mem_cons_of_mem _ (ih hi)

lemma IsStretch.drop {lo : ℕ} {chain : List ℕ} (h : IsStretch parent lo chain) (n : ℕ) :
    IsStretch parent lo (chain.drop n) := by
  induction n generalizing chain with
  | zero => exact h
  | succ n ih =>
    cases h with
    | nil => exact .nil
    | root _ _ => simpa using IsStretch.nil
    | cons _ _ older => exact ih older

lemma IsStretch.reached_mem {t : DispatchTree C L} (hb : t.ParentsBefore) {lo : ℕ} {chain : List ℕ}
    (h : IsStretch (parentOf t.nodes) lo chain) (hi : i ∈ chain)
    (hr : Relation.ReflTransGen (fun n q => parentOf t.nodes n = some q) i p) (hlo : lo ≤ p) :
    p ∈ chain := by
  induction hr with
  | refl => exact hi
  | tail _ hq ih => exact h.parent_mem (ih (hlo.trans (hb _ _ hq).le)) hq hlo

lemma leftOpen_eq (openNodes : List ℕ) {stillOpen : ℕ} (h : stillOpen ≤ openNodes.length)
    (parent : Option ℕ) : leftOpen openNodes stillOpen parent = stillOpen -
      (openNodes.drop (openNodes.length - stillOpen)).findIdx (fun node => some node = parent) := by
  have hl : (openNodes.drop (openNodes.length - stillOpen)).length = stillOpen := by
    rw [length_drop]
    omega
  rw [leftOpen]
  cases hf : (openNodes.drop (openNodes.length - stillOpen)).findIdx?
    (fun node => some node = parent) with
  | some above => rw [(findIdx?_eq_some_iff_findIdx_eq.mp hf).2]
  | none =>
    rw [findIdx_eq_length.mpr (fun x hx => by simpa using findIdx?_eq_none_iff.mp hf x hx),
      hl, Nat.sub_self]

lemma drop_findIdx_of_mem {chain : List ℕ} (hp : p ∈ chain) (rest : List ℕ) :
    ∃ n below, (chain ++ rest).findIdx (fun node => some node = some p) = n ∧ n < chain.length ∧
      chain.drop n = p :: below := by
  have hlt : chain.findIdx (fun node => some node = some p) < chain.length :=
    findIdx_lt_length.mpr ⟨p, hp, by simp⟩
  refine ⟨_, chain.drop (chain.findIdx (fun node => some node = some p) + 1), ?_, hlt, ?_⟩
  · rw [findIdx_append, if_pos hlt]
  · have hget : chain[chain.findIdx (fun node => some node = some p)] = p := by
      simpa using findIdx_getElem (w := hlt)
    rw [← cons_getElem_drop_succ (h := hlt), hget]

lemma findIdx_append_of_forall_ne {chain : List ℕ} {parent : Option ℕ}
    (h : ∀ i ∈ chain, some i ≠ parent) (rest : List ℕ) :
    (chain ++ rest).findIdx (fun node => some node = parent) =
      chain.length + rest.findIdx (fun node => some node = parent) := by
  have hl : chain.findIdx (fun node => some node = parent) = chain.length :=
    findIdx_eq_length.mpr (fun i hi => by simpa using h i hi)
  rw [findIdx_append, hl, if_neg (lt_irrefl _), Nat.add_comm]

lemma parentOf_taken (nodes : List (DispatchNode C L)) (index : ℕ) :
    parentOf (nodes.modify index DispatchNode.taken) = parentOf nodes := by
  funext id
  simp only [parentOf, getElem?_modify]
  cases nodes[id]? with
  | none => rfl
  | some node => by_cases h : index = id <;> simp [h, DispatchNode.taken]

/-- The node stack of the copy one by one: the stretch's own chain, where it landed, on top of
what is left of the nodes open before. -/
def openStack (target : DispatchTree C L) (lo : ℕ) (openNodes : List ℕ) (stillOpen : ℕ)
    (chain : List ℕ) : List ℕ :=
  chain.map (fun i => i - lo + target.nodes.length) ++
    target.nodeStack.drop (openNodes.length - stillOpen)

/-- The two copies after the nodes from `lo` up to `next`. -/
structure Matches (target source : DispatchTree C L) (lo : ℕ) (openNodes : List ℕ) (next : ℕ)
    (fast : Copying C L) (slow : Copied C L) (chain : List ℕ) : Prop where
  stillOpen_le : fast.stillOpen ≤ openNodes.length
  target_eq : slow.target = fast.target.restack (target.openStack lo openNodes fast.stillOpen chain)
  path : IsPath fast.target.nodes (target.openStack lo openNodes fast.stillOpen chain)
  nodeStack_eq : fast.target.nodeStack = target.nodeStack
  contextStack_eq : fast.target.contextStack = target.contextStack
  viewStack_eq : fast.target.viewStack = target.viewStack
  grown : ∃ more, fast.target.nodes = target.nodes ++ more ∧ more.length = next - lo
  openNodes_eq : slow.openNodes = chain ++ openNodes.drop (openNodes.length - fast.stillOpen)
  source_eq : slow.source = fast.source
  source_length : fast.source.nodes.length = source.nodes.length
  parents : parentOf fast.source.nodes = parentOf source.nodes
  focus_eq : slow.containsFocus = fast.containsFocus
  stretch : IsStretch (parentOf source.nodes) lo chain
  head : chain.head? = if lo < next then some (next - 1) else none

variable {target source : DispatchTree C L} {lo next : ℕ} {openNodes : List ℕ}
  {fast : Copying C L} {slow : Copied C L} {chain : List ℕ}

lemma Matches.hang_eq (h : Matches target source lo openNodes next fast slow chain)
    (hb : source.ParentsBefore) (ho : source.InOrder lo hi) (hlo : lo ≤ next) (hhi : next < hi)
    {parent : Option ℕ} (hp : parentOf source.nodes next = parent) :
    ∃ n chain' stillOpen', slow.openNodes.findIdx (fun node => some node = parent) = n ∧
      stillOpen' ≤ openNodes.length ∧
      slow.openNodes.drop n = chain' ++ openNodes.drop (openNodes.length - stillOpen') ∧
      (target.openStack lo openNodes fast.stillOpen chain).drop n =
        target.openStack lo openNodes stillOpen' chain' ∧
      IsStretch (parentOf source.nodes) lo (next :: chain') ∧
      hang lo hi target.nodes.length openNodes target.nodeStack fast.stillOpen parent =
        ((target.openStack lo openNodes stillOpen' chain').head?, stillOpen') := by
  have hso := h.stillOpen_le
  by_cases hin : ∃ p, parent = some p ∧ lo ≤ p
  · -- the parent was copied in this stretch: it is an ancestor of the node before
    obtain ⟨p, rfl, hlop⟩ := hin
    have hpn : p < next := hb next p hp
    have hmem : p ∈ chain := by
      have hlt : lo < next := lt_of_le_of_lt hlop hpn
      have hhead : next - 1 ∈ chain := by
        apply mem_of_mem_head?
        rw [h.head, if_pos hlt]
        rfl
      exact h.stretch.reached_mem hb hhead (ho next hlt hhi p hp hlop) hlop
    obtain ⟨n, below, hn, hnlt, hdrop⟩ := drop_findIdx_of_mem hmem
      (openNodes.drop (openNodes.length - fast.stillOpen))
    refine ⟨n, p :: below, fast.stillOpen, ?_, hso, ?_, ?_, ?_, ?_⟩
    · rw [h.openNodes_eq, hn]
    · rw [h.openNodes_eq, drop_append_of_le_length hnlt.le, hdrop]
    · rw [openStack, drop_append_of_le_length (by simpa using hnlt.le), ← map_drop, hdrop]
      rfl
    · exact .cons hlo hp (hdrop ▸ h.stretch.drop n)
    · have hhi' : p < hi := hpn.trans hhi
      simp [hang, openStack, Option.filter, hlop, hhi']
  · -- it was not: the chain is closed, and what was open before down to the parent
    have hout : ∀ i ∈ chain, some i ≠ parent := by
      intro i hi he
      exact hin ⟨i, he.symm, h.stretch.inside hi⟩
    have hnone : parent.filter (fun p => lo ≤ p ∧ p < hi) = none := by
      cases parent with
      | none => rfl
      | some p => simp [Option.filter, show ¬ lo ≤ p from fun hle => hin ⟨p, rfl, hle⟩]
    have hle : (openNodes.drop (openNodes.length - fast.stillOpen)).findIdx
        (fun node => some node = parent) ≤
        (openNodes.drop (openNodes.length - fast.stillOpen)).length := findIdx_le_length
    have hclosed : openNodes.length - leftOpen openNodes fast.stillOpen parent =
        openNodes.length - fast.stillOpen + (openNodes.drop
          (openNodes.length - fast.stillOpen)).findIdx (fun node => some node = parent) := by
      rw [leftOpen_eq openNodes hso]
      rw [length_drop] at hle
      omega
    refine ⟨_, [], leftOpen openNodes fast.stillOpen parent, rfl, ?_, ?_, ?_, ?_, ?_⟩
    · rw [leftOpen_eq openNodes hso]
      omega
    · rw [h.openNodes_eq, findIdx_append_of_forall_ne hout, drop_append, hclosed]
      simp
    · rw [h.openNodes_eq, findIdx_append_of_forall_ne hout, openStack, openStack, drop_append,
        hclosed]
      simp
    · refine .root hlo (fun p hp' => ?_)
      by_contra hge
      exact hin ⟨p, hp ▸ hp', Nat.not_lt.mp hge⟩
    · rw [hang, hnone]
      simp [openStack, head?_drop]

lemma Matches.step (h : Matches target source lo openNodes next fast slow chain)
    (hl : openNodes.length ≤ target.nodeStack.length) (hb : source.ParentsBefore)
    (ho : source.InOrder lo hi) (hlo : lo ≤ next) (hhi : next < hi)
    (hlen : hi ≤ source.nodes.length) (focus : Option FocusId) :
    ∃ chain', Matches target source lo openNodes (next + 1)
      (copyNode lo hi target.nodes.length openNodes focus fast next) (copyOne focus slow next)
      chain' := by
  have hnext : next < fast.source.nodes.length := by
    rw [h.source_length]
    omega
  obtain ⟨node, hnode⟩ : ∃ node, fast.source.nodes[next]? = some node :=
    ⟨_, getElem?_eq_getElem hnext⟩
  have hp : parentOf source.nodes next = node.parent := by
    rw [← h.parents, parentOf, hnode, bind_some]
  obtain ⟨n, chain', stillOpen', hn, hso', hopen, hstack, hstretch, hparent⟩ :=
    h.hang_eq hb ho hlo hhi hp
  have hpath := h.path.drop n
  rw [hstack] at hpath
  have hunwind : unwindTo node.parent slow.openNodes slow.target =
      (chain' ++ openNodes.drop (openNodes.length - stillOpen'),
        fast.target.restack (target.openStack lo openNodes stillOpen' chain')) := by
    rw [h.target_eq, unwindTo_restack, hn, hopen, hstack]
    rw [h.openNodes_eq, openStack]
    simp only [length_append, length_drop, length_map]
    omega
  have hview : innermostView fast.target.nodes fast.target.nodes.length
      (target.openStack lo openNodes stillOpen' chain').head? = _ :=
    innermostView_eq hpath (fun id hid => hpath.lt_length (mem_of_mem_head? hid))
  obtain ⟨more, hmore, hmorelen⟩ := h.grown
  have hlanded : fast.target.nodes.length = next - lo + target.nodes.length := by
    rw [hmore, length_append, hmorelen, Nat.add_comm]
  have htop : fast.target.nodes.length :: target.openStack lo openNodes stillOpen' chain' =
      target.openStack lo openNodes stillOpen' (next :: chain') := by
    rw [hlanded]
    rfl
  have hmoved := moveNode_restack hpath node
  have hplaced := IsPath.place hpath node (node.viewId.filter (fun viewId =>
    ((target.openStack lo openNodes stillOpen' chain').filterMap
      (viewOf fast.target.nodes)).head? ≠ some viewId))
  rw [htop] at hmoved hplaced
  have hgrown : ∀ parent viewId, ∃ more', (fast.target.place node parent viewId).nodes =
      target.nodes ++ more' ∧ more'.length = next + 1 - lo := by
    intro parent viewId
    refine ⟨more ++ [{ node with viewId := viewId, parent := parent }], ?_, ?_⟩
    · simp only [place, hmore, append_assoc]
    · simp only [length_append, length_singleton, hmorelen]
      omega
  refine ⟨next :: chain', ?_⟩
  rw [copyOne, copyNode, h.source_eq]
  simp only [hnode, hunwind, h.nodeStack_eq, hparent, hview]
  exact {
    stillOpen_le := hso'
    target_eq := hmoved
    path := hplaced
    nodeStack_eq := h.nodeStack_eq
    contextStack_eq := h.contextStack_eq
    viewStack_eq := h.viewStack_eq
    grown := hgrown _ _
    openNodes_eq := rfl
    source_eq := rfl
    source_length := by simp [modifyNode, h.source_length]
    parents := by rw [modifyNode, parentOf_taken, h.parents]
    focus_eq := by rw [h.focus_eq]
    stretch := hstretch
    head := by simp [Nat.lt_succ_of_le hlo] }

lemma matches_stretch (ht : target.Inv) (hl : openNodes.length ≤ target.nodeStack.length)
    (hb : source.ParentsBefore) (ho : source.InOrder lo hi) (hlen : hi ≤ source.nodes.length)
    (focus : Option FocusId) (n : ℕ) (hn : lo + n ≤ hi) :
    ∃ chain, Matches target source lo openNodes (lo + n)
      ((range' lo n).foldl (copyNode lo hi target.nodes.length openNodes focus)
        ⟨target, source, openNodes.length, false⟩)
      ((range' lo n).foldl (copyOne focus) ⟨target, source, openNodes, false⟩) chain := by
  induction n with
  | zero =>
    have hstack : target.openStack lo openNodes openNodes.length [] = target.nodeStack := by
      simp [openStack]
    refine ⟨[], ?_⟩
    simp only [range'_zero, foldl_nil]
    exact {
      stillOpen_le := le_rfl
      target_eq := by rw [hstack]; exact ht.stacked
      path := by rw [hstack]; exact ht.path
      nodeStack_eq := rfl
      contextStack_eq := rfl
      viewStack_eq := rfl
      grown := ⟨[], by simp, by simp⟩
      openNodes_eq := by simp
      source_eq := rfl
      source_length := rfl
      parents := rfl
      focus_eq := rfl
      stretch := .nil
      head := by simp }
  | succ n ih =>
    obtain ⟨chain, hm⟩ := ih (by omega)
    rw [range'_concat, foldl_append, foldl_append]
    simpa [Nat.add_assoc] using hm.step hl hb ho (by omega) (by omega) hlen focus

lemma Matches.stacked (h : Matches target source lo openNodes next fast slow chain)
    (ht : target.Inv) : fast.target = fast.target.restack target.nodeStack := by
  obtain ⟨more, hmore, -⟩ := h.grown
  have hc : target.contextStack = target.nodeStack.filterMap (contextOf fast.target.nodes) := by
    rw [hmore, filterMap_append_nodes (fun more id hid => contextOf_append _ more hid) ht.path]
    exact ht.contexts
  have hv : target.viewStack = target.nodeStack.filterMap (viewOf fast.target.nodes) := by
    rw [hmore, filterMap_append_nodes (fun more id hid => viewOf_append _ more hid) ht.path]
    exact ht.views
  rw [restack, ← hc, ← hv, ← h.nodeStack_eq, ← h.contextStack_eq, ← h.viewStack_eq]

lemma Matches.copiedChain_eq (h : Matches target source lo openNodes next fast slow chain)
    (ht : target.Inv) (hlo : lo ≤ next) (stack : List ℕ) :
    (if target.nodes.length < (fast.target.restack stack).nodes.length then
      copiedChain (fast.target.restack stack).nodes target.nodes.length
        (fast.target.restack stack).nodes.length
        (some ((fast.target.restack stack).nodes.length - 1)) else []) =
      chain.map (fun i => i - lo + target.nodes.length) := by
  rw [restack_nodes]
  obtain ⟨more, hmore, hlen⟩ := h.grown
  have hlast : fast.target.nodes.length = target.nodes.length + (next - lo) := by
    rw [hmore, length_append, hlen]
  have hhead := h.head
  split
  · have hlt : lo < next := by omega
    rw [if_pos hlt] at hhead
    have htop : (target.openStack lo openNodes fast.stillOpen chain).head? =
        some (fast.target.nodes.length - 1) := by
      simp only [openStack, head?_append, head?_map, hhead, map_some, some_or, some.injEq]
      omega
    rw [← htop]
    refine DispatchTree.copiedChain_eq h.path ?_ ?_ ?_
    · intro id hid
      obtain ⟨i, -, rfl⟩ := mem_map.mp hid
      exact Nat.le_add_left _ _
    · intro id hid
      exact (ht.path.drop _).lt_length (mem_of_mem_head? hid)
    · exact fun id hid => h.path.lt_length (mem_of_mem_head? hid)
  · have hge : ¬ lo < next := by omega
    rw [if_neg hge, head?_eq_none_iff] at hhead
    rw [hhead, map_nil]

lemma copyNodes_some (ht : target.Inv) (hl : openNodes.length ≤ target.nodeStack.length)
    (hb : source.ParentsBefore) (ho : source.InOrder lo hi) (hle : lo ≤ hi)
    (hlen : hi ≤ source.nodes.length) (focus : Option FocusId) :
    copyNodes target source lo hi (some openNodes) focus =
      copyOneByOne target source lo hi openNodes focus := by
  obtain ⟨chain, h⟩ := matches_stretch ht hl hb ho hlen focus (hi - lo) (by omega)
  have hnext : lo + (hi - lo) = hi := by omega
  rw [hnext] at h
  simp only [copyNodes, copyOneByOne, getD_some]
  revert h
  generalize (range' lo (hi - lo)).foldl (copyNode lo hi target.nodes.length openNodes focus)
    ⟨target, source, openNodes.length, false⟩ = fast
  generalize (range' lo (hi - lo)).foldl (copyOne focus)
    ⟨target, source, openNodes, false⟩ = slow
  intro h
  have hpop : popNode^[openNodes.length - fast.stillOpen] fast.target =
      fast.target.restack (target.nodeStack.drop (openNodes.length - fast.stillOpen)) := by
    rw [h.stacked ht, popNode_iterate _ (by omega), restack_restack]
  have hback : (chain.map (fun i => i - lo + target.nodes.length)).map
      (fun id => id - target.nodes.length + lo) = chain := by
    rw [List.map_map]
    conv_rhs => rw [← List.map_id chain]
    refine map_congr_left (fun i hi => ?_)
    have := h.stretch.inside hi
    simp only [Function.comp_apply, id_eq]
    omega
  rw [hpop, h.copiedChain_eq ht hle, foldr_reopen, hback, ← h.openNodes_eq, ← h.source_eq, ← h.focus_eq]
  rw [← openStack, ← h.target_eq]

lemma copyNodes_none (ht : target.Inv) (hb : source.ParentsBefore) (ho : source.InOrder lo hi)
    (hle : lo ≤ hi) (hlen : hi ≤ source.nodes.length) (focus : Option FocusId) :
    copyNodes target source lo hi none focus = copyOneByOneClosed target source lo hi focus := by
  obtain ⟨chain, h⟩ : ∃ chain, Matches target source lo [] (lo + (hi - lo)) _ _ chain :=
    matches_stretch ht (Nat.zero_le _) hb ho hlen focus (hi - lo) (by omega)
  simp only [copyNodes, copyOneByOneClosed, copyOneByOne, getD_none]
  revert h
  generalize (range' lo (hi - lo)).foldl (copyNode lo hi target.nodes.length [] focus)
    ⟨target, source, List.length [], false⟩ = fast
  generalize (range' lo (hi - lo)).foldl (copyOne focus)
    ⟨target, source, [], false⟩ = slow
  intro h
  have hopen : slow.openNodes = chain := by simp [h.openNodes_eq]
  have hpop : popNode^[slow.openNodes.length] slow.target = fast.target := by
    rw [hopen, h.target_eq, popNode_iterate]
    · conv_rhs => rw [h.stacked ht]
      simp [openStack]
    · simp [openStack]
  rw [hpop, h.source_eq, h.focus_eq]

end GpuiFast.DispatchTree
