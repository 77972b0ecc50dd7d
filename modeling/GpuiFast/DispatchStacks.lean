import GpuiFast.DispatchTree

/-! The open nodes are the path from the active node to its root, and the context and view stacks are
what those nodes hold. Pushing, popping and moving a node keep it so. -/

namespace GpuiFast.DispatchTree

open List

variable {C L : Type*}

/-- `stack` leads from its first node outwards along the nodes' parents. -/
inductive IsPath (nodes : List (DispatchNode C L)) : List ℕ → Prop
  | nil : IsPath nodes []
  | cons {id : ℕ} {node : DispatchNode C L} {below : List ℕ} (here : nodes[id]? = some node)
      (up : node.parent = below.head?) (older : ∀ p ∈ below.head?, p < id)
      (rest : IsPath nodes below) : IsPath nodes (id :: below)

/-- The tree with `stack` open. -/
def restack (t : DispatchTree C L) (stack : List ℕ) : DispatchTree C L :=
  { t with
    nodeStack := stack
    contextStack := stack.filterMap (contextOf t.nodes)
    viewStack := stack.filterMap (viewOf t.nodes) }

structure Inv (t : DispatchTree C L) : Prop where
  path : IsPath t.nodes t.nodeStack
  stacked : t = t.restack t.nodeStack

variable {nodes : List (DispatchNode C L)} {stack : List ℕ} {t : DispatchTree C L}

variable {id : ℕ} {β : Type*}

lemma IsPath.lt_length (h : IsPath nodes stack) (hm : id ∈ stack) : id < nodes.length := by
  induction h with
  | nil => simp at hm
  | cons here _ _ _ ih =>
    rcases mem_cons.mp hm with rfl | hm
    · exact (List.getElem?_eq_some_iff.mp here).1
    · exact ih hm

lemma IsPath.drop (h : IsPath nodes stack) (n : ℕ) : IsPath nodes (stack.drop n) := by
  induction n generalizing stack with
  | zero => exact h
  | succ n ih =>
    cases h with
    | nil => exact .nil
    | cons _ _ _ rest => exact ih rest

lemma IsPath.append (h : IsPath nodes stack) (more : List (DispatchNode C L)) :
    IsPath (nodes ++ more) stack := by
  induction h with
  | nil => exact .nil
  | cons here up older _ ih =>
    have hlt := (List.getElem?_eq_some_iff.mp here).1
    exact .cons (by rw [getElem?_append_left hlt, here]) up older ih

lemma filterMap_append_nodes {f : List (DispatchNode C L) → ℕ → Option β}
    (hf : ∀ more id, id < nodes.length → f (nodes ++ more) id = f nodes id) (h : IsPath nodes stack)
    (more : List (DispatchNode C L)) :
    stack.filterMap (f (nodes ++ more)) = stack.filterMap (f nodes) :=
  filterMap_congr (fun id hm => hf more id (h.lt_length hm))

lemma contextOf_append (nodes more : List (DispatchNode C L)) (h : id < nodes.length) :
    contextOf (nodes ++ more) id = contextOf nodes id := by
  rw [contextOf, contextOf, getElem?_append_left h]

lemma viewOf_append (nodes more : List (DispatchNode C L)) (h : id < nodes.length) :
    viewOf (nodes ++ more) id = viewOf nodes id := by
  rw [viewOf, viewOf, getElem?_append_left h]

@[simp] lemma restack_nodes (t : DispatchTree C L) (stack : List ℕ) :
    (t.restack stack).nodes = t.nodes := rfl

@[simp] lemma restack_nodeStack (t : DispatchTree C L) (stack : List ℕ) :
    (t.restack stack).nodeStack = stack := rfl

@[simp] lemma restack_restack (t : DispatchTree C L) (stack stack' : List ℕ) :
    (t.restack stack).restack stack' = t.restack stack' := rfl

lemma Inv.contexts (h : t.Inv) : t.contextStack = t.nodeStack.filterMap (contextOf t.nodes) :=
  congrArg DispatchTree.contextStack h.stacked

lemma Inv.views (h : t.Inv) : t.viewStack = t.nodeStack.filterMap (viewOf t.nodes) :=
  congrArg DispatchTree.viewStack h.stacked

lemma Inv.of_stacks (hp : IsPath t.nodes t.nodeStack)
    (hc : t.contextStack = t.nodeStack.filterMap (contextOf t.nodes))
    (hv : t.viewStack = t.nodeStack.filterMap (viewOf t.nodes)) : t.Inv :=
  ⟨hp, by rw [DispatchTree.restack, ← hc, ← hv]⟩

lemma Inv.restack (h : IsPath t.nodes stack) : (t.restack stack).Inv := ⟨h, rfl⟩

variable (f : ℕ → Option β) {fuel : ℕ}

lemma tail_filterMap_cons (id : ℕ) (below : List ℕ) :
    (if (f id).isSome then ((id :: below).filterMap f).tail else (id :: below).filterMap f) =
      below.filterMap f := by
  cases hf : f id <;> simp [hf]

lemma popNode_restack (t : DispatchTree C L) (id : ℕ) (below : List ℕ) :
    (t.restack (id :: below)).popNode = t.restack below := by
  simp only [popNode, DispatchTree.restack]
  congr 1
  · exact tail_filterMap_cons (contextOf t.nodes) id below
  · exact tail_filterMap_cons (viewOf t.nodes) id below

lemma popNode_iterate (t : DispatchTree C L) {stack : List ℕ} {n : ℕ} (hn : n ≤ stack.length) :
    popNode^[n] (t.restack stack) = t.restack (stack.drop n) := by
  induction n generalizing stack with
  | zero => rfl
  | succ n ih =>
    cases stack with
    | nil => simp at hn
    | cons id below =>
      rw [Function.iterate_succ_apply, popNode_restack]
      exact ih (by simpa using hn)

lemma unwindTo_restack (t : DispatchTree C L) (parent : Option ℕ) (openNodes stack : List ℕ)
    (h : openNodes.length ≤ stack.length) :
    unwindTo parent openNodes (t.restack stack) =
      (openNodes.drop (openNodes.findIdx (fun node => some node = parent)),
        t.restack (stack.drop (openNodes.findIdx (fun node => some node = parent)))) := by
  induction openNodes generalizing stack with
  | nil => rfl
  | cons last below ih =>
    cases stack with
    | nil => simp at h
    | cons id stack =>
      rw [unwindTo, findIdx_cons]
      by_cases hp : some last = parent
      · simp [hp]
      · simp only [hp, if_false, decide_false, cond_false, popNode_restack]
        exact ih stack (by simpa using h)

lemma innermostView_eq (h : IsPath nodes stack) (hf : ∀ id ∈ stack.head?, id < fuel) :
    innermostView nodes fuel stack.head? = (stack.filterMap (viewOf nodes)).head? := by
  induction h generalizing fuel with
  | nil => cases fuel <;> rfl
  | @cons id node below here up older rest ih =>
    cases fuel with
    | zero => simp at hf
    | succ fuel =>
      have hid : id < fuel + 1 := hf id rfl
      rw [head?_cons, innermostView, filterMap_cons]
      cases hv : viewOf nodes id with
      | some viewId => rfl
      | none =>
        have hup : parentOf nodes id = below.head? := by rw [parentOf, here, Option.bind_some, up]
        simp only [hup]
        exact ih (fun p hp => lt_of_lt_of_le (older p hp) (Nat.lt_succ_iff.mp hid))

lemma copiedChain_eq {start : ℕ} {chain below : List ℕ} (h : IsPath nodes (chain ++ below))
    (hc : ∀ id ∈ chain, start ≤ id) (hb : ∀ id ∈ below.head?, id < start)
    (hf : ∀ id ∈ (chain ++ below).head?, id < fuel) :
    copiedChain nodes start fuel (chain ++ below).head? = chain := by
  induction chain generalizing fuel with
  | nil =>
    rw [nil_append]
    cases hh : below.head? with
    | none => cases fuel <;> rfl
    | some id =>
      cases fuel with
      | zero => rfl
      | succ fuel =>
        have hlt := hb id hh
        simp [copiedChain, Nat.not_le.mpr hlt]
  | cons id chain ih =>
    cases h with
    | cons here up older rest =>
      cases fuel with
      | zero => simp at hf
      | succ fuel =>
        have hid : id < fuel + 1 := hf id rfl
        have hup : parentOf nodes id = (chain ++ below).head? := by
          rw [parentOf, here, Option.bind_some, up]
          rfl
        rw [cons_append, head?_cons, copiedChain, if_pos (hc id (by simp)), hup]
        rw [ih rest (fun j hj => hc j (by simp [hj]))]
        exact fun p hp => lt_of_lt_of_le (older p hp) (Nat.lt_succ_iff.mp hid)

lemma toList_append_filterMap (id : ℕ) (below : List ℕ) :
    (f id).toList ++ below.filterMap f = (id :: below).filterMap f := by
  cases hf : f id <;> simp [hf]

lemma foldr_reopen (t : DispatchTree C L) (chain below : List ℕ) :
    chain.foldr (fun id t => t.reopen id) (t.restack below) = t.restack (chain ++ below) := by
  induction chain with
  | nil => rfl
  | cons id chain ih =>
    rw [foldr_cons, ih]
    simp only [reopen, DispatchTree.restack, cons_append, toList_append_filterMap]

lemma modify_length_append (nodes : List (DispatchNode C L)) (node : DispatchNode C L)
    (f : DispatchNode C L → DispatchNode C L) :
    (nodes ++ [node]).modify nodes.length f = nodes ++ [f node] := by
  induction nodes with
  | nil => rfl
  | cons first nodes ih => simpa using ih

lemma restack_place (h : IsPath t.nodes stack) (node : DispatchNode C L) (parent : Option ℕ)
    (viewId : Option EntityId) :
    (t.place node parent viewId).restack (t.nodes.length :: stack) =
      { t.place node parent viewId with
        nodeStack := t.nodes.length :: stack
        contextStack := node.context.toList ++ stack.filterMap (contextOf t.nodes)
        viewStack := viewId.toList ++ stack.filterMap (viewOf t.nodes) } := by
  have hc : contextOf (t.nodes ++ [{ node with viewId := viewId, parent := parent }])
      t.nodes.length = node.context := by simp [contextOf]
  have hv : viewOf (t.nodes ++ [{ node with viewId := viewId, parent := parent }])
      t.nodes.length = viewId := by simp [viewOf]
  simp only [DispatchTree.restack, place, ← toList_append_filterMap, hc, hv,
    filterMap_append_nodes (fun more id hid => contextOf_append t.nodes more hid) h,
    filterMap_append_nodes (fun more id hid => viewOf_append t.nodes more hid) h]

lemma moveNode_restack (h : IsPath t.nodes stack) (node : DispatchNode C L) :
    (t.restack stack).moveNode node =
      (t.place node stack.head? (node.viewId.filter (fun viewId =>
        (stack.filterMap (viewOf t.nodes)).head? ≠ some viewId))).restack
        (t.nodes.length :: stack) := by
  rw [restack_place h]
  obtain ⟨keys, actions, modifiers, context, focusId, viewId, parent⟩ := node
  simp only [DispatchTree.restack]
  generalize stack.filterMap (viewOf t.nodes) = views
  generalize stack.filterMap (contextOf t.nodes) = contexts
  cases viewId with
  | none =>
    cases context <;> cases focusId <;>
      simp [moveNode, pushNode, setKeyContext, setFocusId, modifyNode, place, modify_length_append]
  | some viewId =>
    by_cases hv : views.head? = some viewId <;> cases context <;> cases focusId <;>
      simp [moveNode, pushNode, setKeyContext, setFocusId, setViewId, modifyNode, place,
        modify_length_append, hv, Option.filter]

lemma IsPath.place (h : IsPath t.nodes stack) (node : DispatchNode C L) (viewId : Option EntityId) :
    IsPath (t.place node stack.head? viewId).nodes (t.nodes.length :: stack) := by
  have here : (t.place node stack.head? viewId).nodes[t.nodes.length]? =
      some { node with viewId := viewId, parent := stack.head? } := by
    simp [DispatchTree.place]
  exact .cons here rfl (fun p hp => h.lt_length (mem_of_mem_head? hp)) (h.append _)

end GpuiFast.DispatchTree
