import GpuiFast.TabStopsHold

/-! From a tab stop the tab key comes to every tab stop in turn and back to the first one, with shift
the other way round; from anything else it comes to the nearest one on its side. -/

namespace GpuiFast

open List Option

open SumTree

def GoesRound (handles : List FocusHandle) (step : Option ℕ → Option (Option FocusHandle)) : Prop :=
  ∀ before handle after, handles = before ++ handle :: after →
    step (some handle.id) = some (after.head?.or handles.head?)

variable {handles : List FocusHandle} {step back : Option ℕ → Option (Option FocusHandle)}

variable {handle : FocusHandle}

section

variable (h : GoesRound handles step)
include h

variable {i : ℕ}

lemma GoesRound.getElem? (hi : handles[i]? = some handle) :
    step (some handle.id) = some handles[(i + 1) % handles.length]? := by
  obtain ⟨hlt, rfl⟩ := List.getElem?_eq_some_iff.mp hi
  have hsplit : handles = handles.take i ++ handles[i] :: handles.drop (i + 1) := by
    rw [← drop_eq_getElem_cons hlt, take_append_drop]
  rw [h _ _ _ hsplit, head?_drop]
  by_cases hlast : i + 1 < handles.length
  · rw [getElem?_eq_getElem hlast, Nat.mod_eq_of_lt hlast, some_or, getElem?_eq_getElem hlast]
  · have hlength : i + 1 = handles.length := by omega
    rw [getElem?_eq_none (by omega), none_or, head?_eq_getElem?, hlength,
      Nat.mod_self]

lemma GoesRound.traverse {count : ℕ} (hi : handles[i]? = some handle)
    (hcount : count ≤ handles.length) :
    traverse step count (some handle.id) = some ((handles.rotate (i + 1)).take count) := by
  induction count generalizing i handle with
  | zero => rfl
  | succ count ih =>
    have hmod : (i + 1) % handles.length < handles.length := Nat.mod_lt _ (by omega)
    obtain ⟨next, hnext⟩ : ∃ next, handles[(i + 1) % handles.length]? = some next :=
      ⟨_, getElem?_eq_getElem hmod⟩
    have hrotate : (handles.rotate (i + 1)).head? = some next := by
      rw [head?_eq_getElem?, getElem?_rotate (by omega), Nat.zero_add, hnext]
    obtain ⟨rest, hrest⟩ := head?_eq_some_iff.mp hrotate
    have hagain : handles.rotate ((i + 1) % handles.length + 1) = rest ++ [next] := by
      rw [← rotate_rotate, rotate_mod, hrest, rotate_cons_succ, rotate_zero]
    have hlength : rest.length + 1 = handles.length := by
      rw [← length_cons, ← hrest, length_rotate]
    rw [GpuiFast.traverse, h.getElem? hi, hnext, hrest]
    simp only [bind_eq_bind, bind_some]
    rw [ih hnext (by omega), hagain, take_append_of_le_length (by omega)]
    rfl

lemma GoesRound.inverse (hback : GoesRound handles.reverse back) (hmem : handle ∈ handles) :
    ∃ next ∈ handles, step (some handle.id) = some (some next) ∧
      back (some next.id) = some (some handle) := by
  obtain ⟨before, after, hsplit⟩ := append_of_mem hmem
  have hreverse : handles.reverse = after.reverse ++ handle :: before.reverse := by
    rw [hsplit, reverse_append, reverse_cons, append_assoc]
    rfl
  cases after with
  | nil =>
    -- from the last to the first
    obtain ⟨first, rest, hfirst⟩ := exists_cons_of_ne_nil (ne_nil_of_mem hmem)
    refine ⟨first, by rw [hfirst]; exact mem_cons_self .., ?_, ?_⟩
    · rw [h _ _ _ hsplit, hfirst]
      rfl
    · have hlast : handles.reverse = rest.reverse ++ first :: [] := by
        rw [hfirst, reverse_cons]
      rw [hback _ _ _ hlast, hreverse]
      rfl
  | cons next after =>
    refine ⟨next, ?_, ?_, ?_⟩
    · rw [hsplit]
      exact mem_append_right _ (mem_cons_of_mem _ (mem_cons_self ..))
    · rw [h _ _ _ hsplit]
      rfl
    · have hnext : handles.reverse = after.reverse ++ next :: handle :: before.reverse := by
        rw [hreverse, reverse_cons, append_assoc]
        rfl
      rw [hback _ _ _ hnext]
      rfl

end

namespace TabStopMap

variable {map : TabStopMap} {ops : List TabStopOperation}

variable {p : TabStopKey × FocusHandle} {before after : List (TabStopKey × FocusHandle)}

lemma Holds.focusHandleForOrder (h : map.Holds ops) (hp : p ∈ tabOrder ops) :
    map.focusHandleForOrder (nodeOf p) = some (some p.2) := by
  obtain ⟨i, hi, hop⟩ := placed_operation (mem_tabOrder.mp hp)
  have hindex : (nodeOf p).nodeInsertionIndex = i := hi.trans (Nat.zero_add i)
  rw [TabStopMap.focusHandleForOrder, h.insertionHistory, hindex, hop]
  rfl

variable {order : List (TabStopKey × FocusHandle)}

lemma Holds.handle_find? (h : map.Holds ops) (horder : ∀ p ∈ order, p ∈ tabOrder ops)
    (fallback : Option (Option FocusHandle)) :
    (match (order.map nodeOf).find? TabStopNode.tabStop with
      | some item => map.focusHandleForOrder item
      | none => fallback) =
      match (stopsOf order).head? with
      | some handle => some (some handle)
      | none => fallback := by
  induction order with
  | nil => rfl
  | cons p order ih =>
    obtain ⟨hp, hrest⟩ := forall_mem_cons.mp horder
    rw [map_cons, find?_cons, tabStop_nodeOf]
    cases hstop : p.2.tabStop with
    | true =>
      rw [stopsOf, map_cons, filter_cons_of_pos hstop]
      exact h.focusHandleForOrder hp
    | false =>
      rw [stopsOf, map_cons, filter_cons_of_neg (by rw [hstop]; exact Bool.false_ne_true)]
      exact ih hrest

lemma Holds.split (h : map.Holds ops) (hsplit : tabOrder ops = before ++ p :: after) :
    map.order.items = before.map nodeOf ++ nodeOf p :: after.map nodeOf := by
  rw [h.items, hsplit, map_append, map_cons]

lemma fromEnd_eq {inner : TabStopNode → Option (Option TabStopNode)} {node : TabStopNode}
    {rest : List TabStopNode} (hinner : inner node = some (rest.find? TabStopNode.tabStop)) :
    map.fromEnd inner (some node) =
      match (node :: rest).find? TabStopNode.tabStop with
      | some item => map.focusHandleForOrder item
      | none => some none := by
  rw [fromEnd, find?_cons]
  cases node.tabStop with
  | true => rfl
  | false =>
    rw [if_neg Bool.false_ne_true, hinner]
    rfl

lemma Holds.next_none (h : map.Holds ops) (hheight : map.order.height < STACK_CAPACITY) :
    map.next none = some (tabStops ops).head? := by
  rw [TabStopMap.next, first_spec h.valid]
  simp only [bind_eq_bind, bind_some]
  cases horder : tabOrder ops with
  | nil =>
    rw [h.items, tabStops, horder]
    rfl
  | cons p order =>
    have hsplit : tabOrder ops = [] ++ p :: order := horder
    have hfind := h.handle_find? (fun q hq => hq) (some none)
    rw [horder, map_cons] at hfind
    rw [h.items, horder, map_cons, head?_cons,
      fromEnd_eq (h.nextInner (h.split hsplit) hheight), hfind, tabStops, horder]
    cases (stopsOf (p :: order)).head? <;> rfl

lemma Holds.prev_none (h : map.Holds ops) (hheight : map.order.height < STACK_CAPACITY) :
    map.prev none = some (tabStops ops).getLast? := by
  rw [TabStopMap.prev, last_spec h.valid]
  simp only [bind_eq_bind, bind_some]
  rcases eq_nil_or_concat' (tabOrder ops) with horder | ⟨order, p, horder⟩
  · rw [h.items, tabStops, horder]
    rfl
  · have hfind := h.handle_find? (fun q hq => mem_reverse.mp hq) (some none)
    have hreverse : (tabOrder ops).reverse = p :: order.reverse := by
      rw [horder, reverse_append]
      rfl
    rw [hreverse, map_cons, map_reverse] at hfind
    have hstops : (stopsOf (p :: order.reverse)).head? = (tabStops ops).getLast? := by
      rw [← hreverse, stopsOf, map_reverse, filter_reverse, head?_reverse]
      rfl
    rw [h.items, horder, map_append, map_singleton, getLast?_concat,
      fromEnd_eq (h.prevInner (h.split horder) hheight), hfind, hstops]
    cases (tabStops ops).getLast? <;> rfl

lemma next_some (map : TabStopMap) (id : ℕ) :
    map.next (some id) = map.fromFocused map.nextInner (map.next none) id := rfl

lemma prev_some (map : TabStopMap) (id : ℕ) :
    map.prev (some id) = map.fromFocused map.prevInner (map.prev none) id := rfl

section

variable (h : map.Holds ops) (hheight : map.order.height < STACK_CAPACITY)
include h hheight

lemma Holds.next_placed (hsplit : tabOrder ops = before ++ p :: after) :
    map.next (some p.2.id) = some ((stopsOf after).head?.or (tabStops ops).head?) := by
  have hmem : p ∈ tabOrder ops := by
    rw [hsplit]
    exact mem_append_right _ (mem_cons_self ..)
  have hnode : map.tabNodeForFocusId p.2.id = some (nodeOf p) :=
    (h.byId _ _).mpr ⟨p, mem_tabOrder.mp hmem, rfl, rfl⟩
  have hafter : ∀ q ∈ after, q ∈ tabOrder ops := by
    rw [hsplit]
    exact fun q hq => mem_append_right _ (mem_cons_of_mem _ hq)
  rw [next_some, fromFocused, hnode, h.next_none hheight]
  simp only [h.nextInner (h.split hsplit) hheight, bind_eq_bind, bind_some]
  refine (h.handle_find? hafter _).trans ?_
  cases (stopsOf after).head? <;> rfl

lemma Holds.prev_placed (hsplit : tabOrder ops = before ++ p :: after) :
    map.prev (some p.2.id) = some ((stopsOf before).getLast?.or (tabStops ops).getLast?) := by
  have hmem : p ∈ tabOrder ops := by
    rw [hsplit]
    exact mem_append_right _ (mem_cons_self ..)
  have hnode : map.tabNodeForFocusId p.2.id = some (nodeOf p) :=
    (h.byId _ _).mpr ⟨p, mem_tabOrder.mp hmem, rfl, rfl⟩
  have hbefore : ∀ q ∈ before.reverse, q ∈ tabOrder ops := by
    rw [hsplit]
    exact fun q hq => mem_append_left _ (mem_reverse.mp hq)
  have hstops : (stopsOf before.reverse).head? = (stopsOf before).getLast? := by
    rw [stopsOf, map_reverse, filter_reverse, head?_reverse]
    rfl
  rw [prev_some, fromFocused, hnode, h.prev_none hheight]
  simp only [h.prevInner (h.split hsplit) hheight, bind_eq_bind, bind_some]
  rw [← map_reverse, ← hstops]
  refine (h.handle_find? hbefore _).trans ?_
  cases (stopsOf before.reverse).head? <;> rfl

lemma Holds.next_absent {id : ℕ} (hid : ∀ p ∈ tabOrder ops, p.2.id ≠ id) :
    map.next (some id) = some (tabStops ops).head? ∧
      map.prev (some id) = some (tabStops ops).getLast? := by
  have hnode : map.tabNodeForFocusId id = none := by
    refine eq_none_iff_forall_ne_some.mpr (fun node hnode => ?_)
    obtain ⟨p, hp, hpid, -⟩ := (h.byId _ _).mp hnode
    exact hid p (mem_tabOrder.mpr hp) hpid
  rw [next_some, prev_some, fromFocused, fromFocused, hnode]
  exact ⟨h.next_none hheight, h.prev_none hheight⟩

end

lemma exists_split_of_stop {before after : List FocusHandle} {handle : FocusHandle}
    (h : stopsOf order = before ++ handle :: after) :
    ∃ before' p after', order = before' ++ p :: after' ∧ p.2 = handle ∧ stopsOf before' = before ∧
      stopsOf after' = after := by
  induction order generalizing before with
  | nil => cases before <;> cases h
  | cons p order ih =>
    cases hstop : p.2.tabStop with
    | true =>
      have hcons : stopsOf (p :: order) = p.2 :: stopsOf order := by
        rw [stopsOf, map_cons, filter_cons_of_pos hstop]
        rfl
      rw [hcons] at h
      cases before with
      | nil =>
        obtain ⟨rfl, rfl⟩ := List.cons.inj h
        exact ⟨[], p, order, rfl, rfl, rfl, rfl⟩
      | cons first before =>
        obtain ⟨rfl, hrest⟩ := List.cons.inj h
        obtain ⟨before', q, after', rfl, hq, hbefore, hafter⟩ := ih hrest
        refine ⟨p :: before', q, after', rfl, hq, ?_, hafter⟩
        rw [stopsOf, map_cons, filter_cons_of_pos hstop, ← hbefore]
        rfl
    | false =>
      have hneg : ¬ p.2.tabStop = true := by rw [hstop]; exact Bool.false_ne_true
      have hcons : ∀ order', stopsOf (p :: order') = stopsOf order' := by
        intro order'
        rw [stopsOf, map_cons, filter_cons_of_neg hneg]
        rfl
      rw [hcons] at h
      obtain ⟨before', q, after', rfl, hq, hbefore, hafter⟩ := ih h
      exact ⟨p :: before', q, after', rfl, hq, (hcons before').trans hbefore, hafter⟩

lemma Holds.goesRound_next (h : map.Holds ops) (hheight : map.order.height < STACK_CAPACITY) :
    GoesRound (tabStops ops) map.next := by
  intro before handle after hstops
  obtain ⟨before', p, after', hsplit, rfl, -, rfl⟩ := exists_split_of_stop hstops
  exact h.next_placed hheight hsplit

lemma Holds.goesRound_prev (h : map.Holds ops) (hheight : map.order.height < STACK_CAPACITY) :
    GoesRound (tabStops ops).reverse map.prev := by
  intro before handle after hstops
  have hreverse : tabStops ops = after.reverse ++ handle :: before.reverse := by
    rw [← reverse_reverse (tabStops ops), hstops, reverse_append, reverse_cons, append_assoc]
    rfl
  obtain ⟨before', p, after', hsplit, rfl, hbefore, -⟩ := exists_split_of_stop hreverse
  rw [h.prev_placed hheight hsplit, hbefore, getLast?_reverse, head?_reverse]

lemma tabStops_nodup {ops : List TabStopOperation} (hdistinct : DistinctHandles ops) :
    (tabStops ops).Nodup := by
  have hids : ((tabOrder ops).map (fun p => p.2.id)).Nodup :=
    ((mergeSort_perm ..).map _).nodup_iff.mpr hdistinct
  have hhandles : ((tabOrder ops).map Prod.snd).Nodup := by
    refine List.Nodup.of_map FocusHandle.id ?_
    rwa [List.map_map]
  exact hhandles.filter _

/-- After operations that insert focus handles of distinct ids, the tab key goes round the tab
stops in the order of their group paths and then of insertion, coming to each once before it comes
back, and shift the other way round, undoing it. From any other focus handle in the map it comes to
the nearest tab stop on its side, or round the end, and from one that is not in the map, or from
none, to the first and the last. -/
theorem replay_goesRound (ops : List TabStopOperation) (hdistinct : DistinctHandles ops)
    (hroom : HaveRoom ops) :
    ∃ map, new.replay ops = some map ∧ (tabStops ops).Nodup ∧
      (∀ i handle, (tabStops ops)[i]? = some handle →
        traverse map.next (tabStops ops).length (some handle.id) =
          some ((tabStops ops).rotate (i + 1))) ∧
      (∀ i handle, (tabStops ops).reverse[i]? = some handle →
        traverse map.prev (tabStops ops).length (some handle.id) =
          some ((tabStops ops).reverse.rotate (i + 1))) ∧
      (∀ handle ∈ tabStops ops,
        (∃ next ∈ tabStops ops, map.next (some handle.id) = some (some next) ∧
          map.prev (some next.id) = some (some handle)) ∧
        ∃ prev ∈ tabStops ops, map.prev (some handle.id) = some (some prev) ∧
          map.next (some prev.id) = some (some handle)) ∧
      (∀ before p after, tabOrder ops = before ++ p :: after →
        map.next (some p.2.id) = some ((stopsOf after).head?.or (tabStops ops).head?) ∧
          map.prev (some p.2.id) = some ((stopsOf before).getLast?.or (tabStops ops).getLast?)) ∧
      (∀ id, (∀ p ∈ tabOrder ops, p.2.id ≠ id) →
        map.next (some id) = some (tabStops ops).head? ∧
          map.prev (some id) = some (tabStops ops).getLast?) ∧
      map.next none = some (tabStops ops).head? ∧ map.prev none = some (tabStops ops).getLast? := by
  obtain ⟨map, hreplay, h⟩ := holds_replay hdistinct hroom
  have hheight : map.order.height < STACK_CAPACITY := by
    refine hroom ops.length map ?_
    rwa [take_length]
  have hnext := h.goesRound_next hheight
  have hprev := h.goesRound_prev hheight
  refine ⟨map, hreplay, tabStops_nodup hdistinct, fun i handle hi => ?_, fun i handle hi => ?_,
    fun handle hmem => ⟨hnext.inverse hprev hmem, ?_⟩,
    fun before p after hsplit => ⟨h.next_placed hheight hsplit, h.prev_placed hheight hsplit⟩,
    fun id hid => h.next_absent hheight hid, h.next_none hheight, h.prev_none hheight⟩
  · rw [hnext.traverse hi le_rfl, take_of_length_le (by rw [length_rotate])]
  · rw [hprev.traverse hi (by rw [length_reverse]),
      take_of_length_le (by rw [length_rotate, length_reverse])]
  · have hnext' : GoesRound (tabStops ops).reverse.reverse map.next := by
      rwa [reverse_reverse]
    obtain ⟨prev, hmem', hback⟩ := hprev.inverse hnext' (mem_reverse.mpr hmem)
    exact ⟨prev, mem_reverse.mp hmem', hback⟩

def besideGroup : List TabStopOperation :=
  [.insert ⟨1, 0, false⟩, .insert ⟨2, 2, true⟩, .group 2, .insert ⟨3, 1, true⟩,
    .insert ⟨4, -1, true⟩, .groupEnd, .insert ⟨5, 2, true⟩, .insert ⟨6, 3, false⟩]

def besideGroupOrder : List (TabStopKey × FocusHandle) :=
  [(.of [0] 0, ⟨1, 0, false⟩), (.of [2] 1, ⟨2, 2, true⟩), (.of [2] 6, ⟨5, 2, true⟩),
    (.of [2, -1] 4, ⟨4, -1, true⟩), (.of [2, 1] 3, ⟨3, 1, true⟩), (.of [3] 7, ⟨6, 3, false⟩)]

theorem replay_goesRound_besideGroup :
    ∃ map, new.replay besideGroup = some map ∧
      (tabStops besideGroup).map FocusHandle.id = [2, 5, 4, 3] ∧
      traverse map.next 4 (some 4) =
        some [⟨3, 1, true⟩, ⟨2, 2, true⟩, ⟨5, 2, true⟩, ⟨4, -1, true⟩] ∧
      map.prev (some 6) = some (some ⟨3, 1, true⟩) := by
  have hheights : ∀ count < 9,
      (new.replay (besideGroup.take count)).map (fun map => map.order.height) = some 0 := by
    with_unfolding_all decide
  have hroom : HaveRoom besideGroup := by
    intro count map hmap
    have hcount : min count 8 < 9 := by omega
    have hheight := hheights (min count 8) hcount
    have htake : besideGroup.take (min count 8) = besideGroup.take count := by
      rw [← take_take]
      rfl
    rw [htake, hmap] at hheight
    rw [show map.order.height = 0 from some.inj hheight]
    decide
  have horder : tabOrder besideGroup = besideGroupOrder :=
    tabOrder_eq (by decide) (by decide)
  have hstops : tabStops besideGroup = stopsOf besideGroupOrder := by rw [tabStops, horder]
  obtain ⟨map, hreplay, -, hnext, -, -, hneighbour, -⟩ :=
    replay_goesRound besideGroup (by decide) hroom
  have htraverse := hnext 2 ⟨4, -1, true⟩ (by rw [hstops]; rfl)
  have hprev := (hneighbour _ _ _ (horder.trans (show besideGroupOrder =
    besideGroupOrder.dropLast ++ (.of [3] 7, ⟨6, 3, false⟩) :: [] from rfl))).2
  rw [hstops] at htraverse hprev
  exact ⟨map, hreplay, by rw [hstops]; rfl, htraverse, hprev⟩

end TabStopMap

end GpuiFast
