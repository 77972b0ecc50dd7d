import GpuiFast.SumTreeBack
import GpuiFast.SumTreeEditHolds
import GpuiFast.TabStops

namespace GpuiFast

open List Option

open SumTree

instance : LawfulSummary TabStopOrderNodeSummary where
  zero_add a := congrArg (TabStopOrderNodeSummary.mk a.maxIndex a.maxPath) (Nat.zero_add a.tabStops)
  add_assoc a b c := congrArg (TabStopOrderNodeSummary.mk c.maxIndex c.maxPath)
    (Nat.add_assoc a.tabStops b.tabStops c.tabStops)

lemma total_concat_key (items : List TabStopNode) (node : TabStopNode) :
    (total (items ++ [node]) : TabStopOrderNodeSummary).maxPath = node.path ∧
      (total (items ++ [node]) : TabStopOrderNodeSummary).maxIndex = node.nodeInsertionIndex := by
  have htotal : (total (items ++ [node]) : TabStopOrderNodeSummary) =
      Summary.addSummary (total items) (Item.summary node) := by
    rw [total_append items (cons_ne_nil node [])]
    exact congrArg _ (sum_singleton (Item.summary node))
  rw [htotal]
  exact ⟨rfl, rfl⟩

variable (path : List ℤ) (ops : List TabStopOperation)

lemma nil_le_path : [] ≤ path := by
  cases path with
  | nil => exact le_rfl
  | cons tabIndex path => exact le_of_lt Lex.nil

instance : LawfulKeyed TabStopNode TabStopOrderNodeSummary TabStopKey where
  zero_le key := by
    exact Prod.Lex.toLex_mono (show (([], 0) : List ℤ × ℕ) ≤ ofLex key from
      ⟨nil_le_path _, Nat.zero_le _⟩)
  addSummary_total := by
    intro before segment node _
    obtain ⟨hpath, hindex⟩ := total_concat_key segment node
    exact congrArg₂ TabStopKey.of hpath hindex

lemma groupPath_append (ops' : List TabStopOperation) :
    groupPath path (ops ++ ops') = groupPath (groupPath path ops) ops' := by
  induction ops generalizing path with
  | nil => rfl
  | cons op ops ih =>
    cases op with
    | insert handle => exact ih path
    | group tabIndex => exact ih _
    | groupEnd => exact ih _

variable (index : ℕ) {p : TabStopKey × FocusHandle}

lemma placed_append (ops ops' : List TabStopOperation) :
    placed path index (ops ++ ops') =
      placed path index ops ++ placed (groupPath path ops) (index + ops.length) ops' := by
  induction ops generalizing path index with
  | nil => rfl
  | cons op ops ih =>
    have hlength : index + (op :: ops).length = index + 1 + ops.length := by
      rw [length_cons]
      omega
    rw [hlength]
    cases op with
    | insert handle =>
      rw [cons_append, placed, placed, ih, groupPath]
      rfl
    | group tabIndex =>
      rw [cons_append, placed, placed, ih, groupPath]
    | groupEnd =>
      rw [cons_append, placed, placed, ih, groupPath]

lemma placed_operation {path : List ℤ} {index : ℕ} {ops : List TabStopOperation}
    (h : p ∈ placed path index ops) :
    ∃ i, p.1.index = index + i ∧ ops[i]? = some (.insert p.2) := by
  induction ops generalizing path index with
  | nil => cases h
  | cons op ops ih =>
    have hlater : ∀ path', p ∈ placed path' (index + 1) ops →
        ∃ i, p.1.index = index + i ∧ (op :: ops)[i]? = some (.insert p.2) := by
      intro path' hp
      obtain ⟨i, hi, hop⟩ := ih hp
      exact ⟨i + 1, by omega, hop⟩
    cases op with
    | insert handle =>
      rcases mem_cons.mp h with rfl | h
      · exact ⟨0, rfl, rfl⟩
      · exact hlater _ h
    | group tabIndex => exact hlater _ h
    | groupEnd => exact hlater _ h

def nodeOf (p : TabStopKey × FocusHandle) : TabStopNode :=
  ⟨p.1.path, p.1.index, p.2.tabStop⟩

@[simp] lemma tabStop_nodeOf (p : TabStopKey × FocusHandle) : (nodeOf p).tabStop = p.2.tabStop := rfl

lemma placed_keys_nodup (ops : List TabStopOperation) :
    (placed path index ops).Pairwise (fun a b => a.1.index < b.1.index) := by
  induction ops generalizing path index with
  | nil => exact List.Pairwise.nil
  | cons op ops ih =>
    cases op with
    | insert handle =>
      refine pairwise_cons.mpr ⟨fun p hp => ?_, ih _ _⟩
      obtain ⟨i, hi, -⟩ := placed_operation hp
      rw [hi]
      exact Nat.lt_of_lt_of_le (Nat.lt_succ_self index) (Nat.le_add_right ..)
    | group tabIndex => exact ih _ _
    | groupEnd => exact ih _ _

lemma mem_tabOrder {ops : List TabStopOperation} :
    p ∈ tabOrder ops ↔ p ∈ placed [] 0 ops := mem_mergeSort

lemma tabOrder_strict : (tabOrder ops).Pairwise (fun a b => a.1 < b.1) := by
  have hsorted : (tabOrder ops).Pairwise (fun a b => a.1 ≤ b.1) := by
    have h := @pairwise_mergeSort (TabStopKey × FocusHandle) (fun a b => decide (a.1 ≤ b.1))
      (fun a b c hab hbc => by simpa using le_trans (by simpa using hab) (by simpa using hbc))
      (fun a b => by simpa using le_total a.1 b.1) (placed [] 0 ops)
    exact h.imp of_decide_eq_true
  have hne : (tabOrder ops).Pairwise (fun a b => a.1 ≠ b.1) := by
    refine ((mergeSort_perm ..).pairwise_iff ?_).mpr
      ((placed_keys_nodup [] 0 ops).imp ?_)
    · exact fun hab => Ne.symm hab
    · exact fun hab heq => hab.ne (by rw [heq])
  exact (hsorted.and hne).imp (fun h => lt_of_le_of_ne h.1 h.2)

lemma tabOrder_eq {ops : List TabStopOperation} {order : List (TabStopKey × FocusHandle)}
    (hperm : order.Perm (placed [] 0 ops)) (hstrict : order.Pairwise (fun a b => a.1 < b.1)) :
    tabOrder ops = order :=
  List.Pairwise.eq_of_mem_iff (tabOrder_strict ops) hstrict
    (fun _ => mem_tabOrder.trans hperm.mem_iff.symm)

lemma strictKeys_tabOrder : StrictKeys ((tabOrder ops).map nodeOf) :=
  pairwise_map.mpr (tabOrder_strict ops)

namespace TabStopMap

structure Holds (map : TabStopMap) (ops : List TabStopOperation) : Prop where
  currentPath : map.currentPath = groupPath [] ops
  insertionHistory : map.insertionHistory = ops
  valid : map.order.Valid
  items : map.order.items = (tabOrder ops).map nodeOf
  byId : ∀ id node, map.byId.get? id = some node ↔
    ∃ p ∈ placed [] 0 ops, p.2.id = id ∧ nodeOf p = node

def DistinctHandles (ops : List TabStopOperation) : Prop :=
  ((placed [] 0 ops).map (fun p => p.2.id)).Nodup

instance (ops : List TabStopOperation) : Decidable (DistinctHandles ops) :=
  inferInstanceAs (Decidable (Nodup _))

variable {map : TabStopMap} {ops : List TabStopOperation}

lemma Holds.strict (h : map.Holds ops) : StrictKeys map.order.items := by
  rw [h.items]
  exact strictKeys_tabOrder ops

variable {op : TabStopOperation} {handle : FocusHandle}

lemma Holds.same {map' : TabStopMap} (h : map.Holds ops)
    (hplaced : placed [] 0 (ops ++ [op]) = placed [] 0 ops)
    (hpath : map'.currentPath = groupPath [] (ops ++ [op]))
    (hhistory : map'.insertionHistory = map.insertionHistory ++ [op])
    (horder : map'.order = map.order) (hbyId : map'.byId = map.byId) :
    map'.Holds (ops ++ [op]) where
  currentPath := hpath
  insertionHistory := by rw [hhistory, h.insertionHistory]
  valid := horder ▸ h.valid
  items := by rw [horder, h.items, tabOrder, tabOrder, hplaced]
  byId := by
    rw [hbyId, hplaced]
    exact h.byId

lemma placed_concat (ops : List TabStopOperation) (handle : FocusHandle) :
    placed [] 0 (ops ++ [.insert handle]) = placed [] 0 ops ++
      [(.of (groupPath [] ops ++ [handle.tabIndex]) ops.length, handle)] := by
  rw [placed_append, Nat.zero_add]
  rfl

lemma items_insert {items returned : List TabStopNode}
    (happlied : Applied [.insert (nodeOf (.of (groupPath [] ops ++ [handle.tabIndex]) ops.length,
      handle))] ((tabOrder ops).map nodeOf) items returned) :
    items = (tabOrder (ops ++ [.insert handle])).map nodeOf := by
  refine List.Pairwise.eq_of_mem_iff happlied.strict (strictKeys_tabOrder _) (fun node => ?_)
  rw [happlied.mem_single, Edit.inserted, mem_singleton, List.mem_map, List.mem_map]
  simp only [mem_tabOrder, placed_concat, mem_append, mem_singleton]
  constructor
  · rintro (rfl | ⟨⟨p, hp, rfl⟩, -⟩)
    · exact ⟨_, .inr rfl, rfl⟩
    · exact ⟨p, .inl hp, rfl⟩
  · rintro ⟨p, hp | rfl, rfl⟩
    · refine .inr ⟨⟨p, hp, rfl⟩, fun hkey => ?_⟩
      obtain ⟨i, hi, hop⟩ := placed_operation hp
      have hlt : i < ops.length := (List.getElem?_eq_some_iff.mp hop).1
      have hindex : p.1.index = ops.length := congrArg (TabStopKey.index) hkey
      omega
    · exact .inl rfl

lemma Holds.insert (h : map.Holds ops) (hdistinct : DistinctHandles (ops ++ [.insert handle]))
    (hheight : map.order.height < STACK_CAPACITY) :
    ∃ map', map.insert handle = some map' ∧ map'.Holds (ops ++ [.insert handle]) := by
  obtain ⟨tree, returned, happly, hvalid, happlied⟩ := applyEdit_spec h.valid h.strict hheight
    (.insert (nodeOf (.of (groupPath [] ops ++ [handle.tabIndex]) ops.length, handle)))
  have hnode : (⟨map.currentPath ++ [handle.tabIndex],
      (map.insertionHistory ++ [TabStopOperation.insert handle]).length - 1,
      handle.tabStop⟩ : TabStopNode) =
        nodeOf (.of (groupPath [] ops ++ [handle.tabIndex]) ops.length, handle) := by
    rw [h.currentPath, h.insertionHistory, length_append, length_singleton, Nat.add_sub_cancel]
    rfl
  have hnew : ∀ p ∈ placed [] 0 ops, p.2.id ≠ handle.id := by
    have hnodup := hdistinct
    rw [DistinctHandles, placed_concat, map_append] at hnodup
    have hdisjoint := (nodup_append.mp hnodup).2.2
    intro p hp
    exact hdisjoint _ (mem_map_of_mem hp) _ (mem_singleton_self _)
  rw [applyEdit] at happly
  rw [TabStopMap.insert]
  dsimp only
  rw [hnode, happly]
  refine ⟨_, rfl, ?_, ?_, hvalid, ?_, fun id node => ?_⟩
  · rw [groupPath_append]
    exact h.currentPath
  · rw [h.insertionHistory]
  · rw [h.items] at happlied
    exact items_insert happlied
  · rw [KeyMap.get?_insert, placed_concat]
    simp only [mem_append, mem_singleton]
    split
    · next hid =>
      constructor
      · intro hsome
        exact ⟨_, .inr rfl, hid.symm, some.inj hsome⟩
      · rintro ⟨p, hp | rfl, hpid, rfl⟩
        · exact absurd (hpid.trans hid) (hnew p hp)
        · rfl
    · next hid =>
      rw [h.byId]
      constructor
      · rintro ⟨p, hp, hpid⟩
        exact ⟨p, .inl hp, hpid⟩
      · rintro ⟨p, hp | rfl, hpid, hnode⟩
        · exact ⟨p, hp, hpid, hnode⟩
        · exact absurd hpid.symm hid

lemma Holds.apply (h : map.Holds ops) (hdistinct : DistinctHandles (ops ++ [op]))
    (hheight : map.order.height < STACK_CAPACITY) :
    ∃ map', map.apply op = some map' ∧ map'.Holds (ops ++ [op]) := by
  cases op with
  | insert handle => exact h.insert hdistinct hheight
  | group tabIndex =>
    refine ⟨_, rfl, h.same ?_ ?_ rfl rfl rfl⟩
    · rw [placed_append]
      exact append_nil _
    · rw [groupPath_append, beginGroup, h.currentPath]
      rfl
  | groupEnd =>
    refine ⟨_, rfl, h.same ?_ ?_ rfl rfl rfl⟩
    · rw [placed_append]
      exact append_nil _
    · rw [groupPath_append, endGroup, h.currentPath]
      rfl

lemma holds_new : new.Holds [] where
  currentPath := rfl
  insertionHistory := rfl
  valid := .inl rfl
  items := by
    rw [tabOrder, placed, mergeSort_nil]
    exact items_leaf ..
  byId := by
    intro id node
    constructor
    · intro h
      cases h
    · rintro ⟨p, hp, -⟩
      cases hp

def HaveRoom (ops : List TabStopOperation) : Prop :=
  ∀ count map, new.replay (ops.take count) = some map → map.order.height < STACK_CAPACITY

lemma holds_replay (hdistinct : DistinctHandles ops) (hroom : HaveRoom ops) :
    ∃ map, new.replay ops = some map ∧ map.Holds ops := by
  induction ops using reverseRecOn with
  | nil => exact ⟨new, rfl, holds_new⟩
  | append_singleton ops op ih =>
    have hbefore : DistinctHandles ops := by
      rw [DistinctHandles, placed_append, map_append] at hdistinct
      exact (nodup_append.mp hdistinct).1
    have hroomBefore : HaveRoom ops := by
      intro count map hmap
      refine hroom (min count ops.length) map ?_
      rwa [take_append_of_le_length (min_le_right ..), ← take_take, take_length]
    obtain ⟨map, hreplay, hholds⟩ := ih hbefore hroomBefore
    have hheight : map.order.height < STACK_CAPACITY := by
      refine hroom ops.length map ?_
      rwa [take_left']
      rfl
    obtain ⟨map', happly, hholds'⟩ := hholds.apply hdistinct hheight
    refine ⟨map', ?_, hholds'⟩
    rw [replay, foldlM_append]
    rw [replay] at hreplay
    simpa [hreplay] using happly

end TabStopMap

section Walks

variable {tree : SumTree TabStopNode TabStopOrderNodeSummary} {cursor : TabStopCursor}
  {before left : List TabStopNode} {endOf : List TabStopNode → TabStopKey}

variable {fuel : ℕ}

lemma toTabStop_next (h : Cursor.At tree endOf cursor before left)
    (hmeasures : Cursor.Measures tree.items endOf) (hheight : tree.height < STACK_CAPACITY)
    (hfuel : left.length < fuel) :
    cursor.toTabStop Cursor.next fuel = some (left.find? TabStopNode.tabStop) := by
  induction left generalizing cursor before fuel with
  | nil =>
    obtain ⟨fuel, rfl⟩ := Nat.exists_eq_succ_of_ne_zero hfuel.ne_bot
    rw [TabStopCursor.toTabStop, h.item]
    rfl
  | cons node left ih =>
    obtain ⟨fuel, rfl⟩ := Nat.exists_eq_succ_of_ne_zero hfuel.ne_bot
    rw [TabStopCursor.toTabStop, h.item, find?_cons]
    simp only [head?_cons, bind_eq_bind, bind_some]
    cases hstop : node.tabStop with
    | true => rfl
    | false =>
      obtain ⟨cursor', hnext, hat⟩ := h.next hmeasures hheight
      rw [if_neg Bool.false_ne_true, hnext]
      exact ih hat (Nat.lt_of_succ_lt_succ hfuel)

def BackAt (tree : SumTree TabStopNode TabStopOrderNodeSummary) (cursor : TabStopCursor)
    (behind left : List TabStopNode) : Prop :=
  behind = [] ∧ cursor.item = some none ∨
    ∃ before last, behind = before ++ [last] ∧ Cursor.Between tree cursor before (last :: left)

lemma toTabStop_prev (h : BackAt tree cursor before left) (hheight : tree.height < STACK_CAPACITY)
    (hfuel : before.length < fuel) :
    cursor.toTabStop Cursor.prev fuel = some (before.reverse.find? TabStopNode.tabStop) := by
  induction fuel generalizing cursor before left with
  | zero => cases hfuel
  | succ fuel ih =>
    rw [TabStopCursor.toTabStop]
    rcases h with ⟨rfl, hitem⟩ | ⟨before, last, rfl, hbetween⟩
    · rw [hitem]
      rfl
    · rw [hbetween.item, reverse_append, reverse_singleton, singleton_append, find?_cons]
      simp only [head?_cons, bind_eq_bind, bind_some]
      cases hstop : last.tabStop with
      | true => rfl
      | false =>
        obtain ⟨cursor', hprev, hback⟩ := hbetween.prev hheight
        have hlength : before.length < fuel := by
          rw [length_append, length_singleton] at hfuel
          omega
        rw [if_neg Bool.false_ne_true, hprev]
        exact ih hback hlength

end Walks

namespace TabStopMap

variable {map : TabStopMap} {ops : List TabStopOperation} {before after : List TabStopNode}
  {node : TabStopNode}

section

variable (h : map.Holds ops) (hitems : map.order.items = before ++ node :: after)
  (hheight : map.order.height < STACK_CAPACITY)
include h hitems hheight

lemma Holds.seek :
    ∃ r, (Cursor.new map.order : TabStopCursor).seek (compare (KeyedItem.key node)) .left = some r ∧
      Cursor.At map.order (lastKey TabStopOrderNodeSummary) r.1 before (node :: after) := by
  have hzero : compare (KeyedItem.key node) (Dimension.zero TabStopOrderNodeSummary : TabStopKey) ≠
      .lt := by
    rw [Ne, compare_lt_iff_lt, not_lt]
    exact LawfulKeyed.zero_le TabStopNode _
  obtain ⟨low, rest, cursor, found, hsplit, hseek, hat, -, hlow, hrest⟩ :=
    (Cursor.seek_spec (Cursor.new map.order : TabStopCursor) rfl h.valid
      (measures_lastKey h.strict) hheight hzero).by_key h.strict
  -- what is below the node is what is before it
  have hstrict := h.strict
  rw [hitems] at hstrict
  obtain ⟨-, hnode, hbefore⟩ := pairwise_append.mp hstrict
  have hbelow := congrArg
    (List.filter (fun item : TabStopNode => KeyedItem.key item < KeyedItem.key node))
    (hsplit.symm.trans hitems : low ++ rest = before ++ node :: after)
  rw [filter_append, filter_append, filter_eq_self.mpr, filter_eq_nil_iff.mpr,
    filter_eq_self.mpr, filter_eq_nil_iff.mpr, append_nil, append_nil] at hbelow
  · subst hbelow
    obtain rfl := append_cancel_left (hsplit.symm.trans hitems)
    exact ⟨_, hseek, hat⟩
  · intro item hitem
    rw [decide_eq_true_eq, not_lt]
    rcases mem_cons.mp hitem with rfl | hitem
    · exact le_rfl
    · exact ((pairwise_cons.mp hnode).1 item hitem).le
  · intro item hitem
    exact decide_eq_true (hbefore item hitem node (mem_cons_self ..))
  · intro item hitem
    rw [decide_eq_true_eq, not_lt]
    exact hrest item hitem
  · intro item hitem
    exact decide_eq_true (hlow item hitem)

lemma Holds.nextInner : map.nextInner node = some (after.find? TabStopNode.tabStop) := by
  obtain ⟨⟨cursor, found⟩, hseek, hat⟩ := h.seek hitems hheight
  obtain ⟨cursor', hnext, hat'⟩ := hat.next (measures_lastKey h.strict) hheight
  rw [TabStopMap.nextInner, walkFrom, hseek]
  simp only [bind_eq_bind, bind_some, hnext]
  refine toTabStop_next hat' (measures_lastKey h.strict) hheight ?_
  rw [hitems, length_append, length_cons]
  omega

lemma Holds.prevInner : map.prevInner node = some (before.reverse.find? TabStopNode.tabStop) := by
  obtain ⟨⟨cursor, found⟩, hseek, hat⟩ := h.seek hitems hheight
  obtain ⟨htree, hatEnd, hlinked⟩ := Cursor.seek_linked _ _ _ hseek
  have hbetween : Cursor.Between map.order cursor before (node :: after) :=
    ⟨hat.didSeek, htree, hatEnd, hlinked, hat.stands, hat.items⟩
  obtain ⟨cursor', hprev, hback⟩ := hbetween.prev hheight
  rw [TabStopMap.prevInner, walkFrom, hseek]
  simp only [bind_eq_bind, bind_some, hprev]
  refine toTabStop_prev hback hheight ?_
  rw [hitems, length_append]
  omega

end

end TabStopMap

end GpuiFast
