import GpuiFast.LayoutRetention

namespace GpuiFast

open List Option

namespace LayoutEngine

def stampedIn (frame : UInt64) (node : RetainedNode) : Bool := node.claimedInFrame = frame

section

variable {T : Type*}

def retainedIds (e : LayoutEngine T) : List LayoutId := e.retained.entries.map (fun entry => entry.2.id)

def core [TaffyTree T] (e : LayoutEngine T) :
    Finset LayoutId × KeyMap LayoutKey RetainedNode × List LayoutId × UInt64 × ℕ :=
  (TaffyTree.nodes e.taffy, e.retained, e.transient, e.frame, e.claimedThisFrame)

structure Inv [TaffyTree T] (e : LayoutEngine T) : Prop where
  counted : e.claimedThisFrame = e.retained.count (stampedIn e.frame)
  distinct : (e.transient ++ e.retainedIds).Nodup
  held : TaffyTree.nodes e.taffy = (e.transient ++ e.retainedIds).toFinset
  /-- No stamp is old enough for the frame counter to come round to it. -/
  recent : ∀ key node, e.retained.get? key = some node →
    e.frame - node.claimedInFrame ≤ LIST_ROW_NODE_LINGER_FRAMES

/-- The node retained under `key`, if any, is `id`. -/
def Holds (e : LayoutEngine T) (key : LayoutKey) (id : LayoutId) : Prop :=
  ∃ node, e.retained.get? key = some node ∧ node.id = id

def Stamped (e : LayoutEngine T) (key : LayoutKey) : Prop :=
  ∃ node, e.retained.get? key = some node ∧ node.claimedInFrame = e.frame

structure Grows (e e' : LayoutEngine T) : Prop where
  holds : ∀ key id, e.Holds key id → e'.Holds key id
  stamped : ∀ key, e.Stamped key → e'.Stamped key

end

variable {T : Type*} [TaffyTree T] {e e' e'' : LayoutEngine T} {key : LayoutKey} {node : RetainedNode}

lemma Inv.of_core (h : e.Inv) (hc : e'.core = e.core) : e'.Inv := by
  simp only [core, Prod.mk.injEq] at hc
  obtain ⟨hn, hr, ht, hf, hcl⟩ := hc
  refine ⟨?_, ?_, ?_, ?_⟩
  · rw [hcl, hr, hf]
    exact h.counted
  · simp only [retainedIds, ht, hr]
    exact h.distinct
  · simp only [retainedIds, hn, ht, hr]
    exact h.held
  · rw [hr, hf]
    exact h.recent

lemma Grows.of_core (hc : e'.core = e.core) : e.Grows e' := by
  simp only [core, Prod.mk.injEq] at hc
  obtain ⟨-, hr, -, hf, -⟩ := hc
  constructor
  · intro key id h
    simpa only [Holds, hr] using h
  · intro key h
    simpa only [Stamped, hr, hf] using h

lemma Grows.refl (e : LayoutEngine T) : e.Grows e := Grows.of_core rfl

omit [TaffyTree T] in
lemma Grows.trans (h : e.Grows e') (h' : e'.Grows e'') : e.Grows e'' :=
  ⟨fun key id hk => h'.holds key id (h.holds key id hk), fun key hk => h'.stamped key (h.stamped key hk)⟩

@[simp] lemma core_logKey (e : LayoutEngine T) (key : LayoutKey) : (e.logKey key).core = e.core := by
  unfold logKey
  split <;> rfl

omit [TaffyTree T] in
lemma retainedIds_stamp (e : LayoutEngine T) (key : LayoutKey) (l : Bool) :
    (e.stamp key l).retainedIds = e.retainedIds :=
  KeyMap.map_modify e.retained key (g := RetainedNode.id) (fun _ => rfl)

lemma Inv.stamp (h : e.Inv) (hk : e.retained.get? key = some node)
    (hn : node.claimedInFrame ≠ e.frame) (l : Bool) : (e.stamp key l).Inv := by
  refine ⟨?_, ?_, ?_, ?_⟩
  · have hc := KeyMap.count_modify hk
      (fun node => { node with claimedInFrame := e.frame, lingers := node.lingers || l })
      (stampedIn e.frame)
    simp only [stampedIn, hn, decide_true, decide_false, if_true, Bool.false_eq_true, if_false,
      add_zero] at hc
    simp only [LayoutEngine.stamp, h.counted]
    exact hc.symm
  · rw [retainedIds_stamp]
    exact h.distinct
  · rw [retainedIds_stamp]
    exact h.held
  · intro j n hj
    simp only [LayoutEngine.stamp, KeyMap.get?_modify] at hj ⊢
    split at hj
    · obtain ⟨m, -, rfl⟩ := map_eq_some_iff.mp hj
      simp
    · exact h.recent j n hj

omit [TaffyTree T] in
lemma get?_stamp (e : LayoutEngine T) (key j : LayoutKey) (l : Bool) :
    (e.stamp key l).retained.get? j = if j = key then (e.retained.get? j).map (fun node =>
      { node with claimedInFrame := e.frame, lingers := node.lingers || l }) else
      e.retained.get? j := by
  simp [stamp, KeyMap.get?_modify]

omit [TaffyTree T] in
lemma Grows.stamp (e : LayoutEngine T) (key : LayoutKey) (l : Bool) : e.Grows (e.stamp key l) := by
  constructor
  · rintro j id ⟨n, hj, rfl⟩
    simp only [Holds, get?_stamp, hj]
    split <;> simp
  · rintro j ⟨n, hj, hn⟩
    simp only [Stamped, get?_stamp, hj]
    split <;> simp [LayoutEngine.stamp, hn]

omit [TaffyTree T] in
lemma stamped_stamp (hk : e.retained.get? key = some node) (l : Bool) :
    (e.stamp key l).Stamped key := by
  simp only [Stamped, get?_stamp, hk, if_true, map_some]
  exact ⟨_, rfl, rfl⟩

lemma keepOne_cases (e : LayoutEngine T) (key : LayoutKey) :
    (e.keepOne key).core = e.core ∧ (e.Stamped key ∨ e.retained.get? key = none) ∨
    ∃ node, e.retained.get? key = some node ∧ node.claimedInFrame ≠ e.frame ∧
      (e.keepOne key).core = (e.stamp key false).core := by
  unfold keepOne
  cases hk : e.retained.get? key with
  | none => exact .inl ⟨rfl, .inr rfl⟩
  | some node =>
    by_cases hn : node.claimedInFrame = e.frame
    · exact .inl ⟨by simp [hn], .inl ⟨node, hk, hn⟩⟩
    · exact .inr ⟨node, rfl, hn, by simp [hn]⟩

lemma adoptOne_core (e : LayoutEngine T) (key : LayoutKey) :
    (e.adoptOne key).core = (e.keepOne key).core := by
  unfold adoptOne keepOne
  cases e.retained.get? key with
  | none => rfl
  | some node => by_cases hn : node.claimedInFrame = e.frame <;> simp [hn]

def Advances (e e' : LayoutEngine T) : Prop := e.Inv → e'.Inv ∧ e.Grows e'

lemma Advances.of_core (hc : e'.core = e.core) : e.Advances e' :=
  fun h => ⟨h.of_core hc, Grows.of_core hc⟩

lemma Advances.trans (h : e.Advances e') (h' : e'.Advances e'') : e.Advances e'' := by
  intro hi
  obtain ⟨hi', hg⟩ := h hi
  obtain ⟨hi'', hg'⟩ := h' hi'
  exact ⟨hi'', hg.trans hg'⟩

lemma Advances.stamp (hk : e.retained.get? key = some node) (hn : node.claimedInFrame ≠ e.frame)
    (l : Bool) : e.Advances (e.stamp key l) :=
  fun h => ⟨h.stamp hk hn l, Grows.stamp e key l⟩

lemma Advances.foldl {f : LayoutEngine T → LayoutKey → LayoutEngine T}
    (hf : ∀ (e : LayoutEngine T) key, e.Advances (f e key)) (keys : List LayoutKey) (e : LayoutEngine T) :
    e.Advances (keys.foldl f e) := by
  induction keys generalizing e with
  | nil => exact fun h => ⟨h, Grows.refl e⟩
  | cons key keys ih => exact (hf e key).trans (ih _)

lemma advances_keepOne (e : LayoutEngine T) (key : LayoutKey) : e.Advances (e.keepOne key) := by
  rcases keepOne_cases e key with ⟨hc, -⟩ | ⟨node, hk, hn, hc⟩
  · exact .of_core hc
  · exact (Advances.stamp hk hn false).trans (.of_core hc)

lemma advances_keepRetained (e : LayoutEngine T) (keys : List LayoutKey) :
    e.Advances (e.keepRetained keys) := .foldl advances_keepOne keys e

lemma advances_adoptClaimed (e : LayoutEngine T) (keys : List LayoutKey) :
    e.Advances (e.adoptClaimed keys) :=
  .foldl (fun e key => (advances_keepOne e key).trans (.of_core (adoptOne_core e key))) keys e

variable {id : LayoutId}

lemma stamped_keepRetained (h : e.Inv) (keys : List LayoutKey) (hm : key ∈ keys)
    (hk : e.Holds key id) : (e.keepRetained keys).Stamped key := by
  induction keys generalizing e with
  | nil => simp at hm
  | cons k keys ih =>
    obtain ⟨hi, hg⟩ := advances_keepOne e k h
    rcases mem_cons.mp hm with rfl | hm
    · have hs : (e.keepOne key).Stamped key := by
        obtain ⟨node, hk, -⟩ := hk
        rcases keepOne_cases e key with ⟨hc, hs | hs⟩ | ⟨n, hk', -, hc⟩
        · exact (Grows.of_core hc).stamped key hs
        · rw [hk] at hs
          cases hs
        · exact (Grows.of_core hc).stamped key (stamped_stamp hk' false)
      exact (advances_keepRetained _ keys hi).2.stamped key hs
    · exact ih hi hm (hg.holds key id hk)

lemma claim_cases (e : LayoutEngine T) (key : Option LayoutKey) :
    ((e.claim key).1 = e ∧ ∀ k id, (e.claim key).2 ≠ .reused k id) ∨
    ∃ k node, e.retained.get? k = some node ∧ node.claimedInFrame ≠ e.frame ∧
      (e.claim key).2 = .reused k node.id ∧
      (e.claim key).1.core = (e.stamp k (decide (0 < e.listRows))).core := by
  cases key with
  | none => exact .inl ⟨rfl, by simp [claim]⟩
  | some k =>
    cases hk : e.retained.get? k with
    | none => exact .inl ⟨by simp [claim, hk], by simp [claim, hk]⟩
    | some node =>
      by_cases hn : node.claimedInFrame = e.frame
      · exact .inl ⟨by simp [claim, hk, hn], by simp [claim, hk, hn]⟩
      · refine .inr ⟨k, node, hk, hn, by simp [claim, hk, hn], ?_⟩
        simp only [claim, hk, hn, if_false, core_logKey]
        rfl

lemma advances_claim (e : LayoutEngine T) (key : Option LayoutKey) : e.Advances (e.claim key).1 := by
  rcases claim_cases e key with ⟨he, -⟩ | ⟨k, node, hk, hn, -, hc⟩
  · rw [he]
    exact .of_core rfl
  · exact (Advances.stamp hk hn _).trans (.of_core hc)

lemma toFinset_append_singleton {α : Type*} [DecidableEq α] (l : List α) (a : α) :
    (l ++ [a]).toFinset = insert a l.toFinset := by
  ext b
  simp

lemma newLeaf_spec [LawfulTaffyTree T] (hl : e.newLeaf = some (e', id)) :
    id ∉ TaffyTree.nodes e.taffy ∧ e'.core = (insert id (TaffyTree.nodes e.taffy), e.retained,
      e.transient, e.frame, e.claimedThisFrame) ∧ e'.listRows = e.listRows := by
  obtain ⟨⟨taffy, id'⟩, hleaf, heq⟩ := map_eq_some_iff.mp hl
  obtain ⟨rfl, rfl⟩ := Prod.mk.inj heq
  obtain ⟨hid, hnodes⟩ := LawfulTaffyTree.newLeaf_spec e.taffy taffy id' hleaf
  exact ⟨hid, by rw [core, hnodes], rfl⟩

lemma core_retain (e : LayoutEngine T) (k : LayoutKey) (id : LayoutId) :
    (e.retain (some k) id).core = (TaffyTree.nodes e.taffy,
      e.retained.insert k ⟨id, e.frame, decide (0 < e.listRows)⟩, e.transient, e.frame,
      e.claimedThisFrame + 1) := by
  simp only [retain, core_logKey]
  rfl

lemma advances_retain [LawfulTaffyTree T] {key : Option LayoutKey}
    (hl : e.newLeaf = some (e', id)) (hv : ∀ k, key = some k → e.retained.get? k = none) :
    e.Advances (e'.retain key id) := by
  intro h
  obtain ⟨hid, hcore, -⟩ := newLeaf_spec hl
  simp only [core, Prod.mk.injEq] at hcore
  obtain ⟨hn, hr, ht, hf, hc⟩ := hcore
  rw [h.held, List.mem_toFinset] at hid
  have hd : (e.transient ++ e.retainedIds ++ [id]).Nodup :=
    Nodup.append h.distinct (nodup_singleton id) (disjoint_singleton.mpr hid)
  cases key with
  | none =>
    have hperm : (e'.transient ++ [id] ++ e'.retainedIds).Perm
        (e.transient ++ e.retainedIds ++ [id]) := by
      rw [ht, retainedIds, hr, append_assoc, append_assoc]
      exact List.Perm.append_left _ perm_append_comm
    refine ⟨⟨?_, hperm.nodup_iff.mpr hd, ?_, ?_⟩, ⟨?_, ?_⟩⟩
    · simpa only [retain, hc, hr, hf] using h.counted
    · show TaffyTree.nodes e'.taffy = (e'.transient ++ [id] ++ e'.retainedIds).toFinset
      rw [toFinset_eq_of_perm _ _ hperm, hn, h.held, toFinset_append_singleton]
    · simpa only [retain, hr, hf] using h.recent
    · simpa only [Holds, retain, hr] using fun _ _ hk => hk
    · simpa only [Stamped, retain, hr, hf] using fun _ hk => hk
  | some k =>
    have hk := hv k rfl
    have hcore := core_retain e' k id
    rw [hn, hr, ht, hf, hc] at hcore
    simp only [core, Prod.mk.injEq] at hcore
    obtain ⟨hn', hr', ht', hf', hc'⟩ := hcore
    have hget : ∀ j, (e'.retain (some k) id).retained.get? j =
        if j = k then some ⟨id, e.frame, decide (0 < e'.listRows)⟩ else e.retained.get? j := by
      intro j
      rw [hr', KeyMap.get?_insert]
    have hids : (e'.retain (some k) id).retainedIds = e.retainedIds ++ [id] := by
      rw [retainedIds, hr', KeyMap.insert_entries_of_vacant hk, map_append, map_singleton]
      rfl
    refine ⟨⟨?_, ?_, ?_, ?_⟩, ⟨?_, ?_⟩⟩
    · rw [hc', hr', hf', KeyMap.count_insert_of_vacant hk, h.counted]
      simp [stampedIn]
    · rw [ht', hids, ← append_assoc]
      exact hd
    · rw [hn', ht', hids, ← append_assoc, h.held, toFinset_append_singleton]
    · intro j n hj
      rw [hget] at hj
      rw [hf']
      split at hj
      · obtain rfl := some.inj hj
        simp
      · exact h.recent j n hj
    · rintro j i ⟨n, hj, hi⟩
      refine ⟨n, ?_, hi⟩
      rw [hget, if_neg (fun hjk => by simp [hjk, hk] at hj), hj]
    · rintro j ⟨n, hj, hi⟩
      refine ⟨n, ?_, hf'.symm ▸ hi⟩
      rw [hget, if_neg (fun hjk => by simp [hjk, hk] at hj), hj]

lemma holds_retain {k : LayoutKey} :
    (e.retain (some k) id).Holds k id ∧ (e.retain (some k) id).Stamped k := by
  have hcore := core_retain e k id
  simp only [core, Prod.mk.injEq] at hcore
  obtain ⟨-, hr, -, hf, -⟩ := hcore
  have hget : (e.retain (some k) id).retained.get? k =
      some ⟨id, e.frame, decide (0 < e.listRows)⟩ := by
    rw [hr, KeyMap.get?_insert, if_pos rfl]
  exact ⟨⟨_, hget, rfl⟩, ⟨_, hget, hf.symm⟩⟩

lemma releaseOne_spec (h : e.Inv) (key : LayoutKey) :
    (e.releaseOne key).Inv ∧ (∀ j id, e.Holds j id → (e.releaseOne key).Holds j id) ∧
      ∀ j, j ≠ key → e.Stamped j → (e.releaseOne key).Stamped j := by
  cases hk : e.retained.get? key with
  | none => simpa [releaseOne, hk] using h
  | some node =>
    by_cases hn : node.claimedInFrame = e.frame
    · simp only [releaseOne, hk, hn, if_true]
      have hids : ({ e with retained := e.retained.modify key (fun node =>
          { node with claimedInFrame := e.frame - 1 }) } : LayoutEngine T).retainedIds =
          e.retainedIds := KeyMap.map_modify e.retained key (g := RetainedNode.id) (fun _ => rfl)
      refine ⟨⟨?_, ?_, ?_, ?_⟩, ?_, ?_⟩
      · have hc := KeyMap.count_modify hk
          (fun node => { node with claimedInFrame := e.frame - 1 }) (stampedIn e.frame)
        have hne : e.frame - 1 ≠ e.frame := by simp
        simp only [stampedIn, hn, hne, decide_true, decide_false, if_true, Bool.false_eq_true,
          if_false, add_zero] at hc
        have hcount := h.counted
        simp only
        omega
      · exact (congrArg (fun ids => (e.transient ++ ids).Nodup) hids).mpr h.distinct
      · exact h.held.trans (congrArg (fun ids => (e.transient ++ ids).toFinset) hids).symm
      · intro j n hj
        simp only [KeyMap.get?_modify] at hj ⊢
        split at hj
        · obtain ⟨m, -, rfl⟩ := map_eq_some_iff.mp hj
          have hone : e.frame - (e.frame - 1) = 1 := by simp
          simp only [hone]
          decide
        · exact h.recent j n hj
      · rintro j id ⟨n, hj, rfl⟩
        simp only [Holds, KeyMap.get?_modify, hj]
        split <;> simp
      · rintro j hjk ⟨n, hj, hs⟩
        exact ⟨n, by rw [KeyMap.get?_modify, if_neg hjk, hj], hs⟩
    · simpa [releaseOne, hk, hn] using h

lemma releaseKept_spec (h : e.Inv) (keys : List LayoutKey) :
    (e.releaseKept keys).Inv ∧ (∀ j id, e.Holds j id → (e.releaseKept keys).Holds j id) ∧
      ∀ j, j ∉ keys → e.Stamped j → (e.releaseKept keys).Stamped j := by
  induction keys generalizing e with
  | nil => exact ⟨h, fun _ _ hj => hj, fun _ _ hj => hj⟩
  | cons key keys ih =>
    obtain ⟨hi, hh, hs⟩ := releaseOne_spec h key
    obtain ⟨hi', hh', hs'⟩ := ih hi
    refine ⟨hi', fun j id hj => hh' j id (hh j id hj), ?_⟩
    intro j hj hst
    obtain ⟨hne, hnm⟩ := not_or.mp (mem_cons.not.mp hj)
    exact hs' j hnm (hs j hne hst)

lemma core_setChildren [LawfulTaffyTree T] {children : List LayoutId}
    (h : e.setChildren id children = some e') : e'.core = e.core := by
  obtain ⟨taffy, htaffy, rfl⟩ := map_eq_some_iff.mp h
  simp only [core, LawfulTaffyTree.nodes_setChildren _ _ _ _ htaffy]

lemma core_applyChildren [LawfulTaffyTree T] {children : List LayoutId}
    (h : e.applyChildren id children = some e') : e'.core = e.core := by
  simp only [applyChildren] at h
  split at h
  · obtain rfl := some.inj h
    rfl
  · exact (core_setChildren h).trans rfl

lemma freeNode_spec [LawfulTaffyTree T] (h : id ∈ TaffyTree.nodes e.taffy) :
    ∃ e', e.freeNode id = some e' ∧ e'.core =
      ((TaffyTree.nodes e.taffy).erase id, e.retained, e.transient, e.frame,
        e.claimedThisFrame) := by
  obtain ⟨taffy, htaffy, hnodes⟩ := LawfulTaffyTree.remove_spec e.taffy id h
  exact ⟨_, by rw [freeNode, htaffy, map_some], by rw [core, hnodes]⟩

lemma freeNodes_spec [LawfulTaffyTree T] (ids : List LayoutId) (hd : ids.Nodup)
    (h : ids.toFinset ⊆ TaffyTree.nodes e.taffy) :
    ∃ e', ids.foldlM freeNode e = some e' ∧ e'.core =
      (TaffyTree.nodes e.taffy \ ids.toFinset, e.retained, e.transient, e.frame,
        e.claimedThisFrame) := by
  induction ids generalizing e with
  | nil => exact ⟨e, rfl, by simp [core]⟩
  | cons id ids ih =>
    obtain ⟨hid, hd⟩ := nodup_cons.mp hd
    rw [toFinset_cons] at h ⊢
    obtain ⟨hin, hrest⟩ := Finset.insert_subset_iff.mp h
    obtain ⟨e₁, he₁, hc₁⟩ := freeNode_spec hin
    simp only [core, Prod.mk.injEq] at hc₁
    obtain ⟨hn, hr, ht, hf, hc⟩ := hc₁
    have hs : ids.toFinset ⊆ TaffyTree.nodes e₁.taffy := by
      rw [hn]
      exact Finset.subset_erase.mpr ⟨hrest, List.mem_toFinset.not.mpr hid⟩
    obtain ⟨e₂, he₂, hc₂⟩ := ih hd hs
    refine ⟨e₂, by simp [foldlM_cons, he₁, he₂], ?_⟩
    rw [hc₂, hn, hr, ht, hf, hc, Finset.erase_sdiff_comm, Finset.sdiff_insert]

def goneIds (e : LayoutEngine T) : List LayoutId :=
  (e.retained.entries.filter (fun entry => !staysAfter e.frame entry.2)).map (fun entry => entry.2.id)

variable {frame : UInt64}

lemma staysAfter_eq_false : staysAfter frame node = false ↔
    node.claimedInFrame ≠ frame ∧
      ¬ (node.lingers ∧ frame - node.claimedInFrame < LIST_ROW_NODE_LINGER_FRAMES) := by
  simp only [staysAfter, decide_eq_false_iff_not, not_or, ne_eq]

omit [TaffyTree T] in
lemma mem_goneIds : id ∈ e.goneIds ↔ ∃ key node, e.retained.get? key = some node ∧
    node.id = id ∧ node.claimedInFrame ≠ e.frame ∧
      ¬ (node.lingers ∧ e.frame - node.claimedInFrame < LIST_ROW_NODE_LINGER_FRAMES) := by
  simp only [goneIds, List.mem_map, mem_filter, KeyMap.get?_eq_some, ← staysAfter_eq_false,
    Bool.not_eq_eq_eq_not, Bool.not_true]
  constructor
  · rintro ⟨⟨key, node⟩, ⟨hm, hs⟩, hid⟩
    exact ⟨key, node, hm, hid, hs⟩
  · rintro ⟨key, node, hm, hid, hs⟩
    exact ⟨(key, node), ⟨hm, hs⟩, hid⟩

omit [TaffyTree T] in
lemma retainedIds_split (e : LayoutEngine T) : e.retainedIds.Perm (e.goneIds ++
    (e.retained.filter (fun _ node => staysAfter e.frame node)).entries.map
      (fun entry => entry.2.id)) := by
  rw [retainedIds, goneIds, ← map_append]
  refine List.Perm.map _ ?_
  have h := filter_append_perm (fun entry => staysAfter e.frame entry.2) e.retained.entries
  exact (perm_append_comm.trans h).symm

lemma Inv.skip (h : e.Inv) (hs : e.retained.size = e.claimedThisFrame) :
    e.goneIds = [] ∧ e.retained.filter (fun _ node => staysAfter e.frame node) = e.retained := by
  have hall := KeyMap.count_eq_size_iff.mp (hs.trans h.counted).symm
  have hstay : ∀ entry ∈ e.retained.entries, staysAfter e.frame entry.2 = true := by
    intro entry hm
    have := hall entry.1 entry.2 (KeyMap.get?_eq_some.mpr hm)
    simp only [stampedIn, decide_eq_true_eq] at this
    simp [staysAfter, this]
  constructor
  · simp only [goneIds, map_eq_nil_iff, filter_eq_nil_iff]
    intro entry hm
    simp [hstay entry hm]
  · have hf := filter_eq_self.mpr hstay
    simp only [KeyMap.filter]
    congr

lemma releaseUnclaimedNodes_spec [LawfulTaffyTree T] (h : e.Inv) :
    ∃ e', e.releaseUnclaimedNodes = some e' ∧ e'.core =
      ((TaffyTree.nodes e.taffy \ e.transient.toFinset) \ e.goneIds.toFinset,
        e.retained.filter (fun _ node => staysAfter e.frame node), [], e.frame + 1, 0) := by
  obtain ⟨htransient, hretained, hapart⟩ := nodup_append'.mp h.distinct
  have htr : e.transient.toFinset ⊆ TaffyTree.nodes e.taffy := by
    rw [h.held, toFinset_append]
    exact Finset.subset_union_left
  obtain ⟨e₁, he₁, hc₁⟩ := freeNodes_spec (e := { e with
    stats := { e.stats with frames := e.stats.frames + 1 }, transient := [] }) e.transient
    htransient htr
  simp only [core, Prod.mk.injEq] at hc₁
  obtain ⟨hn, hr, ht, hf, hc⟩ := hc₁
  by_cases hs : e.retained.size = e.claimedThisFrame
  · obtain ⟨hgone, hfilter⟩ := h.skip hs
    refine ⟨{ e₁ with claimedThisFrame := 0, frame := e₁.frame + 1 }, ?_, ?_⟩
    · simp [releaseUnclaimedNodes, he₁, hr, hc, hs]
    · simp [core, hn, hr, ht, hf, hgone, hfilter]
  · have hgone : (e.goneIds).Nodup :=
      (nodup_append'.mp (e.retainedIds_split.nodup_iff.mp hretained)).1
    have hids : e.goneIds.toFinset ⊆ TaffyTree.nodes e₁.taffy := by
      intro id hid
      have hin : id ∈ e.retainedIds :=
        e.retainedIds_split.mem_iff.mpr (mem_append_left _ (List.mem_toFinset.mp hid))
      rw [hn, Finset.mem_sdiff, h.held, List.mem_toFinset, List.mem_toFinset]
      exact ⟨mem_append_right _ hin, fun hid => hapart hid hin⟩
    obtain ⟨e₂, he₂, hc₂⟩ := freeNodes_spec e.goneIds hgone hids
    simp only [core, Prod.mk.injEq] at hc₂
    obtain ⟨hn₂, hr₂, ht₂, hf₂, hc₂⟩ := hc₂
    refine ⟨{ e₂ with
      retained := e.retained.filter (fun _ node => staysAfter e.frame node)
      claimedThisFrame := 0, frame := e₂.frame + 1 }, ?_, ?_⟩
    · simp only [goneIds] at he₂
      simp [releaseUnclaimedNodes, he₁, hr, hc, hs, hf, he₂]
    · simp [core, hn₂, ht₂, hf₂, hn, ht, hf]

lemma staysAfter_age (h : staysAfter frame node = true) :
    frame + 1 ≠ node.claimedInFrame ∧
      frame + 1 - node.claimedInFrame ≤ LIST_ROW_NODE_LINGER_FRAMES := by
  have hage : frame - node.claimedInFrame < LIST_ROW_NODE_LINGER_FRAMES := by
    simp only [staysAfter, Bool.decide_or, Bool.or_eq_true, decide_eq_true_eq] at h
    rcases h with h | h
    · rw [h]
      simp [LIST_ROW_NODE_LINGER_FRAMES]
    · exact h.2
  simp only [LIST_ROW_NODE_LINGER_FRAMES, UInt64.lt_iff_toNat_lt, UInt64.le_iff_toNat_le,
    UInt64.toNat_sub, UInt64.toNat_add, ne_eq, ← UInt64.toNat_inj] at hage ⊢
  have := frame.toNat_lt
  have := node.claimedInFrame.toNat_lt
  simp at *
  omega

lemma Inv.endFrame [LawfulTaffyTree T] (h : e.Inv) (he : e.releaseUnclaimedNodes = some e') :
    e'.Inv := by
  obtain ⟨e₁, he₁, hc⟩ := releaseUnclaimedNodes_spec h
  obtain rfl := some.inj (he.symm.trans he₁)
  simp only [core, Prod.mk.injEq] at hc
  obtain ⟨hn, hr, ht, hf, hc⟩ := hc
  obtain ⟨-, hretained, hapart⟩ := nodup_append'.mp h.distinct
  have hsplit := e.retainedIds_split
  rw [← hr] at hsplit
  obtain ⟨-, hkept, hgone⟩ := nodup_append'.mp (hsplit.nodup_iff.mp hretained)
  have hstay : ∀ key node, e'.retained.get? key = some node → staysAfter e.frame node = true := by
    intro key node hk
    rw [hr, KeyMap.get?_filter, filter_eq_some_iff] at hk
    exact hk.2
  refine ⟨?_, ?_, ?_, ?_⟩
  · rw [hc, eq_comm, KeyMap.count, countP_eq_zero]
    rintro ⟨key, node⟩ hm hs
    have hage := staysAfter_age (hstay key node (KeyMap.get?_eq_some.mpr hm))
    simp only [stampedIn, decide_eq_true_eq, hf] at hs
    exact hage.1 hs.symm
  · rw [ht, nil_append]
    exact hkept
  · ext id
    rw [hn, ht, nil_append, h.held, Finset.mem_sdiff, Finset.mem_sdiff, List.mem_toFinset,
      List.mem_toFinset, List.mem_toFinset, List.mem_toFinset, mem_append, hsplit.mem_iff,
      mem_append]
    constructor
    · rintro ⟨⟨h | h | h, hnt⟩, hng⟩
      · exact absurd h hnt
      · exact absurd h hng
      · exact h
    · intro hid
      have hin := hsplit.mem_iff.mpr (mem_append_right _ hid)
      exact ⟨⟨.inr (.inr hid), fun ht => hapart ht hin⟩, fun hg => hgone hg hid⟩
  · intro key node hk
    rw [hf]
    exact (staysAfter_age (hstay key node hk)).2

end LayoutEngine

end GpuiFast
