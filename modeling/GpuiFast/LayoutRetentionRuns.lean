import GpuiFast.LayoutRetentionHolds

namespace GpuiFast

open List

inductive LayoutOp where
  | claim (key : Option LayoutKey)
  /-- A new node, retained under `key` or transient. -/
  | retain (key : Option LayoutKey)
  | setChildren (id : LayoutId) (children : List LayoutId)
  | applyChildren (id : LayoutId) (children : List LayoutId)
  | keepRetained (keys : List LayoutKey)
  | adoptClaimed (keys : List LayoutKey)
  | tryKeepRetained (keys : List LayoutKey)
  | releaseKept (keys : List LayoutKey)
  | recordClaimedKeys
  | finishRecordingClaimedKeys (start : ℕ)
  | enterListRow
  | leaveListRow
  | endFrame

def Claim.handed : Claim → List (LayoutKey × LayoutId)
  | .reused key id => [(key, id)]
  | .vacant _ => []
  | .unkeyed => []

structure LayoutFrame (T : Type*) where
  engine : LayoutEngine T
  kept : List (List LayoutKey)
  claimed : List (LayoutKey × LayoutId)

namespace LayoutFrame

open LayoutEngine

variable {T : Type*} [TaffyTree T]

def new : LayoutFrame T := ⟨.new, [], []⟩

/-- `none` is a panic, the tree having refused what it was asked. -/
def step (s : LayoutFrame T) : LayoutOp → Option (LayoutFrame T)
  | .claim key =>
    some { s with
      engine := (s.engine.claim key).1
      claimed := (s.engine.claim key).2.handed ++ s.claimed }
  | .retain key =>
    s.engine.newLeaf.map (fun leaf =>
      { s with
        engine := leaf.1.retain key leaf.2
        claimed := (key.map (fun k => (k, leaf.2))).toList ++ s.claimed })
  | .setChildren id children =>
    (s.engine.setChildren id children).map (fun e => { s with engine := e })
  | .applyChildren id children =>
    (s.engine.applyChildren id children).map (fun e => { s with engine := e })
  | .keepRetained keys => some { s with engine := s.engine.keepRetained keys }
  | .adoptClaimed keys => some { s with engine := s.engine.adoptClaimed keys }
  | .tryKeepRetained keys =>
    some { s with
      engine := (s.engine.tryKeepRetained keys).1
      kept := if (s.engine.tryKeepRetained keys).2 then keys :: s.kept else s.kept }
  | .releaseKept keys =>
    some { s with engine := s.engine.releaseKept keys, kept := s.kept.erase keys }
  | .recordClaimedKeys => some { s with engine := s.engine.recordClaimedKeys.1 }
  | .finishRecordingClaimedKeys start =>
    some { s with engine := (s.engine.finishRecordingClaimedKeys start).1 }
  | .enterListRow => some { s with engine := { s.engine with listRows := s.engine.listRows + 1 } }
  | .leaveListRow => some { s with engine := { s.engine with listRows := s.engine.listRows - 1 } }
  | .endFrame => s.engine.releaseUnclaimedNodes.map (fun e => ⟨e, [], []⟩)

/-- What the callers see to: the tree has room for a new node and takes the children a node is
given, a node is retained under a key found vacant, and only a list kept and not released since is
released. -/
def Allowed (s : LayoutFrame T) : LayoutOp → Prop
  | .retain key => s.engine.newLeaf.isSome ∧ key.bind s.engine.retained.get? = none
  | .setChildren id children => (s.engine.setChildren id children).isSome
  | .applyChildren id children => (s.engine.applyChildren id children).isSome
  | .releaseKept keys => keys ∈ s.kept
  | _ => True

def run (s : LayoutFrame T) : List LayoutOp → Option (LayoutFrame T)
  | [] => some s
  | op :: ops => (s.step op).bind (fun s' => s'.run ops)

def AllowedRun (s : LayoutFrame T) : List LayoutOp → Prop
  | [] => True
  | op :: ops => s.Allowed op ∧ ∀ s' ∈ s.step op, s'.AllowedRun ops

instance (s : LayoutFrame T) : (op : LayoutOp) → Decidable (s.Allowed op)
  | .retain key =>
    inferInstanceAs (Decidable (s.engine.newLeaf.isSome ∧ key.bind s.engine.retained.get? = none))
  | .setChildren id children =>
    inferInstanceAs (Decidable ((s.engine.setChildren id children).isSome = true))
  | .applyChildren id children =>
    inferInstanceAs (Decidable ((s.engine.applyChildren id children).isSome = true))
  | .releaseKept keys => inferInstanceAs (Decidable (keys ∈ s.kept))
  | .claim _ | .keepRetained _ | .adoptClaimed _
  | .tryKeepRetained _ | .recordClaimedKeys | .finishRecordingClaimedKeys _ | .enterListRow
  | .leaveListRow | .endFrame => .isTrue trivial

instance decidableAllowedRun (s : LayoutFrame T) : (ops : List LayoutOp) → Decidable (s.AllowedRun ops)
  | [] => .isTrue trivial
  | op :: ops =>
    have : ∀ s' : LayoutFrame T, Decidable (s'.AllowedRun ops) := fun s' => decidableAllowedRun s' ops
    inferInstanceAs (Decidable (s.Allowed op ∧ ∀ s' ∈ s.step op, s'.AllowedRun ops))

structure Inv (s : LayoutFrame T) : Prop where
  engine : s.engine.Inv
  claimed : ∀ c ∈ s.claimed, s.engine.Holds c.1 c.2 ∧ s.engine.Stamped c.1
  kept : ∀ keys ∈ s.kept, ∀ key ∈ keys, s.engine.Stamped key
  /-- No node handed to an element is under a key someone may yet release. -/
  apart : ∀ keys ∈ s.kept, ∀ c ∈ s.claimed, c.1 ∉ keys
  disjoint : s.kept.Pairwise Disjoint

lemma inv_new [LawfulTaffyTree T] : (new : LayoutFrame T).Inv where
  engine := ⟨rfl, nodup_nil, LawfulTaffyTree.nodes_new, by simp [new, LayoutEngine.new]⟩
  claimed := by simp [new]
  kept := by simp [new]
  apart := by simp [new]
  disjoint := Pairwise.nil

variable {s s' : LayoutFrame T} {e : LayoutEngine T} {id : LayoutId}

lemma Inv.advance (h : s.Inv) (he : s.engine.Advances e) : Inv { s with engine := e } := by
  obtain ⟨hi, hg⟩ := he h.engine
  refine ⟨hi, ?_, ?_, h.apart, h.disjoint⟩
  · intro c hc
    obtain ⟨hh, hs⟩ := h.claimed c hc
    exact ⟨hg.holds _ _ hh, hg.stamped _ hs⟩
  · exact fun keys hk key hm => hg.stamped _ (h.kept keys hk key hm)

lemma Inv.hand (h : s.Inv) (he : s.engine.Advances e) {k : LayoutKey} (hn : ¬ s.engine.Stamped k)
    (hh : e.Holds k id) (hs : e.Stamped k) :
    Inv { s with engine := e, claimed := (k, id) :: s.claimed } := by
  have h' := h.advance he
  refine ⟨h'.engine, ?_, h'.kept, ?_, h.disjoint⟩
  · intro c hc
    rcases mem_cons.mp hc with rfl | hc
    · exact ⟨hh, hs⟩
    · exact h'.claimed c hc
  · intro keys hk c hc
    rcases mem_cons.mp hc with rfl | hc
    · exact fun hm => hn (h.kept keys hk _ hm)
    · exact h.apart keys hk c hc

lemma Inv.claim (h : s.Inv) (key : Option LayoutKey) :
    Inv { s with
      engine := (s.engine.claim key).1
      claimed := (s.engine.claim key).2.handed ++ s.claimed } := by
  have he := advances_claim s.engine key
  rcases claim_cases s.engine key with ⟨-, hn⟩ | ⟨k, node, hk, hn, hr, hc⟩
  · have hnone : (s.engine.claim key).2.handed = [] := by
      cases hf : (s.engine.claim key).2 with
      | reused k id => exact absurd hf (hn k id)
      | vacant k => rfl
      | unkeyed => rfl
    simpa only [hnone, nil_append] using h.advance he
  · have hg := Grows.of_core hc
    have hnew : ¬ s.engine.Stamped k := by
      rintro ⟨n, hk', hn'⟩
      obtain rfl := Option.some.inj (hk.symm.trans hk')
      exact hn hn'
    have hheld := hg.holds k _ ((Grows.stamp _ k _).holds k _ ⟨node, hk, rfl⟩)
    have hstamped := hg.stamped k (stamped_stamp hk _)
    simpa only [hr, Claim.handed, singleton_append] using h.hand he hnew hheld hstamped

lemma Inv.retain [LawfulTaffyTree T] (h : s.Inv) {key : Option LayoutKey}
    (ha : s.Allowed (.retain key)) : ∃ s', s.step (.retain key) = some s' ∧ s'.Inv := by
  obtain ⟨hleaf, hv⟩ := ha
  obtain ⟨⟨e, id⟩, hleaf⟩ := Option.isSome_iff_exists.mp hleaf
  refine ⟨_, by rw [step, hleaf, Option.map_some], ?_⟩
  cases key with
  | none => exact h.advance (advances_retain hleaf (by simp))
  | some k =>
    replace hv : s.engine.retained.get? k = none := hv
    refine h.hand (advances_retain hleaf (by simpa using hv)) ?_ holds_retain.1 holds_retain.2
    rintro ⟨n, hk, -⟩
    rw [hv] at hk
    cases hk

lemma Inv.tryKeepRetained (h : s.Inv) (keys : List LayoutKey) :
    Inv { s with
      engine := (s.engine.tryKeepRetained keys).1
      kept := if (s.engine.tryKeepRetained keys).2 then keys :: s.kept else s.kept } := by
  by_cases hall : s.engine.allThere keys = true
  · have hthere : ∀ key ∈ keys, (∃ id, s.engine.Holds key id) ∧ ¬ s.engine.Stamped key := by
      intro key hm
      obtain ⟨node, hk, hn⟩ := (Option.any_eq_true _ _).mp (all_eq_true.mp hall key hm)
      refine ⟨⟨node.id, node, hk, rfl⟩, ?_⟩
      rintro ⟨n, hk', hs⟩
      obtain rfl := Option.some.inj (hk.symm.trans hk')
      simp [hs] at hn
    have hcore : (s.engine.tryKeepRetained keys).1.core = (s.engine.keepRetained keys).core := by
      simp only [LayoutEngine.tryKeepRetained, hall, if_true]
      rfl
    have h' := h.advance ((advances_keepRetained s.engine keys).trans (.of_core hcore))
    have hres : (s.engine.tryKeepRetained keys).2 = true := by
      simp [LayoutEngine.tryKeepRetained, hall]
    simp only [hres, if_true]
    refine ⟨h'.engine, h'.claimed, ?_, ?_, ?_⟩
    · intro l hl key hm
      rcases mem_cons.mp hl with rfl | hl
      · obtain ⟨id, hid⟩ := (hthere key hm).1
        exact (Grows.of_core hcore).stamped key (stamped_keepRetained h.engine l hm hid)
      · exact h'.kept l hl key hm
    · intro l hl c hc
      rcases mem_cons.mp hl with rfl | hl
      · exact fun hm => (hthere _ hm).2 (h.claimed c hc).2
      · exact h.apart l hl c hc
    · refine Pairwise.cons ?_ h.disjoint
      exact fun l hl key hm hm' => (hthere key hm).2 (h.kept l hl key hm')
  · simpa [LayoutEngine.tryKeepRetained, hall] using h

lemma Inv.releaseKept (h : s.Inv) {keys : List LayoutKey} (ha : s.Allowed (.releaseKept keys)) :
    ∃ s', s.step (.releaseKept keys) = some s' ∧ s'.Inv := by
  refine ⟨_, rfl, ?_⟩
  obtain ⟨hi, hh, hs⟩ := releaseKept_spec h.engine keys
  have hperm : s.kept.Perm (keys :: s.kept.erase keys) := perm_cons_erase ha
  obtain ⟨hfirst, hrest⟩ := pairwise_cons.mp
    ((hperm.pairwise_iff (fun hd => hd.symm)).mp h.disjoint)
  refine ⟨hi, ?_, ?_, ?_, hrest⟩
  · intro c hc
    obtain ⟨hch, hcs⟩ := h.claimed c hc
    exact ⟨hh _ _ hch, hs _ (h.apart keys ha c hc) hcs⟩
  · intro l hl key hm
    exact hs key (fun hk => hfirst l hl hk hm) (h.kept l (mem_of_mem_erase hl) key hm)
  · exact fun l hl => h.apart l (mem_of_mem_erase hl)

lemma Inv.endFrame [LawfulTaffyTree T] (h : s.Inv) : ∃ s', s.step .endFrame = some s' ∧ s'.Inv := by
  obtain ⟨e', he', -⟩ := releaseUnclaimedNodes_spec h.engine
  refine ⟨⟨e', [], []⟩, by simp [step, he'], h.engine.endFrame he', ?_, ?_, ?_, Pairwise.nil⟩
  all_goals simp

lemma Inv.step [LawfulTaffyTree T] (h : s.Inv) {op : LayoutOp} (ha : s.Allowed op) :
    ∃ s', s.step op = some s' ∧ s'.Inv := by
  cases op with
  | claim key => exact ⟨_, rfl, h.claim key⟩
  | retain key => exact h.retain ha
  | setChildren id children =>
    obtain ⟨e, he⟩ := Option.isSome_iff_exists.mp ha
    exact ⟨_, by rw [LayoutFrame.step, he, Option.map_some],
      h.advance (.of_core (core_setChildren he))⟩
  | applyChildren id children =>
    obtain ⟨e, he⟩ := Option.isSome_iff_exists.mp ha
    exact ⟨_, by rw [LayoutFrame.step, he, Option.map_some],
      h.advance (.of_core (core_applyChildren he))⟩
  | keepRetained keys => exact ⟨_, rfl, h.advance (advances_keepRetained _ keys)⟩
  | adoptClaimed keys => exact ⟨_, rfl, h.advance (advances_adoptClaimed _ keys)⟩
  | tryKeepRetained keys => exact ⟨_, rfl, h.tryKeepRetained keys⟩
  | releaseKept keys => exact h.releaseKept ha
  | recordClaimedKeys => exact ⟨_, rfl, h.advance (.of_core rfl)⟩
  | finishRecordingClaimedKeys start =>
    refine ⟨_, rfl, h.advance (.of_core ?_)⟩
    simp only [LayoutEngine.finishRecordingClaimedKeys]
    split <;> rfl
  | enterListRow => exact ⟨_, rfl, h.advance (.of_core rfl)⟩
  | leaveListRow => exact ⟨_, rfl, h.advance (.of_core rfl)⟩
  | endFrame => exact h.endFrame

lemma Inv.run [LawfulTaffyTree T] (h : s.Inv) (ops : List LayoutOp) (ha : s.AllowedRun ops) :
    ∃ s', s.run ops = some s' ∧ s'.Inv := by
  induction ops generalizing s with
  | nil => exact ⟨s, rfl, h⟩
  | cons op ops ih =>
    obtain ⟨s₁, hs₁, hi₁⟩ := h.step ha.1
    obtain ⟨s₂, hs₂, hi₂⟩ := ih hi₁ (ha.2 s₁ hs₁)
    exact ⟨s₂, by simp [LayoutFrame.run, hs₁, hs₂], hi₂⟩

/-- In every run the callers allow no removal fails, the counter is the number of nodes stamped
with the frame, and ending the frame there removes exactly the transient nodes and the retained
ones neither claimed in it nor lingering, none of them handed out in it; the tree is left with one
node for each key. -/
theorem run_retention [LawfulTaffyTree T] (ops : List LayoutOp)
    (h : (new : LayoutFrame T).AllowedRun ops) :
    ∃ s, (new : LayoutFrame T).run ops = some s ∧
      s.engine.claimedThisFrame = s.engine.retained.count (stampedIn s.engine.frame) ∧
      ∃ e, s.engine.releaseUnclaimedNodes = some e ∧
        (∀ id, id ∈ TaffyTree.nodes e.taffy ↔ id ∈ TaffyTree.nodes s.engine.taffy ∧
          ¬ (id ∈ s.engine.transient ∨ ∃ key node, s.engine.retained.get? key = some node ∧
            node.id = id ∧ node.claimedInFrame ≠ s.engine.frame ∧
            ¬ (node.lingers ∧
              s.engine.frame - node.claimedInFrame < LIST_ROW_NODE_LINGER_FRAMES))) ∧
        e.retainedIds.Nodup ∧ TaffyTree.nodes e.taffy = e.retainedIds.toFinset ∧
        ∀ key id, (key, id) ∈ s.claimed → e.Holds key id ∧ id ∈ TaffyTree.nodes e.taffy := by
  obtain ⟨s, hs, hi⟩ := inv_new.run ops h
  obtain ⟨e, he, hc⟩ := releaseUnclaimedNodes_spec hi.engine
  obtain ⟨-, hdistinct, hheld, -⟩ := hi.engine.endFrame he
  simp only [core, Prod.mk.injEq] at hc
  obtain ⟨hn, hr, ht, -, -⟩ := hc
  rw [ht, nil_append] at hdistinct hheld
  refine ⟨s, hs, hi.engine.counted, e, he, ?_, hdistinct, hheld, ?_⟩
  · intro id
    rw [hn, Finset.mem_sdiff, Finset.mem_sdiff, List.mem_toFinset, List.mem_toFinset, mem_goneIds]
    simp only [not_or, and_assoc]
  · intro key id hm
    obtain ⟨⟨node, hk, hid⟩, node', hk', hst⟩ := hi.claimed _ hm
    obtain rfl := Option.some.inj (hk.symm.trans hk')
    have hkept : e.retained.get? key = some node := by
      rw [hr, KeyMap.get?_filter, hk, Option.filter_some, if_pos]
      simp [staysAfter, hst]
    refine ⟨⟨node, hkept, hid⟩, ?_⟩
    rw [hheld, List.mem_toFinset]
    exact mem_map.mpr ⟨(key, node), KeyMap.get?_eq_some.mp hkept, hid⟩

/-- A tree kept in tables, whose identifiers count up. -/
structure TableTree where
  ids : Finset LayoutId
  parents : LayoutId → Option LayoutId
  children : LayoutId → List LayoutId
  made : LayoutId

namespace TableTree

def detach (t : TableTree) (child : LayoutId) : TableTree :=
  { t with
    parents := Function.update t.parents child none
    children := fun id => (t.children id).filter (· ≠ child) }

instance : TaffyTree TableTree where
  new := ⟨∅, fun _ => none, fun _ => [], 0⟩
  newLeaf t :=
    if t.made ∈ t.ids then none
    else some ({ t with
      ids := insert t.made t.ids
      parents := Function.update t.parents t.made none
      children := Function.update t.children t.made []
      made := t.made + 1 }, t.made)
  parent t id := t.parents id
  childIds t id := t.children id
  setChildren t id children :=
    if id ∈ t.ids ∧ children.Nodup ∧ children.toFinset ⊆ t.ids then
      let t := (t.children id ++ children).foldl detach t
      some { t with
        parents := fun child => if child ∈ children then some id else t.parents child
        children := Function.update t.children id children }
    else none
  remove t id :=
    if id ∈ t.ids then
      let t := (t.children id ++ [id]).foldl detach t
      some { t with ids := t.ids.erase id }
    else none
  nodes t := t.ids

lemma ids_detach (children : List LayoutId) (t : TableTree) :
    (children.foldl detach t).ids = t.ids := by
  induction children generalizing t with
  | nil => rfl
  | cons child children ih => exact ih (t.detach child)

instance : LawfulTaffyTree TableTree where
  nodes_new := rfl
  newLeaf_spec t t' id h := by
    obtain ⟨hmade, heq⟩ := Option.ite_none_left_eq_some.mp h
    obtain ⟨rfl, rfl⟩ := Prod.mk.inj (Option.some.inj heq)
    exact ⟨hmade, rfl⟩
  nodes_setChildren t t' id children h := by
    obtain ⟨-, h⟩ := Option.ite_none_right_eq_some.mp h
    obtain rfl := Option.some.inj h
    exact ids_detach _ t
  remove_spec t id h := by
    refine ⟨_, if_pos h, ?_⟩
    exact congrArg (Finset.erase · id) (ids_detach _ t)

end TableTree

def someFrames : List LayoutOp :=
  [.retain (some 1), .enterListRow, .retain (some 2), .leaveListRow, .claim (some 2),
    .retain none, .setChildren 0 [1, 2], .endFrame, .tryKeepRetained [1, 2, 2],
    .releaseKept [1, 2, 2], .claim (some 1), .endFrame, .claim (some 3), .retain (some 3)]

theorem run_retention_someFrames : (new : LayoutFrame TableTree).AllowedRun someFrames ∧
    ∃ s, (new : LayoutFrame TableTree).run someFrames = some s ∧
      s.engine.claimedThisFrame = s.engine.retained.count (stampedIn s.engine.frame) ∧
      ∃ e, s.engine.releaseUnclaimedNodes = some e ∧ e.retainedIds.Nodup ∧
        TaffyTree.nodes e.taffy = e.retainedIds.toFinset := by
  have h : (new : LayoutFrame TableTree).AllowedRun someFrames := by decide
  obtain ⟨s, hs, hc, e, he, -, hd, hn, -⟩ := run_retention someFrames h
  exact ⟨h, s, hs, hc, e, he, hd, hn⟩

end LayoutFrame

end GpuiFast
