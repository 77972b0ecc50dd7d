import GpuiFast.SumTreeEdit
import GpuiFast.SumTreeSeek

namespace GpuiFast

open List Option

variable {T S K : Type} [KeyedItem T K] [LinearOrder K]

open SumTree

def StrictKeys (items : List T) : Prop :=
  items.Pairwise (fun a b => KeyedItem.key a < KeyedItem.key b)

def Edit.inserted : Edit T K → List T
  | insert item => [item]
  | remove _ => []

def itemAt (items : List T) (key : K) : Option T :=
  items.find? (fun item => KeyedItem.key item = key)

omit [LinearOrder K] in
lemma Edit.key_inserted {edit : Edit T K} {item : T} (h : item ∈ edit.inserted) :
    KeyedItem.key item = edit.key := by
  cases edit with
  | insert inserted => rw [mem_singleton.mp h, Edit.key]
  | remove key => cases h

lemma StrictKeys.eq_of_key {items : List T} (h : StrictKeys items) {a b : T} (ha : a ∈ items)
    (hb : b ∈ items) (hkey : KeyedItem.key a = KeyedItem.key b) : a = b := by
  induction items with
  | nil => cases ha
  | cons item items ih =>
    obtain ⟨hfirst, hrest⟩ := pairwise_cons.mp h
    rcases mem_cons.mp ha with rfl | ha'
    · rcases mem_cons.mp hb with rfl | hb'
      · rfl
      · exact absurd hkey (hfirst b hb').ne
    · rcases mem_cons.mp hb with rfl | hb'
      · exact absurd hkey (hfirst a ha').ne'
      · exact ih hrest ha' hb'

lemma StrictKeys.itemAt_eq_some {items : List T} (h : StrictKeys items) {key : K} {item : T} :
    itemAt items key = some item ↔ item ∈ items ∧ KeyedItem.key item = key := by
  constructor
  · intro hfind
    exact ⟨mem_of_find?_eq_some hfind, by simpa using find?_some hfind⟩
  · rintro ⟨hmem, rfl⟩
    obtain ⟨found, hfound⟩ : ∃ found, itemAt items (KeyedItem.key item) = some found :=
      isSome_iff_exists.mp (find?_isSome.mpr ⟨item, hmem, by simp⟩)
    have hkey : KeyedItem.key found = KeyedItem.key item := by simpa using find?_some hfound
    rw [hfound, h.eq_of_key (mem_of_find?_eq_some hfound) hmem hkey]

/-- Whether a list of items is what edits of distinct keys leave of another one, and gave back what
they replaced or removed. -/
structure Applied (edits : List (Edit T K)) (items items' returned : List T) : Prop where
  strict : StrictKeys items'
  mem : ∀ item, item ∈ items' ↔ (∃ edit ∈ edits, item ∈ edit.inserted) ∨
    (item ∈ items ∧ ∀ edit ∈ edits, KeyedItem.key item ≠ edit.key)
  returned : returned = edits.filterMap (fun edit => itemAt items edit.key)

lemma applied_nil {items : List T} (h : StrictKeys items) :
    Applied ([] : List (Edit T K)) items items [] where
  strict := h
  mem := by simp
  returned := rfl

lemma applied_single {edit : Edit T K} {low high : List T} {found : Option T}
    (hkeys : StrictKeys (low ++ found.toList ++ high))
    (hlow : ∀ item ∈ low, KeyedItem.key item < edit.key)
    (hfound : ∀ item ∈ found, KeyedItem.key item = edit.key)
    (hhigh : ∀ item ∈ high, edit.key < KeyedItem.key item) :
    Applied [edit] (low ++ found.toList ++ high) (low ++ edit.inserted ++ high) found.toList where
  strict := by
    have hparts := pairwise_append.mp hkeys
    refine pairwise_append.mpr ⟨pairwise_append.mpr
      ⟨(pairwise_append.mp hparts.1).1, ?_, ?_⟩, hparts.2.1, ?_⟩
    · cases edit with
      | insert => exact pairwise_singleton _ _
      | remove => exact List.Pairwise.nil
    · intro a ha b hb
      rw [Edit.key_inserted hb]
      exact hlow a ha
    · intro a ha b hb
      rcases mem_append.mp ha with ha | ha
      · exact (hlow a ha).trans (hhigh b hb)
      · rw [Edit.key_inserted ha]
        exact hhigh b hb
  mem := by
    intro item
    have hmid : item ∈ found.toList → KeyedItem.key item = edit.key := fun h =>
      hfound item (mem_toList.mp h)
    have hne : item ∈ low ++ high → KeyedItem.key item ≠ edit.key := by
      intro h
      rcases mem_append.mp h with h | h
      · exact (hlow item h).ne
      · exact (hhigh item h).ne'
    simp only [mem_append, mem_singleton, forall_eq, exists_eq_left] at hne ⊢
    tauto
  returned := by
    have hat : itemAt (low ++ found.toList ++ high) edit.key = found := by
      ext item
      rw [hkeys.itemAt_eq_some]
      constructor
      · rintro ⟨hmem, hkey⟩
        rcases mem_append.mp hmem with hmem | hmem
        · rcases mem_append.mp hmem with hmem | hmem
          · exact absurd hkey (hlow item hmem).ne
          · exact mem_toList.mp hmem
        · exact absurd hkey (hhigh item hmem).ne'
      · intro hitem
        exact ⟨by simp [hitem], hfound item hitem⟩
    rw [filterMap_cons, hat, filterMap_nil]
    cases found <;> rfl

lemma Applied.mem_single {edit : Edit T K} {items items' returned : List T}
    (h : Applied [edit] items items' returned) (item : T) :
    item ∈ items' ↔ item ∈ edit.inserted ∨ (item ∈ items ∧ KeyedItem.key item ≠ edit.key) := by
  simpa using h.mem item

lemma Applied.trans {edit : Edit T K} {edits : List (Edit T K)}
    {items items' items'' returned returned' : List T} (h : Applied [edit] items items' returned)
    (h' : Applied edits items' items'' returned') (hkeys : StrictKeys items)
    (hne : ∀ other ∈ edits, other.key ≠ edit.key) :
    Applied (edit :: edits) items items'' (returned ++ returned') where
  strict := h'.strict
  mem := by
    intro item
    have hinserted : item ∈ edit.inserted → ∀ other ∈ edits, KeyedItem.key item ≠ other.key :=
      fun hin other hother => Edit.key_inserted hin ▸ (hne other hother).symm
    rw [h'.mem, h.mem_single]
    simp only [mem_cons, exists_eq_or_imp, forall_eq_or_imp]
    constructor
    · rintro (hlater | ⟨hnow | ⟨hmem, hkey⟩, hother⟩)
      · exact .inl (.inr hlater)
      · exact .inl (.inl hnow)
      · exact .inr ⟨hmem, hkey, hother⟩
    · rintro ((hnow | hlater) | ⟨hmem, hkey, hother⟩)
      · exact .inr ⟨.inl hnow, hinserted hnow⟩
      · exact .inl hlater
      · exact .inr ⟨.inr ⟨hmem, hkey⟩, hother⟩
  returned := by
    have hat : ∀ other ∈ edits, itemAt items' other.key = itemAt items other.key := by
      intro other hother
      ext item
      rw [h.strict.itemAt_eq_some, hkeys.itemAt_eq_some, h.mem_single]
      constructor
      · rintro ⟨hin | ⟨hmem, -⟩, hkey⟩
        · exact absurd (hkey.symm.trans (Edit.key_inserted hin)) (hne other hother)
        · exact ⟨hmem, hkey⟩
      · rintro ⟨hmem, hkey⟩
        exact ⟨.inr ⟨hmem, hkey ▸ hne other hother⟩, hkey⟩
    rw [h'.returned, filterMap_congr hat, h.returned]
    exact (filterMap_append (l := [edit])).symm

lemma Applied.perm {edits edits' : List (Edit T K)} {items left left' returned returned' : List T}
    (h : Applied edits items left returned) (h' : Applied edits' items left' returned')
    (hperm : edits.Perm edits') : left = left' ∧ returned.Perm returned' := by
  constructor
  · refine List.Pairwise.eq_of_mem_iff h.strict h'.strict (fun item => ?_)
    rw [h.mem, h'.mem]
    simp only [hperm.mem_iff]
  · rw [h.returned, h'.returned]
    exact hperm.filterMap _

def lastKey (S : Type) [Dimension K S] (items : List T) : K :=
  (items.getLast?.map KeyedItem.key).getD (Dimension.zero S)

variable [Summary S] [Item T S] [Dimension K S]

/-- The laws of keys as a dimension: no key is below the one a cursor starts at, and summaries of
items whose keys increase count up to the last of them. -/
class LawfulKeyed (T S K : Type) [KeyedItem T K] [LinearOrder K] [Summary S] [Item T S]
    [Dimension K S] : Prop where
  zero_le (key : K) : Dimension.zero S ≤ key
  addSummary_total (before segment : List T) (item : T) :
    StrictKeys (before ++ segment ++ [item]) →
      Dimension.addSummary (lastKey S before) (total (segment ++ [item]) : S) = KeyedItem.key item

omit [LinearOrder K] [Summary S] [Item T S] in
lemma lastKey_nil : lastKey S ([] : List T) = Dimension.zero S := rfl

omit [LinearOrder K] [Summary S] [Item T S] in
lemma lastKey_concat (items : List T) (item : T) :
    lastKey S (items ++ [item]) = KeyedItem.key item := by
  rw [lastKey, getLast?_concat]
  rfl

variable [LawfulKeyed T S K]

lemma measures_lastKey {items : List T} (hkeys : StrictKeys items) :
    Cursor.Measures items (lastKey S : List T → K) where
  zero := lastKey_nil
  add := by
    intro before segment after hitems hne
    obtain ⟨segment, item, rfl⟩ := (eq_nil_or_concat' segment).resolve_left hne
    rw [hitems, ← append_assoc] at hkeys
    rw [LawfulKeyed.addSummary_total before segment item (pairwise_append.mp hkeys).1,
      ← append_assoc, lastKey_concat]

lemma lastKey_le {before : List T} {key : K} (h : ∀ item ∈ before, KeyedItem.key item ≤ key) :
    lastKey S before ≤ key := by
  rcases eq_nil_or_concat' before with rfl | ⟨before, item, rfl⟩
  · exact LawfulKeyed.zero_le T key
  · rw [lastKey_concat]
    exact h item (mem_append_right _ (mem_singleton_self item))

lemma passes_compare (key position : K) :
    Bias.left.passes (compare key position) = true ↔ position < key := by
  rw [Bias.passes, ← compare_gt_iff_gt]
  simp

variable [LawfulSummary S]

open Cursor

section Cursors

variable {tree : SumTree T S} {c : Cursor T S K} {before left : List T} {key : K}

omit [LawfulKeyed T S K] [LawfulSummary S] in
lemma Cursor.Moves.by_key {R : Type} {Holds : R → List T → Prop}
    {result : Option (Cursor T S K × R)}
    (h : Moves Holds (compare key) .left tree (lastKey S) before left result)
    (hkeys : StrictKeys left) :
    ∃ low rest c r, left = low ++ rest ∧ result = some (c, r) ∧
      At tree (lastKey S) c (before ++ low) rest ∧ Holds r low ∧
      (∀ item ∈ low, KeyedItem.key item < key) ∧ ∀ item ∈ rest, key ≤ KeyedItem.key item := by
  obtain ⟨low, rest, c, r, rfl, hresult, hat, hholds, hpasses, hstops⟩ := h
  refine ⟨low, rest, c, r, rfl, hresult, hat, hholds, ?_, ?_⟩
  · intro item hitem
    rcases eq_nil_or_concat' low with rfl | ⟨low, last, rfl⟩
    · cases hitem
    · have hlast := hpasses (concat_ne_nil _ _)
      rw [passes_compare, ← append_assoc, lastKey_concat] at hlast
      rcases mem_append.mp hitem with hitem | hitem
      · have hlow := (pairwise_append.mp (pairwise_append.mp hkeys).1).2.2
        exact (hlow item hitem last (mem_singleton_self last)).trans hlast
      · rwa [mem_singleton.mp hitem]
  · intro item hitem
    cases rest with
    | nil => cases hitem
    | cons first rest =>
      have hfirst : key ≤ KeyedItem.key first := by
        have hstop := hstops first rfl
        rwa [← Bool.not_eq_true, passes_compare, lastKey_concat, not_lt] at hstop
      rcases mem_cons.mp hitem with rfl | hitem
      · exact hfirst
      · have hrest := (pairwise_cons.mp (pairwise_append.mp hkeys).2.1).1
        exact hfirst.trans (hrest item hitem).le

lemma Cursor.At.takeItem (h : At tree (lastKey S) c before left) (hkeys : StrictKeys tree.items)
    (hheight : tree.height < STACK_CAPACITY) (hleft : ∀ item ∈ left, key ≤ KeyedItem.key item) :
    ∃ found high c', c.takeItem key left.head? = some (c', found) ∧ left = found.toList ++ high ∧
      At tree (lastKey S) c' (before ++ found.toList) high ∧
      (∀ item ∈ found, KeyedItem.key item = key) ∧ ∀ item ∈ high, key < KeyedItem.key item := by
  cases left with
  | nil =>
    refine ⟨none, [], c, rfl, rfl, ?_, fun item hitem => (by cases hitem),
      fun item hitem => (by cases hitem)⟩
    rwa [toList_none, append_nil]
  | cons item left =>
    have hleftKeys : StrictKeys (item :: left) := by
      rw [h.items] at hkeys
      exact (pairwise_append.mp hkeys).2.1
    have hrest := (pairwise_cons.mp hleftKeys).1
    by_cases hkey : KeyedItem.key item = key
    · obtain ⟨c', hnext, hat⟩ := h.next (measures_lastKey hkeys) hheight
      refine ⟨some item, left, c', ?_, rfl, hat, ?_, ?_⟩
      · rw [head?_cons, Cursor.takeItem, if_pos hkey, hnext]
        rfl
      · intro found hfound
        rwa [← some.inj hfound]
      · intro other hother
        rw [← hkey]
        exact hrest other hother
    · have hlt : key < KeyedItem.key item :=
        lt_of_le_of_ne (hleft item mem_cons_self) (Ne.symm hkey)
      refine ⟨none, item :: left, c, ?_, rfl, ?_, fun item hitem => (by cases hitem), ?_⟩
      · rw [head?_cons, Cursor.takeItem, if_neg hkey]
      · rwa [toList_none, append_nil]
      · intro other hother
        rcases mem_cons.mp hother with rfl | hother
        · exact hlt
        · exact hlt.trans (hrest other hother)

end Cursors

lemma slice_takeItem {tree : SumTree T S} (hvalid : tree.Valid) (hkeys : StrictKeys tree.items)
    (hheight : tree.height < STACK_CAPACITY) (key : K) :
    ∃ low found high c newTree c', (Cursor.new tree : Cursor T S K).slice (compare key) .left =
        some (c, newTree) ∧ c.item.bind (c.takeItem key) = some (c', found) ∧
      tree.items = low ++ found.toList ++ high ∧ newTree.Valid ∧ newTree.items = low ∧
      At tree (lastKey S) c' (low ++ found.toList) high ∧
      (∀ item ∈ low, KeyedItem.key item < key) ∧ (∀ item ∈ found, KeyedItem.key item = key) ∧
      ∀ item ∈ high, key < KeyedItem.key item := by
  have hslice : Moves (fun slice passed => slice.Valid ∧ slice.items = passed) (compare key) .left
      tree (lastKey S) [] tree.items ((Cursor.new tree : Cursor T S K).slice (compare key) .left) :=
    (fresh_new tree).slice hvalid (measures_lastKey hkeys) hheight
      (compare_ge_iff_ge.mpr (LawfulKeyed.zero_le T key))
  obtain ⟨low, rest, c, newTree, hitems, hresult, hat, ⟨hnewValid, hnew⟩, hlow, hrest⟩ :=
    hslice.by_key hkeys
  rw [nil_append] at hat
  obtain ⟨found, high, c', htake, rfl, hat', hfound, hhigh⟩ :=
    hat.takeItem hkeys hheight hrest
  refine ⟨low, found, high, c, newTree, c', hresult, ?_, ?_, hnewValid, hnew, hat', hlow, hfound,
    hhigh⟩
  · rw [hat.item]
    exact htake
  · rw [hitems, append_assoc]

lemma applyEdit_spec {tree : SumTree T S} (hvalid : tree.Valid) (hkeys : StrictKeys tree.items)
    (hheight : tree.height < STACK_CAPACITY) (edit : Edit T K) :
    ∃ tree' returned, tree.applyEdit edit = some (tree', returned) ∧ tree'.Valid ∧
      Applied [edit] tree.items tree'.items returned.toList := by
  obtain ⟨low, found, high, c, newTree, c', hslice, htake, hitems, hnewValid, hnew, hat, hlow,
    hfound, hhigh⟩ := slice_takeItem hvalid hkeys hheight edit.key
  obtain ⟨c'', suffix, hsuffix, hsuffixValid, hsuffixItems⟩ :=
    hat.suffix (measures_lastKey hkeys) hheight
  obtain ⟨item, hitem, htake⟩ := bind_eq_some_iff.mp htake
  have happlied := applied_single (hitems ▸ hkeys) hlow hfound hhigh
  rw [← hitems] at happlied
  cases edit with
  | insert inserted =>
    rw [Edit.key] at hslice htake
    obtain ⟨pushed, hpush, hpushedValid, hpushedItems⟩ := push_spec hnewValid inserted
    obtain ⟨tree', happend, htreeValid, htreeItems⟩ := append_spec hpushedValid hsuffixValid
    refine ⟨tree', found, ?_, htreeValid, ?_⟩
    · rw [applyEdit, insertOrReplace]
      simp only [hslice, hitem, htake, hpush, hsuffix, happend, bind_eq_bind, bind_some]
      rfl
    · rw [htreeItems, hpushedItems, hnew, hsuffixItems]
      exact happlied
  | remove key =>
    rw [Edit.key] at hslice htake
    obtain ⟨tree', happend, htreeValid, htreeItems⟩ := append_spec hnewValid hsuffixValid
    refine ⟨tree', found, ?_, htreeValid, ?_⟩
    · rw [applyEdit, remove]
      simp only [hslice, hitem, htake, hsuffix, happend, bind_eq_bind, bind_some]
      rfl
    · rw [htreeItems, hnew, hsuffixItems]
      rwa [Edit.inserted, append_nil] at happlied

lemma applyEdits_spec {tree : SumTree T S} (hvalid : tree.Valid) (hkeys : StrictKeys tree.items)
    {edits : List (Edit T K)} (hnodup : (edits.map Edit.key).Nodup)
    (hheights : ∀ count < edits.length, ∀ r, tree.applyEdits (edits.take count) = some r →
      r.1.height < STACK_CAPACITY) :
    ∃ tree' returned, tree.applyEdits edits = some (tree', returned) ∧ tree'.Valid ∧
      Applied edits tree.items tree'.items returned := by
  induction edits generalizing tree with
  | nil => exact ⟨tree, [], rfl, hvalid, applied_nil hkeys⟩
  | cons edit edits ih =>
    obtain ⟨hne, hnodup⟩ := nodup_cons.mp hnodup
    obtain ⟨tree', returned, hedit, hvalid', happlied⟩ :=
      applyEdit_spec hvalid hkeys (hheights 0 (Nat.succ_pos _) (tree, []) rfl) edit
    obtain ⟨tree'', returned', hedits, hvalid'', happlied'⟩ := ih hvalid' happlied.strict hnodup (by
      intro count hcount r hr
      refine hheights (count + 1) (Nat.succ_lt_succ hcount) (r.1, returned.toList ++ r.2) ?_
      rw [take_succ_cons, applyEdits, hedit]
      simp only [bind_eq_bind, bind_some, hr]
      rfl)
    refine ⟨tree'', returned.toList ++ returned', ?_, hvalid'',
      happlied.trans happlied' hkeys ?_⟩
    · rw [applyEdits, hedit]
      simp only [bind_eq_bind, bind_some, hedits]
      rfl
    · intro other hother heq
      exact hne (heq ▸ mem_map_of_mem hother)

def SumTree.EditState.items (state : EditState T S K) : List T :=
  state.newTree.items ++ state.bufferedItems

structure Editing (tree : SumTree T S) (state : EditState T S K) (before left : List T) : Prop where
  cursor : At tree (lastKey S) state.cursor before left
  valid : state.newTree.Valid

lemma Editing.advance {tree : SumTree T S} {state : EditState T S K} {before left : List T}
    (h : Editing tree state before left) (hkeys : StrictKeys tree.items)
    (hheight : tree.height < STACK_CAPACITY) {key : K}
    (hbefore : ∀ item ∈ before, KeyedItem.key item ≤ key) :
    ∃ low rest state', state.advance key left.head? = some (state', rest.head?) ∧
      left = low ++ rest ∧ Editing tree state' (before ++ low) rest ∧
      state'.items = state.items ++ low ∧ state'.removed = state.removed ∧
      (∀ item ∈ low, KeyedItem.key item < key) ∧ ∀ item ∈ rest, key ≤ KeyedItem.key item := by
  have hleftKeys : StrictKeys left := by
    rw [h.cursor.items] at hkeys
    exact (pairwise_append.mp hkeys).2.1
  by_cases hge : ∀ item ∈ left, key ≤ KeyedItem.key item
  · refine ⟨[], left, state, ?_, rfl, ?_, (append_nil _).symm, rfl,
      fun item hitem => (by cases hitem), hge⟩
    · cases left with
      | nil => rfl
      | cons first left =>
        rw [head?_cons, EditState.advance, if_neg (not_lt.mpr (hge first mem_cons_self))]
    · rwa [append_nil]
  · cases left with
    | nil => exact absurd (fun item hitem => (by cases hitem)) hge
    | cons first left =>
      have hlt : KeyedItem.key first < key := by
        by_contra hnot
        refine hge (fun item hitem => ?_)
        rcases mem_cons.mp hitem with rfl | hitem
        · exact not_lt.mp hnot
        · exact (not_lt.mp hnot).trans ((pairwise_cons.mp hleftKeys).1 item hitem).le
      obtain ⟨flushed, hflush, hflushedValid, hflushed⟩ := extend_spec h.valid state.bufferedItems
      have hslice : Moves (fun slice passed => slice.Valid ∧ slice.items = passed) (compare key)
          .left tree (lastKey S) before (first :: left) (state.cursor.slice (compare key) .left) :=
        h.cursor.slice (measures_lastKey hkeys) hheight
          (compare_ge_iff_ge.mpr (lastKey_le hbefore))
      obtain ⟨low, rest, c, slice, hleft, hresult, hat, ⟨hsliceValid, hsliceItems⟩, hlow, hrest⟩ :=
        hslice.by_key hleftKeys
      obtain ⟨newTree, happend, hnewValid, hnew⟩ := append_spec hflushedValid hsliceValid
      refine ⟨low, rest, ⟨c, newTree, [], state.removed⟩, ?_, hleft, ⟨hat, hnewValid⟩, ?_, rfl,
        hlow, hrest⟩
      · rw [head?_cons, EditState.advance, if_pos hlt]
        simp only [hflush, hresult, happend, hat.item, bind_eq_bind, bind_some]
        rfl
      · rw [EditState.items, EditState.items, hnew, hflushed, hsliceItems, append_nil]

lemma Editing.step {tree : SumTree T S} {state : EditState T S K} {before left : List T}
    (h : Editing tree state before left) (hkeys : StrictKeys tree.items)
    (hheight : tree.height < STACK_CAPACITY) (hstate : StrictKeys (state.items ++ left))
    {edit : Edit T K} (hbefore : ∀ item ∈ before, KeyedItem.key item ≤ edit.key)
    (hitems : ∀ item ∈ state.items, KeyedItem.key item < edit.key) :
    ∃ before' left' state' returned, editStep state edit = some state' ∧
      Editing tree state' before' left' ∧ state'.removed = state.removed ++ returned ∧
      Applied [edit] (state.items ++ left) (state'.items ++ left') returned ∧
      (∀ item ∈ before', KeyedItem.key item ≤ edit.key) ∧
      ∀ item ∈ state'.items, KeyedItem.key item ≤ edit.key := by
  obtain ⟨low, rest, moved, hadvance, rfl, hmoved, hmovedItems, hremoved, hlow, hrest⟩ :=
    h.advance hkeys hheight hbefore
  obtain ⟨found, high, c, htake, rfl, hat, hfound, hhigh⟩ :=
    hmoved.cursor.takeItem hkeys hheight hrest
  have hbelow : ∀ item ∈ moved.items, KeyedItem.key item < edit.key := by
    intro item hitem
    rw [hmovedItems] at hitem
    exact (mem_append.mp hitem).elim (hitems item) (hlow item)
  have hall : state.items ++ (low ++ (found.toList ++ high)) =
      moved.items ++ found.toList ++ high := by
    rw [hmovedItems]
    simp only [append_assoc]
  have happlied := applied_single (hall ▸ hstate) hbelow hfound hhigh
  rw [← hall] at happlied
  have hbefore' : ∀ item ∈ before ++ low ++ found.toList, KeyedItem.key item ≤ edit.key := by
    intro item hitem
    rcases mem_append.mp hitem with hitem | hitem
    · exact (mem_append.mp hitem).elim (hbefore item) (fun hitem => (hlow item hitem).le)
    · exact (hfound item (mem_toList.mp hitem)).le
  have hstep : editStep state edit = some ⟨c, moved.newTree, moved.bufferedItems ++ edit.inserted,
      moved.removed ++ found.toList⟩ := by
    cases edit with
    | insert item =>
      rw [editStep]
      simp only [h.cursor.item, hadvance, htake, bind_eq_bind, bind_some]
      rfl
    | remove key =>
      rw [editStep, Edit.inserted, append_nil]
      simp only [h.cursor.item, hadvance, htake, bind_eq_bind, bind_some]
      rfl
  have hput : EditState.items ⟨c, moved.newTree, moved.bufferedItems ++ edit.inserted,
      moved.removed ++ found.toList⟩ = moved.items ++ edit.inserted := (append_assoc ..).symm
  refine ⟨_, high, _, found.toList, hstep, ⟨hat, hmoved.valid⟩, ?_, ?_, hbefore', ?_⟩
  · exact congrArg (· ++ found.toList) hremoved
  · rw [hput]
    exact happlied
  · intro item hitem
    rw [hput] at hitem
    exact (mem_append.mp hitem).elim (fun hitem => (hbelow item hitem).le)
      (fun hitem => (Edit.key_inserted hitem).le)

lemma Editing.run {tree : SumTree T S} {state : EditState T S K} {before left : List T}
    (h : Editing tree state before left) (hkeys : StrictKeys tree.items)
    (hheight : tree.height < STACK_CAPACITY) {edits : List (Edit T K)}
    (hsorted : edits.Pairwise (fun a b => a.key < b.key))
    (hstate : StrictKeys (state.items ++ left))
    (hbefore : ∀ edit ∈ edits, ∀ item ∈ before, KeyedItem.key item ≤ edit.key)
    (hitems : ∀ edit ∈ edits, ∀ item ∈ state.items, KeyedItem.key item < edit.key) :
    ∃ before' left' state' returned, edits.foldlM editStep state = some state' ∧
      Editing tree state' before' left' ∧ state'.removed = state.removed ++ returned ∧
      Applied edits (state.items ++ left) (state'.items ++ left') returned := by
  induction edits generalizing state before left with
  | nil => exact ⟨before, left, state, [], rfl, h, (append_nil _).symm, applied_nil hstate⟩
  | cons edit edits ih =>
    obtain ⟨hlater, hsorted⟩ := pairwise_cons.mp hsorted
    obtain ⟨before', left', state', returned, hstep, h', hremoved, happlied, hbefore', hitems'⟩ :=
      h.step hkeys hheight hstate (hbefore edit mem_cons_self)
        (hitems edit mem_cons_self)
    obtain ⟨before'', left'', state'', returned', hrun, h'', hremoved', happlied'⟩ :=
      ih h' hsorted happlied.strict
        (fun other hother item hitem => (hbefore' item hitem).trans (hlater other hother).le)
        (fun other hother item hitem => (hitems' item hitem).trans_lt (hlater other hother))
    refine ⟨before'', left'', state'', returned ++ returned', ?_, h'', ?_,
      happlied.trans happlied' hstate (fun other hother => (hlater other hother).ne')⟩
    · rw [foldlM_cons, hstep]
      exact hrun
    · rw [hremoved', hremoved, append_assoc]

lemma sorted_edits {edits : List (Edit T K)} (hnodup : (edits.map Edit.key).Nodup) :
    (edits.mergeSort (fun a b => a.key ≤ b.key)).Pairwise (fun a b => a.key < b.key) := by
  have hle := @pairwise_mergeSort (Edit T K) (fun a b => decide (a.key ≤ b.key))
    (fun a b c hab hbc => by simpa using le_trans (by simpa using hab) (by simpa using hbc))
    (fun a b => by simpa using le_total a.key b.key) edits
  have hne : (edits.mergeSort (fun a b => a.key ≤ b.key)).Pairwise (fun a b => a.key ≠ b.key) :=
    pairwise_map.mp (((mergeSort_perm edits _).map Edit.key).nodup_iff.mpr hnodup)
  exact (hle.and hne).imp (fun h => lt_of_le_of_ne (by simpa using h.1) h.2)

lemma edit_spec {tree : SumTree T S} (hvalid : tree.Valid) (hkeys : StrictKeys tree.items)
    {edits : List (Edit T K)} (hheight : edits ≠ [] → tree.height < STACK_CAPACITY)
    (hnodup : (edits.map Edit.key).Nodup) :
    ∃ tree' returned, tree.edit edits = some (tree', returned) ∧ tree'.Valid ∧
      Applied (edits.mergeSort (fun a b => a.key ≤ b.key)) tree.items tree'.items returned := by
  cases edits with
  | nil =>
    refine ⟨tree, [], rfl, hvalid, ?_⟩
    rw [mergeSort_nil]
    exact applied_nil hkeys
  | cons first edits =>
    have hheight := hheight (cons_ne_nil _ _)
    have hmeasures := measures_lastKey (S := S) hkeys
    have hseek := @seek_spec T S K _ _ _ _ (compare (Dimension.zero S : K)) .left tree (lastKey S)
      (Cursor.new tree) rfl hvalid hmeasures hheight
      (compare_ge_iff_ge.mpr (LawfulKeyed.zero_le T _))
    obtain ⟨low, rest, c, found, hitems, hresult, hat, -, hlow, -⟩ := hseek.by_key hkeys
    obtain rfl : low = [] := by
      cases low with
      | nil => rfl
      | cons item low =>
        exact absurd (hlow item mem_cons_self) (not_lt.mpr (LawfulKeyed.zero_le T _))
    rw [nil_append] at hitems
    have hempty : (⟨c, SumTree.new, [], []⟩ : EditState T S K).items = [] := by
      rw [EditState.items, SumTree.new, items_leaf, append_nil]
    have hediting : Editing tree ⟨c, SumTree.new, [], []⟩ [] rest := ⟨hat, .inl rfl⟩
    obtain ⟨before, left, state, returned, hrun, hediting, hremoved, happlied⟩ :=
      hediting.run hkeys hheight (sorted_edits hnodup)
        (by rwa [hempty, nil_append, ← hitems]) (fun _ _ item hitem => (by cases hitem))
        (fun _ _ item hitem => (by rw [hempty] at hitem; cases hitem))
    rw [hempty, nil_append, ← hitems] at happlied
    obtain ⟨extended, hextend, hextendedValid, hextended⟩ :=
      extend_spec hediting.valid state.bufferedItems
    obtain ⟨c', suffix, hsuffix, hsuffixValid, hsuffixItems⟩ :=
      hediting.cursor.suffix hmeasures hheight
    obtain ⟨tree', happend, htreeValid, htreeItems⟩ := append_spec hextendedValid hsuffixValid
    refine ⟨tree', returned, ?_, htreeValid, ?_⟩
    · rw [SumTree.edit, isEmpty_cons, if_neg Bool.false_ne_true]
      simp only [hresult, hrun, hextend, hsuffix, happend, hremoved, bind_eq_bind,
        bind_some, nil_append]
      rfl
    · rw [htreeItems, hextended, hsuffixItems]
      exact happlied

lemma Applied.returned_eq_filter {edits : List (Edit T K)} {items items' returned : List T}
    (h : Applied edits items items' returned) (hkeys : StrictKeys items)
    (hsorted : edits.Pairwise (fun a b => a.key < b.key)) :
    returned = items.filter (fun item => KeyedItem.key item ∈ edits.map Edit.key) := by
  have hreturned : StrictKeys returned := by
    rw [h.returned]
    refine pairwise_filterMap.mpr (hsorted.imp ?_)
    intro a b hab item hitem other hother
    rw [(hkeys.itemAt_eq_some.mp hitem).2, (hkeys.itemAt_eq_some.mp hother).2]
    exact hab
  refine List.Pairwise.eq_of_mem_iff hreturned (hkeys.filter _) (fun item => ?_)
  rw [h.returned, mem_filterMap, mem_filter, decide_eq_true_eq, List.mem_map]
  constructor
  · rintro ⟨edit, hedit, hitem⟩
    obtain ⟨hmem, hkey⟩ := hkeys.itemAt_eq_some.mp hitem
    exact ⟨hmem, edit, hedit, hkey.symm⟩
  · rintro ⟨hmem, edit, hedit, hkey⟩
    exact ⟨edit, hedit, hkeys.itemAt_eq_some.mpr ⟨hmem, hkey.symm⟩⟩

/-- A batch of edits of distinct keys, in any order, leaves what they leave one after another, with
increasing keys, and gives back what they replaced or removed. The stack of a cursor has room for
every tree on the way. -/
theorem edit_agrees_applyEdits {tree : SumTree T S} (hvalid : tree.Valid)
    (hkeys : StrictKeys tree.items) {edits : List (Edit T K)} (hnodup : (edits.map Edit.key).Nodup)
    (hheights : ∀ count < edits.length, ∀ r, tree.applyEdits (edits.take count) = some r →
      r.1.height < STACK_CAPACITY) :
    ∃ edited single, tree.edit edits = some edited ∧ tree.applyEdits edits = some single ∧
      edited.1.Valid ∧ single.1.Valid ∧ edited.1.items = single.1.items ∧
      StrictKeys edited.1.items ∧ edited.2.Perm single.2 ∧
      edited.2 = tree.items.filter (fun item => KeyedItem.key item ∈ edits.map Edit.key) := by
  obtain ⟨single, returned, hsingle, hsingleValid, happlied⟩ :=
    applyEdits_spec hvalid hkeys hnodup hheights
  obtain ⟨edited, returned', hedit, heditValid, happlied'⟩ := edit_spec hvalid hkeys
    (fun hne => hheights 0 (length_pos_of_ne_nil hne) (tree, []) rfl) hnodup
  obtain ⟨hitems, hperm⟩ := happlied'.perm happlied (mergeSort_perm ..)
  refine ⟨(edited, returned'), (single, returned), hedit, hsingle, heditValid, hsingleValid, hitems,
    happlied'.strict, hperm, ?_⟩
  rw [happlied'.returned_eq_filter hkeys (sorted_edits hnodup)]
  refine filter_congr (fun item _ => ?_)
  exact decide_eq_decide.mpr ((mergeSort_perm ..).map Edit.key).mem_iff

structure IntegersSummary where
  max : Fin 256

instance : Summary IntegersSummary := ⟨⟨0⟩, fun a b => ⟨max a.max b.max⟩⟩

instance : Item (Fin 256) IntegersSummary := ⟨fun item => ⟨item⟩⟩

instance : KeyedItem (Fin 256) (Fin 256) := ⟨id⟩

instance : Dimension (Fin 256) IntegersSummary := ⟨0, fun _ summary => summary.max⟩

instance : LawfulSummary IntegersSummary where
  zero_add a := congrArg IntegersSummary.mk (max_eq_right (Fin.zero_le a.max))
  add_assoc a b c := congrArg IntegersSummary.mk (max_assoc a.max b.max c.max)

lemma total_concat_max (items : List (Fin 256)) (item : Fin 256) :
    (total (items ++ [item]) : IntegersSummary).max =
      max (total items : IntegersSummary).max item := by
  rw [total_append items (cons_ne_nil item [])]
  exact congrArg (max _) (congrArg IntegersSummary.max (sum_singleton (Item.summary item)))

lemma total_max_le {items : List (Fin 256)} {bound : Fin 256} (h : ∀ item ∈ items, item ≤ bound) :
    (total items : IntegersSummary).max ≤ bound := by
  induction items using reverseRecOn with
  | nil => exact Fin.zero_le bound
  | append_singleton items item ih =>
    rw [total_concat_max]
    exact max_le (ih (fun other hother => h other (mem_append_left _ hother)))
      (h item (mem_append_right _ (mem_singleton_self item)))

instance : LawfulKeyed (Fin 256) IntegersSummary (Fin 256) where
  zero_le key := Fin.zero_le key
  addSummary_total := by
    intro before segment item hkeys
    have hsegment := (pairwise_append.mp hkeys).2.2
    have hle : (total segment : IntegersSummary).max ≤ item := total_max_le (fun other hother =>
      (hsegment other (mem_append_right _ hother) item (mem_singleton_self item)).le)
    exact (total_concat_max segment item).trans (max_eq_right hle)

def evens : SumTree (Fin 256) IntegersSummary := leaf ⟨6⟩ [2, 4, 6] [⟨2⟩, ⟨4⟩, ⟨6⟩]

theorem edit_agrees_applyEdits_evens :
    ∃ edited single, evens.edit [.insert 5, .remove 4, .insert 1] = some edited ∧
      evens.applyEdits [.insert 5, .remove 4, .insert 1] = some single ∧ edited.1.Valid ∧
      single.1.Valid ∧ edited.1.items = single.1.items ∧ StrictKeys edited.1.items ∧
      edited.2.Perm single.2 ∧ edited.2 = evens.items.filter
        (fun item => KeyedItem.key item ∈
          ([.insert 5, .remove 4, .insert 1] : List (Edit (Fin 256) (Fin 256))).map Edit.key) := by
  have hne : ([2, 4, 6] : List (Fin 256)) ≠ [] := cons_ne_nil _ _
  have hvalid : evens.Valid := .inr ⟨0, .leaf hne (by decide)⟩
  have hheights : ∀ count < 3, (evens.applyEdits
      (([.insert 5, .remove 4, .insert 1] : List (Edit (Fin 256) (Fin 256))).take count)).map
        (fun r => r.1.height) = some 0 := by
    with_unfolding_all decide
  refine edit_agrees_applyEdits hvalid ?_ (by decide) ?_
  · rw [evens, items_leaf]
    unfold StrictKeys
    decide
  · intro count hcount r hr
    have hheight := hheights count hcount
    rw [hr] at hheight
    rw [show r.1.height = 0 from some.inj hheight]
    decide

end GpuiFast
