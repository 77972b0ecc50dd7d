import GpuiFast.SumTreeBuild
import GpuiFast.SumTreeCursor

namespace GpuiFast

open List Dimension

class LawfulDimension (D S : Type) [Summary S] [Dimension D S] : Prop where
  addSummary_add : ∀ (d : D) (a b : S),
    addSummary d (Summary.addSummary a b) =
      addSummary (addSummary d a) b

variable {T S D : Type} [Summary S] [Item T S] [Dimension D S]

def endAt (position : D) (items : List T) : D :=
  items.foldl (fun position item => addSummary position (Item.summary item)) position

def extents (position : D) : List T → List (D × D × T)
  | [] => []
  | item :: items =>
    let finish := addSummary position (Item.summary item)
    (position, finish, item) :: extents finish items

variable (position : D)

variable (items items' : List T)

omit [Summary S] in
lemma endAt_append :
    endAt position (items ++ items') = endAt (endAt position items) items' := foldl_append ..

omit [Summary S] in
lemma extents_append :
    extents position (items ++ items') =
      extents position items ++ extents (endAt position items) items' := by
  induction items generalizing position with
  | nil => rfl
  | cons item items ih =>
    rw [cons_append, extents, extents, ih]
    rfl

variable [LawfulSummary S] [LawfulDimension D S]

lemma addSummary_total {items : List T} (hne : items ≠ []) :
    addSummary position (total items : S) = endAt position items := by
  have hfold : ∀ (items : List T) (position : D) (a : S),
      addSummary position ((items.map Item.summary).foldl Summary.addSummary a) =
        endAt (addSummary position a) items := by
    intro items
    induction items with
    | nil => exact fun _ _ => rfl
    | cons item items ih =>
      intro position a
      rw [map_cons, foldl_cons, ih, LawfulDimension.addSummary_add]
      rfl
  obtain ⟨item, items, rfl⟩ := exists_cons_of_ne_nil hne
  rw [total, sum, map_cons, foldl_cons, LawfulSummary.zero_add, hfold]
  rfl

namespace SumTree

mutual

def leafFor (target : D → Ordering) (bias : Bias) (position : D) : SumTree T S → List T × List T
  | leaf _ items _ => ([], items)
  | internal _ _ childSummaries childTrees =>
    leafAmong target bias position childTrees childSummaries

def leafAmong (target : D → Ordering) (bias : Bias) (position : D) :
    List (SumTree T S) → List S → List T × List T
  | childTree :: childTrees, childSummary :: childSummaries =>
    let childEnd := addSummary position childSummary
    if bias.passes (target childEnd) then
      let rest := leafAmong target bias childEnd childTrees childSummaries
      (childTree.items ++ rest.1, rest.2)
    else leafFor target bias position childTree
  | _, _ => ([], [])

end

def exactAmong (target : D → Ordering) (position : D) (items : List T) : Option (D × D × T) :=
  (extents position items).find? (fun extent => target extent.2.1 = .eq)

def foundAmong (target : D → Ordering) (position : D) (items : List T) : D × Option (T × D) :=
  match exactAmong target position items with
  | some (start, finish, item) => (start, some (item, finish))
  | none => (endAt position items, none)

variable (target : D → Ordering) (bias : Bias) {height : ℕ} {tree : SumTree T S}

omit [Summary S] [LawfulSummary S] [LawfulDimension D S] in
lemma findItems_eq (position : D) (items : List T) :
    findItems true target bias position (items.zip (items.map Item.summary)) =
      foundAmong target position items := by
  induction items generalizing position with
  | nil => rfl
  | cons item items ih =>
    rw [map_cons, zip_cons_cons, findItems, foundAmong, exactAmong, extents]
    by_cases heq : target (addSummary position (Item.summary item)) = .eq
    · rw [if_pos (by simpa [found] using heq), find?_cons_of_pos (by simpa using heq)]
    · rw [if_neg (by simpa [found] using heq), find?_cons_of_neg (by simpa using heq), ih]
      rfl

lemma findIterate_exact (h : WellFormed height tree) {position : D}
    (hend : bias.passes (target (endAt position tree.items)) = false) :
    let parts := leafFor target bias position tree
    findIterate true target bias position tree =
        foundAmong target (endAt position parts.1) parts.2 ∧
      bias.passes (target (endAt position (parts.1 ++ parts.2))) = false ∧
      parts.2 ≠ [] ∧ ∃ after, tree.items = parts.1 ++ parts.2 ++ after := by
  induction h generalizing position with
  | @leaf items hne hle =>
    rw [items_leaf] at hend
    rw [leafFor, findIterate, findItems_eq]
    exact ⟨rfl, hend, hne, [], by rw [items_leaf, nil_append, append_nil]⟩
  | @internal height trees hne hle htrees ih =>
    rw [items_internal] at hend
    rw [leafFor, findIterate, items_internal]
    clear hle
    induction trees generalizing position with
    | nil => exact absurd rfl hne
    | cons tree trees ih' =>
      have htree := htrees tree mem_cons_self
      have hchild : addSummary position (total tree.items : S) =
          endAt position tree.items := addSummary_total position htree.items_ne_nil
      rw [itemsOf_cons, endAt_append] at hend
      rw [map_cons, findChildren, leafAmong, hchild, itemsOf_cons]
      by_cases hpass : bias.passes (target (endAt position tree.items)) = true
      · have hne' : trees ≠ [] := by
          rintro rfl
          rw [itemsOf_nil] at hend
          exact Bool.noConfusion (hpass.symm.trans hend)
        obtain ⟨hfind, hleaf, hleafNe, after, hafter⟩ := ih' hne'
          (fun tree' htree' => htrees tree' (mem_cons_of_mem tree htree'))
          (fun tree' htree' => ih tree' (mem_cons_of_mem tree htree')) hend
        simp only [if_pos hpass]
        rw [endAt_append, append_assoc, endAt_append]
        exact ⟨hfind, hleaf, hleafNe, after, by rw [hafter]; simp only [append_assoc]⟩
      · simp only [if_neg hpass]
        obtain ⟨hfind, hleaf, hleafNe, after, hafter⟩ :=
          ih tree mem_cons_self (Bool.eq_false_of_not_eq_true hpass)
        exact ⟨hfind, hleaf, hleafNe, after ++ itemsOf trees, by
          conv_lhs => rw [hafter]
          rw [append_assoc _ after]⟩

def FindsExact (target : D → Ordering) (bias : Bias) (tree : SumTree T S) : Prop :=
  (tree.findExact target bias).2.2.isSome

/-- Exact searches of two trees give the same, and find an item that ends exactly at the target if
there is one. -/
def FindsAlike (target : D → Ordering) (bias : Bias) (tree other : SumTree T S) : Prop :=
  tree.findExact target bias = other.findExact target bias ∧
    ((∃ extent ∈ extents (Dimension.zero S : D) tree.items, target extent.2.1 = .eq) →
      FindsExact target bias tree ∧ FindsExact target bias other)

/-- Of the leaves that the ends of the nodes lead to: they end at one position if no item ends
exactly at the target. If one does, the whole tree is not left behind, and the first such items of
the two leaves are the same. -/
def SameLeaves (target : D → Ordering) (bias : Bias) (tree other : SumTree T S) : Prop :=
  let start : D := Dimension.zero S
  let parts := leafFor target bias start tree
  let parts' := leafFor target bias start other
  if (extents start tree.items).any (fun extent => target extent.2.1 = .eq) then
    bias.passes (target (endAt start tree.items)) = false ∧
      ∃ extent, exactAmong target (endAt start parts.1) parts.2 = some extent ∧
        exactAmong target (endAt start parts'.1) parts'.2 = some extent
  else
    bias.passes (target (endAt start tree.items)) = true ∨
      (endAt start (parts.1 ++ parts.2) : D) = endAt start (parts'.1 ++ parts'.2)

lemma findExact_of_passes {target : D → Ordering} {bias : Bias} (h : WellFormed height tree)
    (hpass : bias.passes (target (endAt (Dimension.zero S) tree.items)) = true) :
    tree.findExact target bias =
      (endAt (Dimension.zero S) tree.items, endAt (Dimension.zero S) tree.items, none) := by
  rw [findExact, h.summary_eq, addSummary_total _ h.items_ne_nil]
  exact if_pos hpass

lemma findExact_of_not_passes {target : D → Ordering} {bias : Bias} (h : WellFormed height tree)
    (hpass : bias.passes (target (endAt (Dimension.zero S) tree.items)) = false) :
    let parts := leafFor target bias (Dimension.zero S) tree
    tree.findExact target bias =
      match exactAmong target (endAt (Dimension.zero S) parts.1) parts.2 with
      | some (start, finish, item) => (start, finish, some item)
      | none => (endAt (Dimension.zero S) (parts.1 ++ parts.2),
          endAt (Dimension.zero S) (parts.1 ++ parts.2), none) := by
  intro parts
  obtain ⟨hfind, -, -, -⟩ := findIterate_exact target bias h hpass
  rw [findExact, h.summary_eq, addSummary_total _ h.items_ne_nil, hfind]
  simp only [hpass, Bool.false_eq_true, if_false]
  rw [foundAmong, endAt_append]
  cases exactAmong target (endAt (Dimension.zero S) parts.1) parts.2 with
  | none => rfl
  | some extent => rfl

lemma mem_of_exactAmong {target : D → Ordering} {bias : Bias} (h : WellFormed height tree)
    (hpass : bias.passes (target (endAt (Dimension.zero S) tree.items)) = false)
    (extent : D × D × T) (hexact : exactAmong target
      (endAt (Dimension.zero S) (leafFor target bias (Dimension.zero S) tree).1)
      (leafFor target bias (Dimension.zero S) tree).2 = some extent) :
    (extents (Dimension.zero S) tree.items).any (fun extent => target extent.2.1 = .eq) = true := by
  obtain ⟨-, -, -, after, hitems⟩ := findIterate_exact target bias h hpass
  rw [exactAmong] at hexact
  have hfound := find?_some hexact
  rw [any_eq_true]
  refine ⟨extent, ?_, hfound⟩
  rw [hitems, extents_append, extents_append]
  exact mem_append_left _ (mem_append_right _ (mem_of_find?_eq_some hexact))

omit [LawfulSummary S] in
lemma new_of_items (h : tree.Valid) (hitems : tree.items = []) : tree = new := by
  rcases h with rfl | ⟨height, h⟩
  · rfl
  · exact absurd hitems h.items_ne_nil

omit [LawfulSummary S] [LawfulDimension D S] in
lemma sameLeaves_new : SameLeaves target bias (new : SumTree T S) new := by
  rw [SameLeaves, new, items_leaf, extents, any_nil]
  exact .inr rfl

lemma findsAlike_iff_sameLeaves {tree other : SumTree T S} (htree : tree.Valid)
    (hother : other.Valid) (hitems : tree.items = other.items) (target : D → Ordering)
    (bias : Bias) : FindsAlike target bias tree other ↔ SameLeaves target bias tree other := by
  rcases htree with rfl | ⟨height, h⟩
  · rw [new, items_leaf] at hitems
    obtain rfl := new_of_items hother hitems.symm
    refine iff_of_true ⟨rfl, ?_⟩ (sameLeaves_new target bias)
    rintro ⟨extent, hextent, -⟩
    rw [new, items_leaf] at hextent
    cases hextent
  · rcases hother with rfl | ⟨height', h'⟩
    · rw [new, items_leaf] at hitems
      exact absurd hitems h.items_ne_nil
    have hany : (∃ extent ∈ extents (Dimension.zero S : D) tree.items, target extent.2.1 = .eq) ↔
        (extents (Dimension.zero S : D) tree.items).any
          (fun extent => target extent.2.1 = .eq) = true := by
      rw [any_eq_true]
      simp only [decide_eq_true_eq]
    rw [FindsAlike, hany, SameLeaves]
    by_cases hpass : bias.passes (target (endAt (Dimension.zero S) tree.items)) = true
    · -- nothing is found, at the end of either tree
      have hfind := findExact_of_passes h hpass
      have hfind' := findExact_of_passes h' (hitems ▸ hpass)
      simp only [FindsExact, hfind, hfind', hitems]
      rw [hitems] at hpass
      simp [hpass]
    · have hpass := Bool.eq_false_of_not_eq_true hpass
      have hfind := findExact_of_not_passes h hpass
      have hfind' := findExact_of_not_passes h' (hitems ▸ hpass)
      have hmem := mem_of_exactAmong (D := D) h hpass
      have hmem' := mem_of_exactAmong (D := D) h' (hitems ▸ hpass)
      rw [← hitems] at hmem'
      simp only [FindsExact, hfind, hfind']
      generalize exactAmong target (endAt (Dimension.zero S) (leafFor target bias (Dimension.zero S)
        tree).1) (leafFor target bias (Dimension.zero S) tree).2 = found at *
      generalize exactAmong target (endAt (Dimension.zero S) (leafFor target bias (Dimension.zero S)
        other).1) (leafFor target bias (Dimension.zero S) other).2 = found' at *
      by_cases hsome : (extents (Dimension.zero S : D) tree.items).any
          (fun extent => target extent.2.1 = .eq) = true
      · rw [if_pos hsome]
        constructor
        · rintro ⟨heq, hfinds⟩
          obtain ⟨hfound, hfound'⟩ := hfinds hsome
          refine ⟨hpass, ?_⟩
          cases found with
          | none => cases hfound
          | some extent =>
            cases found' with
            | none => cases hfound'
            | some extent' =>
              obtain ⟨start, finish, item⟩ := extent
              obtain ⟨start', finish', item'⟩ := extent'
              simp only [Prod.mk.injEq, Option.some.injEq] at heq
              obtain ⟨rfl, rfl, rfl⟩ := heq
              exact ⟨_, rfl, rfl⟩
        · rintro ⟨-, extent, rfl, rfl⟩
          exact ⟨rfl, fun _ => ⟨rfl, rfl⟩⟩
      · rw [if_neg hsome]
        obtain rfl : found = none := Option.eq_none_iff_forall_ne_some.mpr
          (fun extent heq => hsome (hmem extent heq))
        obtain rfl : found' = none := Option.eq_none_iff_forall_ne_some.mpr
          (fun extent heq => hsome (hmem' extent heq))
        constructor
        · rintro ⟨heq, -⟩
          exact .inr (congrArg Prod.fst heq)
        · rintro (hpass' | heq)
          · exact Bool.noConfusion (hpass'.symm.trans hpass)
          · exact ⟨by rw [heq], fun hsome' => absurd hsome' hsome⟩

end SumTree

structure Count where
  val : ℕ
  deriving DecidableEq

instance : Summary Count := ⟨⟨0⟩, fun a b => ⟨a.val + b.val⟩⟩

instance : Dimension Count Count := ⟨⟨0⟩, fun a b => ⟨a.val + b.val⟩⟩

instance : Item Char Count := ⟨fun _ => ⟨1⟩⟩

instance : LawfulSummary Count where
  add_assoc := fun a b c => congrArg Count.mk (Nat.add_assoc a.val b.val c.val)
  zero_add := fun a => congrArg Count.mk (Nat.zero_add a.val)

instance : LawfulDimension Count Count where
  addSummary_add := fun d a b => congrArg Count.mk (Nat.add_assoc d.val a.val b.val).symm

namespace SumTree

def twoLeaves (left right : String) : SumTree Char Count :=
  let leafOf := fun text : String =>
    leaf (total text.toList) text.toList (text.toList.map Item.summary)
  internal 1 (total (left.toList ++ right.toList)) [total left.toList, total right.toList]
    [leafOf left, leafOf right]

lemma twoLeaves_wellFormed {left right : String} (hleft : left.toList ≠ [])
    (hleft' : left.toList.length ≤ 12) (hright : right.toList ≠ [])
    (hright' : right.toList.length ≤ 12) : WellFormed 1 (twoLeaves left right) := by
  have hleaves : ∀ tree ∈ [leaf (total left.toList) left.toList (left.toList.map Item.summary),
      leaf (total right.toList) right.toList (right.toList.map Item.summary)],
      WellFormed (S := Count) 0 tree := by
    intro tree htree
    rcases mem_pair.mp htree with rfl | rfl
    · exact .leaf hleft hleft'
    · exact .leaf hright hright'
  have hlength : 2 ≤ 2 * TREE_BASE := by decide
  have hitems : left.toList ++ right.toList = itemsOf
      [leaf (total left.toList : Count) left.toList (left.toList.map Item.summary),
        leaf (total right.toList) right.toList (right.toList.map Item.summary)] := by
    simp only [itemsOf_cons, itemsOf_nil, items_leaf, append_nil]
  rw [twoLeaves, hitems]
  exact .internal (cons_ne_nil _ _) hlength hleaves

end SumTree

end GpuiFast
