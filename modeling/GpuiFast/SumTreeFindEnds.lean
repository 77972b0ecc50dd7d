import GpuiFast.SumTreeFind

/-! Where an exact search ends, for a target in order along the items, told by where the leaves of
the tree begin and end. -/

namespace GpuiFast

open List Dimension

variable {T S D : Type} [Summary S] [Item T S] [Dimension D S]

/-- Going along the items the target is first after their ends, then at them, then before them. -/
def InOrder (target : D → Ordering) (position : D) (items : List T) : Prop :=
  (extents position items).Pairwise (fun a b =>
    (target b.2.1 = .gt → target a.2.1 = .gt) ∧ (target a.2.1 = .lt → target b.2.1 = .lt))

/-- How many items the bias leaves behind. -/
def leftBehind (target : D → Ordering) (bias : Bias) (position : D) (items : List T) : ℕ :=
  (extents position items).findIdx (fun extent => !bias.passes (target extent.2.1))

namespace SumTree

mutual

def leafLists : SumTree T S → List (List T)
  | leaf _ items _ => [items]
  | internal _ _ _ childTrees => leafListsOf childTrees

def leafListsOf : List (SumTree T S) → List (List T)
  | [] => []
  | tree :: trees => tree.leafLists ++ leafListsOf trees

end

/-- Before which items the leaf that holds item `k` begins and ends. -/
def leafSpan : List (List T) → ℕ → ℕ × ℕ
  | [], _ => (0, 0)
  | items :: leaves, k =>
    if k < items.length then (0, items.length)
    else ((leafSpan leaves (k - items.length)).1 + items.length,
      (leafSpan leaves (k - items.length)).2 + items.length)

/-- Where no item ends at the target, both trees have all items left behind, or the leaves that
hold the first that is not end at one position. Where one does, the left bias is always right; the
right one needs an item past the target whose leaf, in each tree, begins before it, and with the
same first item that ends at the target. -/
def LeavesEndAlike (target : D → Ordering) (bias : Bias) (tree other : SumTree T S) : Prop :=
  let start : D := Dimension.zero S
  let items := tree.items
  let k := leftBehind target bias start items
  let span := leafSpan tree.leafLists k
  let span' := leafSpan other.leafLists k
  if (extents start items).any (fun extent => target extent.2.1 = .eq) then
    bias = .right → k < items.length ∧ span.1 < k ∧ span'.1 < k ∧
      (extents start items)[max (leftBehind target .left start items) span.1]? =
        (extents start items)[max (leftBehind target .left start items) span'.1]?
  else k = items.length ∨ (endAt start (items.take span.2) : D) = endAt start (items.take span'.2)

end SumTree

variable {target : D → Ordering} {bias : Bias} {position : D} {items items' : List T}

omit [Summary S] in
lemma length_extents (position : D) (items : List T) :
    (extents position items).length = items.length := by
  induction items generalizing position with
  | nil => rfl
  | cons item items ih => rw [extents, length_cons, length_cons, ih]

omit [Summary S] in
lemma InOrder.append_iff : InOrder target position (items ++ items') ↔
    InOrder target position items ∧ InOrder target (endAt position items) items' ∧
      ∀ a ∈ extents position items, ∀ b ∈ extents (endAt position items) items',
        (target b.2.1 = .gt → target a.2.1 = .gt) ∧ (target a.2.1 = .lt → target b.2.1 = .lt) := by
  rw [InOrder, extents_append, pairwise_append]
  rfl

/-- In order, what comes before something left behind is left behind. -/
lemma passes_of_inOrder {a b : D × D × T}
    (h : (target b.2.1 = .gt → target a.2.1 = .gt) ∧ (target a.2.1 = .lt → target b.2.1 = .lt))
    (hb : bias.passes (target b.2.1) = true) : bias.passes (target a.2.1) = true := by
  cases bias <;> cases ha : target a.2.1 <;> cases hb' : target b.2.1 <;>
    simp_all [Bias.passes]

variable (position) in
omit [Summary S] in
lemma exists_extents_end (hne : items ≠ []) : ∃ before a,
    extents position items = before ++ [a] ∧ a.2.1 = endAt position items := by
  obtain ⟨init, item, rfl⟩ : ∃ init item, items = init ++ [item] :=
    ⟨items.dropLast, items.getLast hne, (dropLast_append_getLast hne).symm⟩
  refine ⟨extents position init, _, extents_append position init [item], ?_⟩
  rw [endAt_append]
  rfl

omit [Summary S] in
/-- With the end of the items left behind, so are all of them. -/
lemma leftBehind_append_of_passes (hin : InOrder target position (items ++ items'))
    (hne : items ≠ []) (hpass : bias.passes (target (endAt position items)) = true) :
    leftBehind target bias position (items ++ items') =
      items.length + leftBehind target bias (endAt position items) items' := by
  obtain ⟨before, a, heq, hend⟩ := exists_extents_end position hne
  have hpair := (InOrder.append_iff.mp hin).1
  rw [InOrder, heq, pairwise_append] at hpair
  have hall : ∀ b ∈ extents position items, bias.passes (target b.2.1) = true := by
    intro b hb
    rw [heq] at hb
    rcases mem_append.mp hb with hb | hb
    · exact passes_of_inOrder (hpair.2.2 b hb a mem_cons_self) (hend ▸ hpass)
    · rw [mem_singleton.mp hb, hend]
      exact hpass
  have hlen : (extents position items).findIdx (fun extent => !bias.passes (target extent.2.1)) =
      (extents position items).length :=
    findIdx_eq_length_of_false (fun b hb => by simp [hall b hb])
  rw [leftBehind, extents_append, findIdx_append, hlen, if_neg (lt_irrefl _), length_extents,
    Nat.add_comm]
  rfl

omit [Summary S] in
lemma leftBehind_lt (hne : items ≠ [])
    (hend : bias.passes (target (endAt position items)) = false) :
    leftBehind target bias position items < items.length := by
  obtain ⟨before, a, heq, ha⟩ := exists_extents_end position hne
  rw [leftBehind, ← length_extents position items]
  exact findIdx_lt_length_of_exists ⟨a, by rw [heq]; simp, by simp [ha, hend]⟩

omit [Summary S] in
lemma leftBehind_append_of_not_passes (hne : items ≠ [])
    (hend : bias.passes (target (endAt position items)) = false) :
    leftBehind target bias position (items ++ items') = leftBehind target bias position items := by
  have hlt := leftBehind_lt hne hend
  rw [leftBehind, ← length_extents position items] at hlt
  rw [leftBehind, extents_append, findIdx_append, if_pos hlt]
  rfl

omit [Summary S] in
lemma InOrder.passes_iff (hin : InOrder target position items) {m : ℕ}
    (hm : m < (extents position items).length) :
    bias.passes (target (extents position items)[m].2.1) = true ↔
      m < leftBehind target bias position items := by
  constructor
  · intro hpass
    by_contra hle
    have hlt : leftBehind target bias position items < (extents position items).length := by omega
    have hstop : (!bias.passes (target
        ((extents position items)[leftBehind target bias position items]).2.1)) = true :=
      findIdx_getElem (w := hlt)
    rcases (not_lt.mp hle).lt_or_eq with hless | hsame
    · have hpair := pairwise_iff_getElem.mp hin _ m hlt hm hless
      rw [passes_of_inOrder hpair hpass] at hstop
      cases hstop
    · simp only [hsame, hpass] at hstop
      cases hstop
  · intro hlt
    have hpass := not_of_lt_findIdx hlt
    simpa using hpass

omit [Summary S] in
lemma leftBehind_eq_length_iff (hin : InOrder target position items) (hne : items ≠ []) :
    leftBehind target bias position items = items.length ↔
      bias.passes (target (endAt position items)) = true := by
  constructor
  · intro heq
    by_contra hpass
    exact (leftBehind_lt hne (Bool.eq_false_of_not_eq_true hpass)).ne heq
  · intro hpass
    have hin' : InOrder target position (items ++ []) := by rwa [append_nil]
    have happend := leftBehind_append_of_passes hin' hne hpass
    rwa [append_nil] at happend

omit [Summary S] in
/-- In order, the items that end at the target are those that only the right bias leaves behind. -/
lemma InOrder.eq_iff (hin : InOrder target position items) {m : ℕ}
    (hm : m < (extents position items).length) :
    target (extents position items)[m].2.1 = .eq ↔
      leftBehind target .left position items ≤ m ∧ m < leftBehind target .right position items := by
  rw [← not_lt, ← hin.passes_iff hm, ← hin.passes_iff hm]
  cases target (extents position items)[m].2.1 <;> simp [Bias.passes]

namespace SumTree

omit [Summary S] in
/-- Which item of a stretch an exact search of it finds, in order. -/
lemma exactAmong_stretch {before stretch after : List T} (hin : InOrder target position items)
    (hitems : items = before ++ stretch ++ after) :
    exactAmong target (endAt position before) stretch =
      if max (leftBehind target .left position items) before.length <
          min (leftBehind target .right position items) (before ++ stretch).length then
        (extents position items)[max (leftBehind target .left position items) before.length]?
      else none := by
  set first := max (leftBehind target .left position items) before.length with hfirst_eq
  have hall : extents position items = extents position before ++
      extents (endAt position before) stretch ++
        extents (endAt position (before ++ stretch)) after := by
    rw [hitems, extents_append, extents_append]
  have hlen := length_extents position before
  have hlen' := length_extents (endAt position before) stretch
  have hat : ∀ r (hr : r < (extents (endAt position before) stretch).length)
      (hr' : before.length + r < (extents position items).length),
      (extents (endAt position before) stretch)[r] =
        (extents position items)[before.length + r] := by
    intro r hr hr'
    simp only [hall]
    rw [getElem_append_left (by simp; omega), getElem_append_right (by omega)]
    simp [hlen]
  have htotal : (extents position items).length =
      before.length + stretch.length + after.length := by
    rw [length_extents, hitems, length_append, length_append]
  rw [exactAmong]
  split_ifs with hfirst
  · rw [lt_min_iff, length_append] at hfirst
    have hfirst' : first < (extents position items).length := by omega
    rw [getElem?_eq_getElem hfirst', find?_eq_some_iff_getElem]
    have hr : first - before.length < (extents (endAt position before) stretch).length := by omega
    have hsum : before.length + (first - before.length) = first := by omega
    refine ⟨decide_eq_true ((hin.eq_iff hfirst').mpr ⟨le_max_left _ _, hfirst.1⟩),
      first - before.length, hr, ?_, fun r hlt => ?_⟩
    · rw [hat _ hr (by omega)]
      simp only [hsum]
    · have hr' : before.length + r < (extents position items).length := by omega
      rw [hat r (by omega) hr']
      have hnot := (hin.eq_iff hr').not.mpr (by omega)
      simpa using hnot
  · rw [find?_eq_none]
    intro x hx heq
    obtain ⟨r, hr, rfl⟩ := getElem_of_mem hx
    rw [hat r hr (by omega), decide_eq_true_eq, hin.eq_iff (by omega)] at heq
    refine hfirst ((max_le heq.1 (Nat.le_add_right _ r)).trans_lt (lt_min heq.2 ?_))
    rw [length_append]
    omega

lemma leafSpan_append (lists lists' : List (List T)) (k : ℕ) :
    leafSpan (lists ++ lists') k =
      if k < lists.flatten.length then leafSpan lists k
      else ((leafSpan lists' (k - lists.flatten.length)).1 + lists.flatten.length,
        (leafSpan lists' (k - lists.flatten.length)).2 + lists.flatten.length) := by
  induction lists generalizing k with
  | nil => simp
  | cons items lists ih =>
    rw [cons_append, leafSpan, leafSpan, ih, flatten_cons, length_append]
    split_ifs <;> try omega
    · rfl
    · rfl
    · rw [Nat.sub_sub]
      ext <;> simp <;> omega

variable {height : ℕ} {tree : SumTree T S}

lemma flatten_leafLists (h : WellFormed height tree) : tree.leafLists.flatten = tree.items := by
  induction h with
  | leaf hne hle => simp [leafLists, items_leaf]
  | @internal height trees hne hle htrees ih =>
    rw [leafLists, items_internal]
    clear hne hle
    induction trees with
    | nil => simp [leafListsOf]
    | cons tree trees ih' =>
      rw [leafListsOf, flatten_append, itemsOf_cons, ih tree mem_cons_self,
        ih' (fun tree htree => htrees tree (mem_cons_of_mem _ htree))
          (fun tree htree => ih tree (mem_cons_of_mem _ htree))]

variable [LawfulSummary S] [LawfulDimension D S]

/-- The leaf that holds item `k` has the second of `parts`, the leaves before it the first. -/
def Spans (lists : List (List T)) (k : ℕ) (parts : List T × List T) : Prop :=
  leafSpan lists k = (parts.1.length, (parts.1 ++ parts.2).length) ∧
    parts.1.length ≤ k ∧ k < (parts.1 ++ parts.2).length

/-- For a target in order the leaf that the ends of the nodes lead to is the one that holds the
first item not left behind. -/
lemma leafFor_span (h : WellFormed height tree) {position : D}
    (hin : InOrder target position tree.items)
    (hend : bias.passes (target (endAt position tree.items)) = false) :
    Spans tree.leafLists (leftBehind target bias position tree.items)
      (leafFor target bias position tree) := by
  induction h generalizing position with
  | @leaf items hne hle =>
    rw [items_leaf] at hend ⊢
    have hlt := leftBehind_lt hne hend
    rw [leafFor, leafLists]
    exact ⟨if_pos hlt, Nat.zero_le _, hlt⟩
  | @internal height trees hne hle htrees ih =>
    rw [items_internal] at hin hend ⊢
    rw [leafFor, leafLists]
    clear hle
    induction trees generalizing position with
    | nil => exact absurd rfl hne
    | cons tree trees ih' =>
      have htree := htrees tree mem_cons_self
      have hchild : addSummary position (total tree.items : S) =
          endAt position tree.items := addSummary_total position htree.items_ne_nil
      rw [itemsOf_cons] at hin ⊢
      rw [itemsOf_cons, endAt_append] at hend
      rw [map_cons, leafAmong, hchild, leafListsOf, Spans, leafSpan_append,
        flatten_leafLists htree]
      by_cases hpass : bias.passes (target (endAt position tree.items)) = true
      · have hne' : trees ≠ [] := by
          rintro rfl
          rw [itemsOf_nil] at hend
          exact Bool.noConfusion (hpass.symm.trans hend)
        obtain ⟨hspan, hle, hlt⟩ := ih' hne'
          (fun tree' htree' => htrees tree' (mem_cons_of_mem tree htree'))
          (fun tree' htree' => ih tree' (mem_cons_of_mem tree htree'))
          (InOrder.append_iff.mp hin).2.1 hend
        rw [leftBehind_append_of_passes hin htree.items_ne_nil hpass]
        simp only [if_pos hpass]
        rw [if_neg (by omega), Nat.add_sub_cancel_left, hspan]
        simp only [length_append] at hle hlt ⊢
        exact ⟨Prod.ext (Nat.add_comm _ _) (by simp; omega), by omega, by omega⟩
      · have hpass := Bool.eq_false_of_not_eq_true hpass
        simp only [hpass, Bool.false_eq_true, if_false]
        rw [leftBehind_append_of_not_passes htree.items_ne_nil hpass,
          if_pos (leftBehind_lt htree.items_ne_nil hpass)]
        exact ih tree mem_cons_self (InOrder.append_iff.mp hin).1 hpass

/-- What an exact search finds in the leaf it ends in, by where that leaf begins. -/
lemma exactAmong_leafFor (h : WellFormed height tree)
    (hin : InOrder target (Dimension.zero S) tree.items)
    (hend : bias.passes (target (endAt (Dimension.zero S) tree.items)) = false) :
    let parts := leafFor target bias (Dimension.zero S) tree
    let span := leafSpan tree.leafLists (leftBehind target bias (Dimension.zero S) tree.items)
    let first := max (leftBehind target .left (Dimension.zero S : D) tree.items) span.1
    (endAt (Dimension.zero S) (parts.1 ++ parts.2) : D) =
        endAt (Dimension.zero S) (tree.items.take span.2) ∧
      exactAmong target (endAt (Dimension.zero S) parts.1) parts.2 =
        if first < min (leftBehind target .right (Dimension.zero S) tree.items) span.2 then
          (extents (Dimension.zero S) tree.items)[first]? else none := by
  intro parts span first
  obtain ⟨-, -, -, after, hitems⟩ := findIterate_exact target bias h hend
  obtain ⟨hspan, -, -⟩ := leafFor_span h hin hend
  have hspan : span = (parts.1.length, (parts.1 ++ parts.2).length) := hspan
  simp only [first, hspan]
  refine ⟨?_, exactAmong_stretch hin hitems⟩
  conv_rhs => rw [hitems]
  rw [take_left]

lemma sameLeaves_iff_of_inOrder {height' : ℕ} {other : SumTree T S} (h : WellFormed height tree)
    (h' : WellFormed height' other) (hitems : tree.items = other.items)
    (hin : InOrder target (Dimension.zero S) tree.items) :
    SameLeaves target bias tree other ↔ LeavesEndAlike target bias tree other := by
  have hwhole : leftBehind target bias (Dimension.zero S) tree.items = tree.items.length ↔
      bias.passes (target (endAt (Dimension.zero S) tree.items)) = true :=
    leftBehind_eq_length_iff hin h.items_ne_nil
  have hlen := length_extents (Dimension.zero S : D) tree.items
  simp only [SameLeaves, LeavesEndAlike]
  split_ifs with hany
  · obtain ⟨extent, hmem, heq⟩ := any_eq_true.mp hany
    obtain ⟨m, hm, rfl⟩ := getElem_of_mem hmem
    have hbetween := (hin.eq_iff hm).mp (of_decide_eq_true heq)
    by_cases hpass : bias.passes (target (endAt (Dimension.zero S) tree.items)) = true
    · refine iff_of_false (fun hsame => ?_) (fun halike => ?_)
      · exact Bool.noConfusion (hpass.symm.trans hsame.1)
      · have hk := hwhole.mpr hpass
        cases bias with
        | left => omega
        | right => exact (halike rfl).1.ne hk
    · have hpass := Bool.eq_false_of_not_eq_true hpass
      have hlt := leftBehind_lt h.items_ne_nil hpass
      obtain ⟨hspan, hbegin, hend⟩ := leafFor_span h hin hpass
      obtain ⟨hspan', hbegin', hend'⟩ := leafFor_span h' (hitems ▸ hin) (hitems ▸ hpass)
      have hfound := (exactAmong_leafFor h hin hpass).2
      have hfound' := (exactAmong_leafFor h' (hitems ▸ hin) (hitems ▸ hpass)).2
      rw [← hitems] at hspan' hbegin' hend' hfound'
      rw [hfound, hfound', hspan, hspan']
      cases bias with
      | left =>
        rw [max_eq_left hbegin, max_eq_left hbegin', if_pos (by omega), if_pos (by omega),
          getElem?_eq_getElem (by omega)]
        exact iff_of_true ⟨hpass, _, rfl, rfl⟩ (fun hright => by cases hright)
      | right =>
        simp only [min_eq_left hend.le, min_eq_left hend'.le, hpass, hlt, true_and, true_imp_iff,
          max_lt_iff, hbetween.1.trans_lt hbetween.2]
        constructor
        · rintro ⟨extent, hextent, hextent'⟩
          split_ifs at hextent hextent' with hb hb'
          exact ⟨hb, hb', hextent.trans hextent'.symm⟩
        · rintro ⟨hb, hb', heq⟩
          rw [if_pos hb, if_pos hb', ← heq, getElem?_eq_getElem (by omega)]
          exact ⟨_, rfl, rfl⟩
  · by_cases hpass : bias.passes (target (endAt (Dimension.zero S) tree.items)) = true
    · exact iff_of_true (.inl hpass) (.inl (hwhole.mpr hpass))
    · have hpass := Bool.eq_false_of_not_eq_true hpass
      have hends := (exactAmong_leafFor h hin hpass).1
      have hends' := (exactAmong_leafFor h' (hitems ▸ hin) (hitems ▸ hpass)).1
      rw [← hitems] at hends'
      rw [hends, hends', ← hwhole]

/-- Exact searches of two trees with the same items give the same, and find an item that ends
exactly at the target if there is one, just if the leaves that the ends of the nodes lead to allow
it; for a target in order along the items, just if the leaves of the two trees end so. -/
theorem findExact_agrees_iff {tree other : SumTree T S} (htree : tree.Valid) (hother : other.Valid)
    (hitems : tree.items = other.items) (target : D → Ordering) (bias : Bias) :
    (FindsAlike target bias tree other ↔ SameLeaves target bias tree other) ∧
      (InOrder target (Dimension.zero S) tree.items →
        (FindsAlike target bias tree other ↔ LeavesEndAlike target bias tree other)) := by
  have hsame := findsAlike_iff_sameLeaves htree hother hitems target bias
  refine ⟨hsame, fun hin => hsame.trans ?_⟩
  rcases htree with rfl | ⟨height, h⟩
  · rw [new, items_leaf] at hitems
    obtain rfl := new_of_items hother hitems.symm
    refine iff_of_true (sameLeaves_new target bias) ?_
    rw [LeavesEndAlike, new, items_leaf, extents, any_nil]
    exact .inl rfl
  · rcases hother with rfl | ⟨height', h'⟩
    · rw [new, items_leaf] at hitems
      exact absurd hitems h.items_ne_nil
    · exact sameLeaves_iff_of_inOrder h h' hitems hin

/-- Trees of thirteen letters in which the search from the right finds the sixth alike. -/
theorem findExact_agrees_sixth :
    FindsAlike (fun d : Count => compare 6 d.val) .right (twoLeaves "abcdefghijkl" "m")
      (twoLeaves "abcdefg" "hijklm") :=
  ((findExact_agrees_iff
    (.inr ⟨1, twoLeaves_wellFormed (by decide) (by decide) (by decide) (by decide)⟩)
    (.inr ⟨1, twoLeaves_wellFormed (by decide) (by decide) (by decide) (by decide)⟩) rfl _ _).2
      (by unfold InOrder; decide)).mpr (by
        rw [LeavesEndAlike, if_pos (by decide)]
        exact fun _ => by decide)

/-- Thirteen letters in a tree built from all of them, and in one built from seven and extended by
six. From the right the seventh is found in the first tree only. -/
theorem not_findExact_agrees_extended :
    ∃ built extended : SumTree Char Count, fromIter "abcdefghijklm".toList = some built ∧
      (fromIter "abcdefg".toList).bind (fun tree => tree.extend "hijklm".toList) = some extended ∧
      built.Valid ∧ extended.Valid ∧ built.items = extended.items ∧
      built.findExact (fun d : Count => compare 7 d.val) .right = (⟨6⟩, ⟨7⟩, some 'g') ∧
      extended.findExact (fun d : Count => compare 7 d.val) .right = (⟨13⟩, ⟨13⟩, none) := by
  refine ⟨twoLeaves "abcdefghijkl" "m", twoLeaves "abcdefg" "hijklm", ?_, ?_,
    .inr ⟨1, twoLeaves_wellFormed (by decide) (by decide) (by decide) (by decide)⟩,
    .inr ⟨1, twoLeaves_wellFormed (by decide) (by decide) (by decide) (by decide)⟩,
    rfl, by decide, by decide⟩
  · simp [fromIter, leavesOf, fromNodes, parentsOf, TREE_BASE, fit]
    rfl
  · simp [fromIter, extend, leavesOf, fromNodes, TREE_BASE, append, isEmpty, height,
      pushTreeRecursive, leafItems, childSummaries, appendItems, fit]
    rfl

end SumTree

end GpuiFast
