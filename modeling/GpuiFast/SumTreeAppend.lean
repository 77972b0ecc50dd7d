import GpuiFast.SumTree

namespace GpuiFast

open List Option

class LawfulSummary (S : Type) [Summary S] : Prop where
  add_assoc : ∀ a b c : S, Summary.addSummary (Summary.addSummary a b) c =
    Summary.addSummary a (Summary.addSummary b c)
  zero_add : ∀ a : S, Summary.addSummary Summary.zero a = a

variable {T S : Type} [Summary S]

def total [Item T S] (items : List T) : S := sum (items.map Item.summary)

section Sums

variable [LawfulSummary S]

variable (a : S)

lemma foldl_addSummary {l : List S} (hl : l ≠ []) :
    l.foldl Summary.addSummary a = Summary.addSummary a (sum l) := by
  induction l generalizing a with
  | nil => exact absurd rfl hl
  | cons b l ih =>
    rw [sum, foldl_cons, foldl_cons, LawfulSummary.zero_add]
    cases l with
    | nil => rfl
    | cons c l => rw [ih _ (cons_ne_nil c l), ih b (cons_ne_nil c l), LawfulSummary.add_assoc]

lemma sum_append (l : List S) {l' : List S} (hl' : l' ≠ []) :
    sum (l ++ l') = Summary.addSummary (sum l) (sum l') := by
  rw [sum, foldl_append, foldl_addSummary _ hl']
  rfl

lemma sum_singleton : sum [a] = a := LawfulSummary.zero_add a

lemma total_append [Item T S] (l : List T) {l' : List T} (hl' : l' ≠ []) :
    total (l ++ l') = Summary.addSummary (total l : S) (total l') := by
  rw [total, map_append, sum_append _ (map_eq_nil_iff.not.mpr hl')]
  rfl

end Sums

namespace SumTree

section Items

omit [Summary S]

@[simp] lemma items_leaf (summary : S) (items : List T) (itemSummaries : List S) :
    (leaf summary items itemSummaries).items = items := by rw [SumTree.items]

@[simp] lemma items_internal (height : ℕ) (summary : S) (childSummaries : List S)
    (childTrees : List (SumTree T S)) :
    (internal height summary childSummaries childTrees).items = itemsOf childTrees := by
  rw [SumTree.items]

@[simp] lemma itemsOf_nil : itemsOf ([] : List (SumTree T S)) = [] := by rw [itemsOf]

@[simp] lemma itemsOf_cons (tree : SumTree T S) (trees : List (SumTree T S)) :
    itemsOf (tree :: trees) = tree.items ++ itemsOf trees := by rw [itemsOf]

@[simp] lemma itemsOf_append (trees trees' : List (SumTree T S)) :
    itemsOf (trees ++ trees') = itemsOf trees ++ itemsOf trees' := by
  induction trees with
  | nil => simp
  | cons tree trees ih => simp [ih]

end Items

variable [Item T S]

inductive WellFormed : ℕ → SumTree T S → Prop
  | leaf {items : List T} (hne : items ≠ []) (hle : items.length ≤ 2 * TREE_BASE) :
      WellFormed 0 (.leaf (total items) items (items.map Item.summary))
  | internal {height : ℕ} {trees : List (SumTree T S)} (hne : trees ≠ [])
      (hle : trees.length ≤ 2 * TREE_BASE) (htrees : ∀ tree ∈ trees, WellFormed height tree) :
      WellFormed (height + 1) (.internal (height + 1) (total (itemsOf trees))
        (trees.map (fun tree => total tree.items)) trees)

def Valid (tree : SumTree T S) : Prop := tree = new ∨ ∃ height, WellFormed height tree

variable {h : ℕ} {tree : SumTree T S} {trees : List (SumTree T S)}

lemma WellFormed.height_eq (hwf : WellFormed h tree) : tree.height = h := by
  cases hwf <;> rfl

lemma WellFormed.summary_eq (hwf : WellFormed h tree) : tree.summary = total tree.items := by
  cases hwf with
  | leaf => rw [items_leaf, SumTree.summary]
  | internal => rw [items_internal, SumTree.summary]

lemma WellFormed.items_ne_nil (hwf : WellFormed h tree) : tree.items ≠ [] := by
  induction hwf with
  | leaf hne => rwa [items_leaf]
  | @internal _ trees hne _ _ ih =>
    obtain ⟨tree, rest, rfl⟩ := exists_cons_of_ne_nil hne
    rw [items_internal, itemsOf_cons]
    exact fun h => ih tree (mem_cons_self ..) (append_eq_nil_iff.mp h).1

lemma WellFormed.not_isEmpty (hwf : WellFormed h tree) : tree.isEmpty = false := by
  cases hwf with
  | leaf hne => exact isEmpty_eq_false_iff.mpr hne
  | internal => rfl

lemma itemsOf_ne_nil (hne : trees ≠ []) (htrees : ∀ tree ∈ trees, WellFormed h tree) :
    itemsOf trees ≠ [] := by
  obtain ⟨tree, rest, rfl⟩ := exists_cons_of_ne_nil hne
  rw [itemsOf_cons]
  exact fun heq => (htrees tree (mem_cons_self ..)).items_ne_nil (append_eq_nil_iff.mp heq).1

section Fit

variable {α : Type}

omit [Summary S] [Item T S]

lemma one_fits (x : α) : [x].length ≤ 2 * TREE_BASE := by
  rw [length_singleton, TREE_BASE]
  omega

lemma fit_eq_some {l : List α} (h : l.length ≤ 2 * TREE_BASE) : fit l = some l := if_pos h

lemma setLast_append_singleton (l : List α) (x y : α) : setLast (l ++ [x]) y = some (l ++ [y]) := by
  cases l with
  | nil => rfl
  | cons a l => rw [cons_append, setLast, ← cons_append, dropLast_concat, cons_append]

end Fit

variable [LawfulSummary S]

lemma sum_total (htrees : ∀ tree ∈ trees, WellFormed h tree) :
    sum (trees.map (fun tree => total tree.items)) = (total (itemsOf trees) : S) := by
  induction trees using reverseRecOn with
  | nil => rw [itemsOf_nil]; rfl
  | append_singleton trees tree ih =>
    have htree := htrees tree (mem_append_right _ (mem_singleton_self tree))
    rw [map_append, map_singleton, sum_append _ (cons_ne_nil _ _), ih (fun t ht => htrees t
      (mem_append_left _ ht)), itemsOf_append, itemsOf_cons, itemsOf_nil, append_nil,
      total_append _ htree.items_ne_nil]
    exact congrArg _ (sum_singleton _)

lemma wellFormed_internal (hne : trees ≠ []) (hle : trees.length ≤ 2 * TREE_BASE)
    (htrees : ∀ tree ∈ trees, WellFormed h tree) :
    WellFormed (h + 1) (.internal (h + 1) (sum (trees.map (fun tree => total tree.items)))
      (trees.map (fun tree => total tree.items)) trees) := by
  rw [sum_total htrees]
  exact .internal hne hle htrees

/-- What a push leaves: the node, and a second one if it had to be split. -/
def Pushed (h : ℕ) (items : List T) (r : SumTree T S × Option (SumTree T S)) : Prop :=
  WellFormed h r.1 ∧ match r.2 with
    | none => r.1.items = items
    | some splitTree => WellFormed h splitTree ∧ r.1.items ++ splitTree.items = items

lemma halves {α : Type} {l : List α} (hlt : 2 * TREE_BASE < l.length)
    (hle : l.length ≤ 2 * (2 * TREE_BASE)) :
    (l.take ((l.length + 1) / 2) ≠ [] ∧ (l.take ((l.length + 1) / 2)).length ≤ 2 * TREE_BASE) ∧
      l.drop ((l.length + 1) / 2) ≠ [] ∧ (l.drop ((l.length + 1) / 2)).length ≤ 2 * TREE_BASE := by
  rw [TREE_BASE] at *
  have htake : (l.take ((l.length + 1) / 2)).length = (l.length + 1) / 2 := by
    rw [length_take]
    omega
  have hdrop : (l.drop ((l.length + 1) / 2)).length = l.length / 2 := by
    rw [length_drop]
    omega
  refine ⟨⟨ne_nil_of_length_pos ?_, ?_⟩, ne_nil_of_length_pos ?_, ?_⟩ <;> omega

lemma appendChildren_spec {more : List (SumTree T S)} (hne : trees ≠ [])
    (hle : trees.length ≤ 2 * TREE_BASE) (hle' : more.length ≤ 2 * TREE_BASE)
    (htrees : ∀ tree ∈ trees ++ more, WellFormed h tree) :
    ∃ r, appendChildren (h + 1) (total (itemsOf (trees ++ more)))
        (trees.map (fun tree => total tree.items)) trees (more.map (fun tree => total tree.items))
        more = some r ∧ Pushed (h + 1) (itemsOf (trees ++ more)) r := by
  rw [appendChildren]
  dsimp only
  rw [← map_append, ← length_append]
  split
  · next hlt =>
    have hmid : ((trees ++ more).length + (trees ++ more).length % 2) / 2 =
        ((trees ++ more).length + 1) / 2 := by omega
    obtain ⟨⟨hleft, hleft'⟩, hright, hright'⟩ :=
      halves hlt (by rw [length_append]; omega)
    rw [hmid, ← map_take, ← map_drop, fit_eq_some (by rwa [length_map]),
      fit_eq_some (by rwa [length_map]), fit_eq_some hleft', fit_eq_some hright']
    refine ⟨_, rfl, wellFormed_internal hleft hleft' (fun t ht => htrees t (mem_of_mem_take ht)),
      wellFormed_internal hright hright' (fun t ht => htrees t (mem_of_mem_drop ht)), ?_⟩
    rw [items_internal, items_internal, ← itemsOf_append, take_append_drop]
  · next hlt =>
    rw [fit_eq_some (by rw [length_map]; omega), fit_eq_some (by omega)]
    exact ⟨_, rfl, .internal (append_ne_nil_of_left_ne_nil hne _) (by omega) htrees, by
      dsimp only; rw [items_internal]⟩

lemma appendItems_spec {items more : List T} (hne : items ≠ [])
    (hle : items.length ≤ 2 * TREE_BASE) (hne' : more ≠ []) (hle' : more.length ≤ 2 * TREE_BASE) :
    ∃ r, appendItems (total items) items (items.map Item.summary) (total more) more
        (more.map Item.summary) = some r ∧ Pushed (S := S) 0 (items ++ more) r := by
  rw [appendItems]
  dsimp only
  rw [← map_append, ← length_append, ← total_append _ hne']
  split
  · next hlt =>
    have hmid : ((items ++ more).length + (items ++ more).length % 2) / 2 =
        ((items ++ more).length + 1) / 2 := by omega
    obtain ⟨⟨hleft, hleft'⟩, hright, hright'⟩ :=
      halves hlt (by rw [length_append]; omega)
    rw [hmid, ← map_take, ← map_drop, fit_eq_some hleft', fit_eq_some hright',
      fit_eq_some (by rwa [length_map]), fit_eq_some (by rwa [length_map])]
    refine ⟨_, rfl, WellFormed.leaf hleft hleft', WellFormed.leaf hright hright', ?_⟩
    rw [items_leaf, items_leaf, take_append_drop]
  · next hlt =>
    rw [fit_eq_some (by omega), fit_eq_some (by rw [length_map]; omega)]
    exact ⟨_, rfl, .leaf (append_ne_nil_of_left_ne_nil hne _) (by omega), by
      dsimp only; rw [items_leaf]⟩

variable {h' : ℕ} {self other small large : SumTree T S}

theorem pushTreeRecursive_spec (hself : WellFormed h self) (hother : WellFormed h' other)
    (hle : h' ≤ h) :
    ∃ r, pushTreeRecursive self other = some r ∧ Pushed h (self.items ++ other.items) r := by
  induction h generalizing self with
  | zero =>
    obtain rfl : h' = 0 := Nat.le_zero.mp hle
    cases hself with
    | leaf hne hfit =>
      cases hother with
      | leaf hne' hfit' =>
        obtain ⟨r, hr, hpushed⟩ := appendItems_spec (S := S) hne hfit hne' hfit'
        rw [pushTreeRecursive, items_leaf, items_leaf]
        exact ⟨r, hr, hpushed⟩
  | succ h ih =>
    cases hself with
    | @internal _ trees hne hfit htrees =>
      have hsum : Summary.addSummary (total (itemsOf trees) : S) other.summary =
          total (itemsOf trees ++ other.items) := by
        rw [hother.summary_eq, total_append _ hother.items_ne_nil]
      rw [pushTreeRecursive, hsum, hother.height_eq, items_internal]
      dsimp only
      split
      · next hzero =>
        -- of the same height: its children are appended
        obtain rfl : h' = h + 1 := by omega
        cases hother with
        | @internal _ trees' hne' hfit' htrees' =>
          obtain ⟨r, hr, hpushed⟩ := appendChildren_spec hne hfit hfit' (fun t ht =>
            (mem_append.mp ht).elim (htrees t) (htrees' t))
          rw [items_internal, ← itemsOf_append]
          exact ⟨r, hr, hpushed⟩
      · split
        · next hone =>
          obtain rfl : h' = h := by omega
          have hmore : ∀ t ∈ trees ++ [other], WellFormed h' t := fun t ht =>
            (mem_append.mp ht).elim (htrees t) (fun ht => mem_singleton.mp ht ▸ hother)
          obtain ⟨r, hr, hpushed⟩ := appendChildren_spec hne hfit (one_fits other) hmore
          have hitems : itemsOf (trees ++ [other]) = itemsOf trees ++ other.items := by simp
          rw [hitems, map_singleton, ← hother.summary_eq] at hr
          rw [hitems] at hpushed
          exact ⟨r, hr, hpushed⟩
        · next hzero hone =>
          -- it is pushed into the last child
          obtain ⟨init, last, rfl⟩ := eq_nil_or_concat trees |>.resolve_left hne
          rw [concat_eq_append] at *
          have hlast := htrees last (mem_append_right _ (mem_singleton_self last))
          have hinit : ∀ t ∈ init, WellFormed h t := fun t ht => htrees t (mem_append_left _ ht)
          obtain ⟨⟨last', splitTree⟩, hrec, hlast', hsplit⟩ := ih hlast (by omega)
          have hchildren : ∀ t ∈ init ++ [last'], WellFormed h t := fun t ht =>
            (mem_append.mp ht).elim (hinit t) (fun ht => mem_singleton.mp ht ▸ hlast')
          have hlen : (init ++ [last']).length ≤ 2 * TREE_BASE := by
            rw [length_append, length_singleton] at hfit ⊢
            exact hfit
          split
          · next hnone => simp at hnone
          next last₁ hlast₁ =>
          obtain rfl : last = last₁ := by simpa using hlast₁
          simp only [hrec, bind_eq_bind, bind_some, map_append, map_singleton,
            setLast_append_singleton, hlast'.summary_eq]
          cases splitTree with
          | none =>
            obtain ⟨r, hr, hpushed⟩ := appendChildren_spec (concat_ne_nil _ _) hlen
              (Nat.zero_le _) (by rwa [append_nil])
            have hitems : itemsOf (init ++ [last'] ++ []) = itemsOf (init ++ [last]) ++ other.items := by
              simpa using hsplit
            rw [hitems] at hr hpushed
            rw [map_append, map_singleton, map_nil] at hr
            exact ⟨r, hr, hpushed⟩
          | some splitTree =>
            obtain ⟨hsplitTree, hsplit⟩ := hsplit
            obtain ⟨r, hr, hpushed⟩ := appendChildren_spec (concat_ne_nil _ _) hlen
              (one_fits splitTree) (fun t ht => (mem_append.mp ht).elim (hchildren t)
                (fun ht => mem_singleton.mp ht ▸ hsplitTree))
            have hitems : itemsOf (init ++ [last'] ++ [splitTree]) =
                itemsOf (init ++ [last]) ++ other.items := by simpa using hsplit
            rw [hitems] at hr hpushed
            rw [map_append, map_singleton, map_singleton, ← hsplitTree.summary_eq] at hr
            exact ⟨r, hr, hpushed⟩

/-- What a merge leaves: the node at the right, and one before it if it was too much for one. -/
def Merged (h : ℕ) (items : List T) (r : Option (SumTree T S) × SumTree T S) : Prop :=
  WellFormed h r.2 ∧ match r.1 with
    | none => r.2.items = items
    | some tree => WellFormed h tree ∧ tree.items ++ r.2.items = items

lemma mergeIntoRight_spec (hsmall : WellFormed h small) (hlarge : WellFormed h large) :
    ∃ r, mergeIntoRight small large = some r ∧ Merged h (small.items ++ large.items) r := by
  cases hsmall with
  | @leaf items hne hfit =>
    cases hlarge with
    | @leaf items' hne' hfit' =>
      rw [mergeIntoRight, items_leaf, items_leaf]
      dsimp only
      rw [← map_append, ← length_append, ← total_append _ hne']
      split
      · next hle =>
        rw [fit_eq_some hle, fit_eq_some (by rwa [length_map])]
        exact ⟨_, rfl, .leaf (append_ne_nil_of_left_ne_nil hne _) hle, items_leaf ..⟩
      · next hlt =>
        obtain ⟨⟨hleft, hleft'⟩, hright, hright'⟩ :=
          halves (not_le.mp hlt) (by rw [length_append]; omega)
        rw [← map_take, ← map_drop, fit_eq_some hleft', fit_eq_some hright',
          fit_eq_some (by rwa [length_map]), fit_eq_some (by rwa [length_map])]
        refine ⟨_, rfl, WellFormed.leaf hright hright', WellFormed.leaf hleft hleft', ?_⟩
        rw [items_leaf, items_leaf, take_append_drop]
  | @internal h trees hne hfit htrees =>
    cases hlarge with
    | @internal _ trees' hne' hfit' htrees' =>
      have hall : ∀ t ∈ trees ++ trees', WellFormed h t := fun t ht =>
        (mem_append.mp ht).elim (htrees t) (htrees' t)
      rw [mergeIntoRight, items_internal, items_internal, ← itemsOf_append]
      dsimp only
      rw [← map_append, Nat.add_comm trees'.length, ← length_append,
        ← total_append _ (itemsOf_ne_nil hne' htrees'), ← itemsOf_append]
      split
      · next hle =>
        rw [fit_eq_some hle, fit_eq_some (by rwa [length_map])]
        exact ⟨_, rfl, .internal (append_ne_nil_of_left_ne_nil hne _) hle hall,
          items_internal ..⟩
      · next hlt =>
        obtain ⟨⟨hleft, hleft'⟩, hright, hright'⟩ :=
          halves (not_le.mp hlt) (by rw [length_append]; omega)
        rw [← map_take, ← map_drop, fit_eq_some hleft', fit_eq_some hright',
          fit_eq_some (by rwa [length_map]), fit_eq_some (by rwa [length_map])]
        refine ⟨_, rfl, wellFormed_internal hright hright' (fun t ht => hall t
          (mem_of_mem_drop ht)), wellFormed_internal hleft hleft' (fun t ht => hall t
          (mem_of_mem_take ht)), ?_⟩
        rw [items_internal, items_internal, ← itemsOf_append, take_append_drop]

theorem appendLarge_spec (hsmall : WellFormed h small) (hlarge : WellFormed h' large) (hle : h ≤ h') :
    ∃ r, appendLarge small large = some r ∧ Merged h' (small.items ++ large.items) r := by
  induction hlarge with
  | @leaf items hne hfit =>
    obtain rfl : h = 0 := Nat.le_zero.mp hle
    rw [appendLarge.eq_def, hsmall.height_eq, SumTree.height, if_pos rfl]
    split
    · exact ⟨_, rfl, .leaf hne hfit, hsmall, rfl⟩
    · exact mergeIntoRight_spec hsmall (.leaf hne hfit)
  | @internal h' trees hne hfit htrees ih =>
    have hlarge := WellFormed.internal hne hfit htrees
    obtain ⟨first, rest, rfl⟩ := exists_cons_of_ne_nil hne
    rw [appendLarge, hsmall.height_eq, hlarge.height_eq]
    split
    · next heq =>
      rw [heq] at hsmall
      split
      · exact ⟨_, rfl, hlarge, hsmall, rfl⟩
      · exact mergeIntoRight_spec hsmall hlarge
    · next hneq =>
      obtain ⟨⟨res, first'⟩, hrec, hfirst', hres⟩ := ih first (mem_cons_self ..) (by omega)
      have hrest : ∀ t ∈ rest, WellFormed h' t := fun t ht => htrees t (mem_cons_of_mem _ ht)
      have hchildren : ∀ t ∈ first' :: rest, WellFormed h' t := fun t ht =>
        (mem_cons.mp ht).elim (fun ht => ht ▸ hfirst') (hrest t)
      have hsum : Summary.addSummary small.summary (total (itemsOf (first :: rest)) : S) =
          total (small.items ++ itemsOf (first :: rest)) := by
        rw [hsmall.summary_eq, total_append _ (itemsOf_ne_nil hne htrees)]
      have hlen : (first' :: rest).length = (first :: rest).length := rfl
      simp only [hrec, hsum, bind_eq_bind, bind_some, map_cons, setFirst,
        hfirst'.summary_eq, items_internal]
      cases res with
      | none =>
        have hitems : itemsOf (first' :: rest) = small.items ++ itemsOf (first :: rest) := by
          rw [itemsOf_cons, itemsOf_cons, ← append_assoc]
          exact congrArg (· ++ itemsOf rest) hres
        refine ⟨_, rfl, ?_, (items_internal ..).trans hitems⟩
        rw [← hitems]
        exact .internal (cons_ne_nil _ _) (hlen ▸ hfit) hchildren
      | some tree =>
        obtain ⟨htree, hres⟩ := hres
        have hall : ∀ t ∈ tree :: first' :: rest, WellFormed h' t := fun t ht =>
          (mem_cons.mp ht).elim (fun ht => ht ▸ htree) (hchildren t)
        have hitems : itemsOf (tree :: first' :: rest) = small.items ++ itemsOf (first :: rest) := by
          rw [itemsOf_cons, itemsOf_cons, itemsOf_cons, ← append_assoc, ← append_assoc]
          exact congrArg (· ++ itemsOf rest) hres
        dsimp only
        split
        · next hlt =>
          rw [htree.summary_eq, fit_eq_some (by simpa using hlt), fit_eq_some (by simpa using hlt)]
          refine ⟨_, rfl, ?_, (items_internal ..).trans hitems⟩
          rw [← hitems]
          exact .internal (cons_ne_nil _ _) (by simpa using hlt) hall
        · next hlt =>
          have hfull : (first' :: rest).length = 2 * TREE_BASE :=
            le_antisymm (hlen ▸ hfit) (not_lt.mp hlt)
          have hnew : (tree :: (first' :: rest).take TREE_BASE).length ≤ 2 * TREE_BASE := by
            rw [length_cons, length_take, hfull, TREE_BASE]
            omega
          have hdrop : ((first' :: rest).drop TREE_BASE).length = TREE_BASE := by
            rw [length_drop, hfull, TREE_BASE]
          have hmap : (total first'.items : S) :: rest.map (fun tree => total tree.items) =
              (first' :: rest).map (fun tree => total tree.items) := rfl
          rw [hmap, htree.summary_eq, ← map_take, ← map_drop,
            ← map_cons (f := fun tree : SumTree T S => (total tree.items : S)),
            fit_eq_some (by rwa [length_map]), fit_eq_some hnew]
          refine ⟨_, rfl, ?_, ?_, ?_⟩
          · refine wellFormed_internal (ne_nil_of_length_pos ?_) ?_
              (fun t ht => hchildren t (mem_of_mem_drop ht))
            · rw [hdrop]
              decide
            · rw [hdrop]
              decide
          · refine wellFormed_internal (cons_ne_nil _ _) hnew (fun t ht => hall t ?_)
            rcases mem_cons.mp ht with rfl | ht
            · exact mem_cons_self ..
            · exact mem_cons_of_mem _ (mem_of_mem_take ht)
          · rw [items_internal, items_internal, ← itemsOf_append, cons_append,
              take_append_drop, hitems]

lemma wellFormed_fromChildTrees {left right : SumTree T S} (hleft : WellFormed h left)
    (hright : WellFormed h right) :
    WellFormed (h + 1) (fromChildTrees left right) ∧
      (fromChildTrees left right).items = left.items ++ right.items := by
  have hboth : ∀ t ∈ [left, right], WellFormed h t := by
    intro t ht
    rcases mem_cons.mp ht with rfl | ht
    · exact hleft
    · exact mem_singleton.mp ht ▸ hright
  have hwf := wellFormed_internal (cons_ne_nil left [right]) (by
    rw [length_cons, length_singleton, TREE_BASE]; omega) hboth
  rw [fromChildTrees, hleft.height_eq, hleft.summary_eq, hright.summary_eq, items_internal]
  exact ⟨hwf, by simp⟩

/-- Appending keeps trees valid, and appends their items. -/
theorem append_spec (hself : self.Valid) (hother : other.Valid) :
    ∃ tree, self.append other = some tree ∧ tree.Valid ∧ tree.items = self.items ++ other.items := by
  rw [append]
  rcases hself with rfl | ⟨h, hself⟩
  · exact ⟨other, rfl, hother, by rw [new, items_leaf, nil_append]⟩
  rw [if_neg (by rw [hself.not_isEmpty]; decide)]
  rcases hother with rfl | ⟨h', hother⟩
  · exact ⟨self, rfl, .inr ⟨h, hself⟩, by rw [new, items_leaf, append_nil]⟩
  rw [if_neg (by rw [hother.not_isEmpty]; decide)]
  rw [hself.height_eq, hother.height_eq]
  split
  · next hhigher =>
    obtain ⟨⟨res, other'⟩, hr, hother', hres⟩ := appendLarge_spec hself hother hhigher.le
    rw [hr]
    cases res with
    | none => exact ⟨other', rfl, .inr ⟨h', hother'⟩, hres⟩
    | some tree =>
      obtain ⟨hwf, hitems⟩ := wellFormed_fromChildTrees hres.1 hother'
      exact ⟨_, rfl, .inr ⟨_, hwf⟩, hitems.trans hres.2⟩
  · next hhigher =>
    obtain ⟨⟨self', splitTree⟩, hr, hself', hsplit⟩ :=
      pushTreeRecursive_spec hself hother (not_lt.mp hhigher)
    rw [hr]
    cases splitTree with
    | none => exact ⟨self', rfl, .inr ⟨h, hself'⟩, hsplit⟩
    | some splitTree =>
      obtain ⟨hwf, hitems⟩ := wellFormed_fromChildTrees hself' hsplit.1
      exact ⟨_, rfl, .inr ⟨_, hwf⟩, hitems.trans hsplit.2⟩

end SumTree

end GpuiFast
