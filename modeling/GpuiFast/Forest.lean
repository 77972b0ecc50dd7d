import GpuiFast.OptionMaps
import Mathlib.Data.Finset.Card

/-! Nodes that each have a link to their parent, and for each parent the ordered list of its children;
the roots are the children of no parent. The two are in step and the links have no cycle. Walking
down from the roots lists each node once, parents first, and walking up from a node ends at a root;
both walks are bounded by the number of nodes. -/

namespace GpuiFast

open List Option Function Relation

variable {S : Type*}

structure IsForest (nodes : Finset S) (parent : S → Option S) (children : Option S → List S) :
    Prop where
  mem_children : ∀ {p x}, x ∈ children p ↔ x ∈ nodes ∧ parent x = p
  nodup_children : ∀ p, (children p).Nodup
  parent_mem : ∀ {x p}, x ∈ nodes → parent x = some p → p ∈ nodes
  ranked : ∃ rank : S → ℕ, ∀ {x p}, x ∈ nodes → parent x = some p → rank p < rank x

def LinksTo (nodes : Finset S) (parent : S → Option S) (x p : S) : Prop :=
  x ∈ nodes ∧ parent x = some p

def Under (nodes : Finset S) (parent : S → Option S) : S → S → Prop :=
  ReflTransGen (LinksTo nodes parent)

def flattenFrom (children : Option S → List S) : ℕ → S → Option (List S)
  | 0, _ => none
  | fuel + 1, x => do
    let below ← (children (some x)).mapM (flattenFrom children fuel)
    return x :: below.flatten

/-- Whether `ancestor` is met on the way up from `x`. -/
def climbsTo [DecidableEq S] (parent : S → Option S) (ancestor : S) : ℕ → S → Option Bool
  | 0, _ => none
  | fuel + 1, x =>
    if x = ancestor then some true
    else
      match parent x with
      | none => some false
      | some p => climbsTo parent ancestor fuel p

namespace IsForest

variable {nodes : Finset S} {parent : S → Option S} {children : Option S → List S}

lemma linksTo_rightUnique : Relator.RightUnique (LinksTo nodes parent) := by
  intro x p q hp hq
  exact some_injective _ (hp.2.symm.trans hq.2)

variable {rank : S → ℕ} {x a : S} {p : Option S}

lemma under_rank (hrank : ∀ {x p}, x ∈ nodes → parent x = some p → rank p < rank x)
    (h : Under nodes parent x a) : rank a ≤ rank x := by
  induction h with
  | refl => exact Nat.le_refl _
  | tail _ hlink ih => exact (hrank hlink.1 hlink.2).le.trans ih

theorem acyclic (h : IsForest nodes parent children) (x : S) :
    ¬ TransGen (LinksTo nodes parent) x x := by
  obtain ⟨rank, hrank⟩ := h.ranked
  intro hx
  obtain ⟨p, hxp, hp⟩ := TransGen.tail'_iff.mp hx
  have hle := under_rank hrank hxp
  have hlt := hrank hp.1 hp.2
  omega

lemma under_mem (ha : a ∈ nodes) (hx : Under nodes parent x a) : x ∈ nodes := by
  rcases ReflTransGen.cases_head hx with rfl | ⟨p, hp, _⟩
  · exact ha
  · exact hp.1

lemma under_iff (h : IsForest nodes parent children) :
    Under nodes parent x a ↔ x = a ∨ ∃ c ∈ children (some a), Under nodes parent x c := by
  constructor
  · intro hx
    rcases ReflTransGen.cases_tail hx with rfl | ⟨c, hxc, hc⟩
    · exact .inl rfl
    · exact .inr ⟨c, h.mem_children.mpr hc, hxc⟩
  · rintro (rfl | ⟨c, hc, hxc⟩)
    · exact ReflTransGen.refl
    · exact hxc.tail (h.mem_children.mp hc)

lemma eq_of_under_siblings (h : IsForest nodes parent children) {c d : S} (hc : c ∈ children p)
    (hd : d ∈ children p) (hxc : Under nodes parent x c) (hxd : Under nodes parent x d) :
    c = d := by
  have hone : ∀ {c d : S}, c ∈ children p → d ∈ children p → Under nodes parent c d → c = d := by
    intro c d hc hd hcd
    rcases ReflTransGen.cases_head hcd with rfl | ⟨q, hq, hqd⟩
    · rfl
    · -- the parent of both would be under one of its children
      exfalso
      have hdq : LinksTo nodes parent d q :=
        ⟨(h.mem_children.mp hd).1,
          (h.mem_children.mp hd).2.trans ((h.mem_children.mp hc).2.symm.trans hq.2)⟩
      exact h.acyclic d (TransGen.head' hdq hqd)
  rcases ReflTransGen.total_of_right_unique linksTo_rightUnique hxc hxd with hcd | hdc
  · exact hone hc hd hcd
  · exact (hone hd hc hdc).symm

structure Lists (nodes : Finset S) (parent : S → Option S) (x : S) (out : List S) : Prop where
  head : ∃ rest, out = x :: rest
  nodup : out.Nodup
  mem_iff : ∀ y, y ∈ out ↔ Under nodes parent y x
  parent_first : ∀ {y p}, LinksTo nodes parent y p → Under nodes parent p x → [p, y].Sublist out

section

variable (h : IsForest nodes parent children)
include h

variable {g : S → List S}

lemma lists_siblings (hg : ∀ c ∈ children p, Lists nodes parent c (g c)) :
    ((children p).map g).flatten.Nodup ∧
      (∀ y, y ∈ ((children p).map g).flatten ↔ ∃ c ∈ children p, Under nodes parent y c) ∧
      ∀ {y q c}, c ∈ children p → LinksTo nodes parent y q → Under nodes parent q c →
        [q, y].Sublist ((children p).map g).flatten := by
  refine ⟨?_, ?_, ?_⟩
  · rw [nodup_flatten]
    constructor
    · intro l hl
      obtain ⟨c, hc, rfl⟩ := List.mem_map.mp hl
      exact (hg c hc).nodup
    · rw [pairwise_map]
      refine (h.nodup_children p).pairwise_of_forall_ne ?_
      intro c hc d hd hne y hyc hyd
      exact hne (h.eq_of_under_siblings hc hd (((hg c hc).mem_iff y).mp hyc)
        (((hg d hd).mem_iff y).mp hyd))
  · intro y
    simp only [mem_flatten, List.mem_map]
    constructor
    · rintro ⟨l, ⟨c, hc, rfl⟩, hy⟩
      exact ⟨c, hc, ((hg c hc).mem_iff y).mp hy⟩
    · rintro ⟨c, hc, hy⟩
      exact ⟨g c, ⟨c, hc, rfl⟩, ((hg c hc).mem_iff y).mpr hy⟩
  · intro y q c hc hy hq
    have hsub : (g c).Sublist ((children p).map g).flatten :=
      sublist_flatten_of_mem (mem_map_of_mem hc)
    exact ((hg c hc).parent_first hy hq).trans hsub

lemma lists_node (hg : ∀ c ∈ children (some x), Lists nodes parent c (g c)) :
    Lists nodes parent x (x :: ((children (some x)).map g).flatten) := by
  obtain ⟨hnodup, hmem, hfirst⟩ := h.lists_siblings hg
  constructor
  case head => exact ⟨_, rfl⟩
  case nodup =>
    refine nodup_cons.mpr ⟨fun hx => ?_, hnodup⟩
    obtain ⟨c, hc, hxc⟩ := (hmem x).mp hx
    exact h.acyclic c (TransGen.head' (h.mem_children.mp hc) hxc)
  case mem_iff =>
    intro y
    rw [mem_cons, hmem, h.under_iff]
  case parent_first =>
    intro y p hy hp
    rcases h.under_iff.mp hp with rfl | ⟨c, hc, hpc⟩
    · have hyc : y ∈ children (some p) := h.mem_children.mpr hy
      have hym : y ∈ ((children (some p)).map g).flatten :=
        (hmem y).mpr ⟨y, hyc, ReflTransGen.refl⟩
      exact Sublist.cons_cons p (singleton_sublist.mpr hym)
    · exact (hfirst hc hy hpc).cons x

lemma flattenFrom_lists (hrank : ∀ {x p}, x ∈ nodes → parent x = some p → rank p < rank x)
    (fuel : ℕ) :
    ∀ x ∈ nodes, (nodes.filter (fun y => rank x < rank y)).card < fuel →
      ∃ out, flattenFrom children fuel x = some out ∧ Lists nodes parent x out := by
  induction fuel with
  | zero => exact fun x _ hf => absurd hf (Nat.not_lt_zero _)
  | succ fuel ih =>
    intro x hx hf
    have hchild : ∀ c ∈ children (some x),
        ∃ out, flattenFrom children fuel c = some out ∧ Lists nodes parent c out := by
      intro c hc
      obtain ⟨hcn, hcp⟩ := h.mem_children.mp hc
      refine ih c hcn (lt_of_lt_of_le (Finset.card_lt_card ?_) (Nat.lt_succ_iff.mp hf))
      have hxc := hrank hcn hcp
      refine Finset.ssubset_iff_subset_ne.mpr ⟨?_, ?_⟩
      · intro y hy
        simp only [Finset.mem_filter] at hy ⊢
        exact ⟨hy.1, hxc.trans hy.2⟩
      · intro heq
        have hc' : c ∈ nodes.filter (fun y => rank c < rank y) := by
          rw [heq]
          exact Finset.mem_filter.mpr ⟨hcn, hxc⟩
        exact Nat.lt_irrefl _ (Finset.mem_filter.mp hc').2
    have hg : ∀ c ∈ children (some x),
        flattenFrom children fuel c = some ((flattenFrom children fuel c).getD []) ∧
          Lists nodes parent c ((flattenFrom children fuel c).getD []) := by
      intro c hc
      obtain ⟨out, hout, hl⟩ := hchild c hc
      rw [hout]
      exact ⟨rfl, hl⟩
    refine ⟨x :: ((children (some x)).map
      (fun c => (flattenFrom children fuel c).getD [])).flatten, ?_,
      h.lists_node (fun c hc => (hg c hc).2)⟩
    rw [flattenFrom, mapM_eq_some_map (fun c hc => (hg c hc).1)]
    rfl

/-- A walk down from every root lists each node once, and each after its parent. -/
theorem flatten_roots {fuel : ℕ} (hfuel : nodes.card ≤ fuel) :
    ∃ outs, (children none).mapM (flattenFrom children fuel) = some outs ∧
      outs.flatten.Nodup ∧ (∀ y, y ∈ outs.flatten ↔ y ∈ nodes) ∧
      (∀ {y p}, LinksTo nodes parent y p → [p, y].Sublist outs.flatten) ∧
      outs.flatten.head? = (children none).head? := by
  obtain ⟨rank, hrank⟩ := h.ranked
  have hg : ∀ c ∈ children none,
      flattenFrom children fuel c = some ((flattenFrom children fuel c).getD []) ∧
        Lists nodes parent c ((flattenFrom children fuel c).getD []) := by
    intro c hc
    have hcn := (h.mem_children.mp hc).1
    have hlt : (nodes.filter (fun y => rank c < rank y)).card < fuel := by
      refine lt_of_lt_of_le (Finset.card_lt_card ?_) hfuel
      refine Finset.filter_ssubset.mpr ⟨c, hcn, Nat.lt_irrefl _⟩
    obtain ⟨out, hout, hl⟩ := h.flattenFrom_lists hrank fuel c hcn hlt
    rw [hout]
    exact ⟨rfl, hl⟩
  obtain ⟨hnodup, hmem, hfirst⟩ := h.lists_siblings (fun c hc => (hg c hc).2)
  -- every node is under a root
  have hroot : ∀ n y, y ∈ nodes → rank y ≤ n → ∃ c ∈ children none, Under nodes parent y c := by
    intro n
    induction n with
    | zero =>
      intro y hy hn
      cases hp : parent y with
      | none => exact ⟨y, h.mem_children.mpr ⟨hy, hp⟩, ReflTransGen.refl⟩
      | some p => exact absurd (hrank hy hp) (by omega)
    | succ n ih =>
      intro y hy hn
      cases hp : parent y with
      | none => exact ⟨y, h.mem_children.mpr ⟨hy, hp⟩, ReflTransGen.refl⟩
      | some p =>
        have hlt := hrank hy hp
        obtain ⟨c, hc, hpc⟩ := ih p (h.parent_mem hy hp) (by omega)
        exact ⟨c, hc, ReflTransGen.head ⟨hy, hp⟩ hpc⟩
  refine ⟨_, mapM_eq_some_map (fun c hc => (hg c hc).1), hnodup, ?_, ?_, ?_⟩
  · intro y
    rw [hmem]
    constructor
    · rintro ⟨c, hc, hyc⟩
      exact under_mem (h.mem_children.mp hc).1 hyc
    · exact fun hy => hroot _ y hy (Nat.le_refl _)
  · intro y p hy
    obtain ⟨c, hc, hpc⟩ := hroot _ p (h.parent_mem hy.1 hy.2) (Nat.le_refl _)
    exact hfirst hc hy hpc
  · cases hr : children none with
    | nil => rfl
    | cons c roots =>
      obtain ⟨rest, hrest⟩ := (hg c (hr ▸ mem_cons_self)).2.head
      rw [map_cons, flatten_cons, hrest]
      rfl

end

variable [DecidableEq S]

lemma climbsTo_eq (h : IsForest nodes parent children)
    (hrank : ∀ {x p}, x ∈ nodes → parent x = some p → rank p < rank x) (fuel : ℕ) :
    ∀ x ∈ nodes, (nodes.filter (fun y => rank y < rank x)).card < fuel →
      ∃ b, climbsTo parent a fuel x = some b ∧ (b = true ↔ Under nodes parent x a) := by
  induction fuel with
  | zero => exact fun x _ hf => absurd hf (Nat.not_lt_zero _)
  | succ fuel ih =>
    intro x hx hf
    by_cases hxa : x = a
    · exact ⟨true, by rw [climbsTo, if_pos hxa],
        by simpa using (hxa ▸ ReflTransGen.refl : Under nodes parent x a)⟩
    · rw [climbsTo, if_neg hxa]
      cases hp : parent x with
      | none =>
        refine ⟨false, rfl, ?_⟩
        simp only [Bool.false_eq_true, false_iff]
        intro hu
        rcases ReflTransGen.cases_head hu with hxa' | ⟨p, hxp, _⟩
        · exact hxa hxa'
        · exact absurd (hp.symm.trans hxp.2) (by simp)
      | some p =>
        have hpx := hrank hx hp
        have hpn := h.parent_mem hx hp
        have hlt : (nodes.filter (fun y => rank y < rank p)).card < fuel := by
          refine lt_of_lt_of_le (Finset.card_lt_card ?_) (Nat.lt_succ_iff.mp hf)
          refine Finset.ssubset_iff_subset_ne.mpr ⟨?_, ?_⟩
          · intro y hy
            simp only [Finset.mem_filter] at hy ⊢
            exact ⟨hy.1, hy.2.trans hpx⟩
          · intro heq
            have hp' : p ∈ nodes.filter (fun y => rank y < rank p) := by
              rw [heq]
              exact Finset.mem_filter.mpr ⟨hpn, hpx⟩
            exact Nat.lt_irrefl _ (Finset.mem_filter.mp hp').2
        obtain ⟨b, hb, hiff⟩ := ih p hpn hlt
        refine ⟨b, hb, hiff.trans ⟨ReflTransGen.head ⟨hx, hp⟩, fun hu => ?_⟩⟩
        rcases ReflTransGen.cases_head hu with hxa' | ⟨q, hxq, hqa⟩
        · exact absurd hxa' hxa
        · rwa [show p = q from linksTo_rightUnique ⟨hx, hp⟩ hxq]

theorem climbsTo_under (h : IsForest nodes parent children) {fuel : ℕ} (hx : x ∈ nodes)
    (hfuel : nodes.card ≤ fuel) :
    ∃ b, climbsTo parent a fuel x = some b ∧ (b = true ↔ Under nodes parent x a) := by
  obtain ⟨rank, hrank⟩ := h.ranked
  refine h.climbsTo_eq hrank fuel x hx (lt_of_lt_of_le (Finset.card_lt_card ?_) hfuel)
  exact Finset.filter_ssubset.mpr ⟨x, hx, Nat.lt_irrefl _⟩

section

variable (h : IsForest nodes parent children)
include h

variable {q : Option S}

lemma ranked_move (hq : ∀ p, q = some p → ¬ Under nodes parent p x) :
    ∃ rank : S → ℕ, ∀ {y p}, y ∈ nodes → update parent x q y = some p → rank p < rank y := by
  classical
  obtain ⟨rank, hrank⟩ := h.ranked
  let lift : ℕ := (q.map rank).getD 0 + 1
  refine ⟨fun y => if Under nodes parent y x then rank y + lift else rank y, ?_⟩
  intro y p hy hp
  by_cases hyx : y = x
  · subst hyx
    rw [update_self] at hp
    have hup : Under nodes parent y y := ReflTransGen.refl
    simp only [if_pos hup, if_neg (hq p hp), lift, hp, map_some, getD_some]
    omega
  · rw [update_of_ne hyx] at hp
    have hlt := hrank hy hp
    have hiff : Under nodes parent y x ↔ Under nodes parent p x := by
      constructor
      · intro hu
        rcases ReflTransGen.cases_head hu with rfl | ⟨r, hyr, hrx⟩
        · exact absurd rfl hyx
        · rwa [show p = r from linksTo_rightUnique ⟨hy, hp⟩ hyr]
      · exact ReflTransGen.head ⟨hy, hp⟩
    by_cases hu : Under nodes parent y x
    · simp only [if_pos hu, if_pos (hiff.mp hu)]
      omega
    · simp only [if_neg hu, if_neg (fun hp' => hu (hiff.mpr hp'))]
      exact hlt

theorem reorder {l : List S} (hl : l.Perm (children p)) :
    IsForest nodes parent (update children p l) where
  mem_children := by
    intro q x
    by_cases hq : q = p
    · subst hq
      rw [update_self, hl.mem_iff, h.mem_children]
    · rw [update_of_ne hq, h.mem_children]
  nodup_children := by
    intro q
    by_cases hq : q = p
    · subst hq
      rw [update_self]
      exact hl.nodup_iff.mpr (h.nodup_children q)
    · rw [update_of_ne hq]
      exact h.nodup_children q
  parent_mem := h.parent_mem
  ranked := h.ranked

/-- A node added after the children of a parent. -/
theorem insert (hx : x ∉ nodes) (hp : ∀ q, p = some q → q ∈ nodes) :
    IsForest (Insert.insert x nodes) (update parent x p)
      (update children p (children p ++ [x])) where
  mem_children := by
    intro q y
    have hmem : y ∈ update children p (children p ++ [x]) q ↔
        y ∈ children q ∨ y = x ∧ q = p := by
      by_cases hq : q = p
      · subst hq
        simp
      · simp [hq]
    rw [hmem, h.mem_children, Finset.mem_insert]
    by_cases hy : y = x
    · subst hy
      simp [hx, eq_comm]
    · simp [hy]
  nodup_children := by
    intro q
    by_cases hq : q = p
    · subst hq
      rw [update_self]
      refine Nodup.append (h.nodup_children q) (nodup_singleton x) ?_
      rw [disjoint_singleton]
      exact fun hc => hx (h.mem_children.mp hc).1
    · rw [update_of_ne hq]
      exact h.nodup_children q
  parent_mem := by
    intro y q hy hq
    rw [Finset.mem_insert] at hy ⊢
    by_cases hyx : y = x
    · subst hyx
      rw [update_self] at hq
      exact .inr (hp q hq)
    · rw [update_of_ne hyx] at hq
      exact .inr (h.parent_mem (hy.resolve_left hyx) hq)
  ranked := by
    obtain ⟨rank, hrank⟩ := h.ranked
    refine ⟨update rank x ((p.map rank).getD 0 + 1), ?_⟩
    intro y q hy hq
    have hqx : q ∈ nodes → q ≠ x := fun hqn hqx => hx (hqx ▸ hqn)
    by_cases hyx : y = x
    · subst hyx
      rw [update_self] at hq
      subst hq
      rw [update_self, update_of_ne (hqx (hp q rfl))]
      exact Nat.lt_succ_self _
    · rw [update_of_ne hyx] at hq
      have hyn : y ∈ nodes := (Finset.mem_insert.mp hy).resolve_left hyx
      rw [update_of_ne hyx, update_of_ne (hqx (h.parent_mem hyn hq))]
      exact hrank hyn hq

/-- A node moved after the children of a parent that is not under it. -/
theorem move {without : Option S → List S} (hx : x ∈ nodes) (hq : ∀ p, q = some p → p ∈ nodes)
    (hunder : ∀ p, q = some p → ¬ Under nodes parent p x)
    (hwithout : ∀ p, without p = (children p).filter (· ≠ x)) :
    IsForest nodes (update parent x q) (update without q (without q ++ [x])) where
  mem_children := by
    intro p y
    have hmem : y ∈ update without q (without q ++ [x]) p ↔
        (y ∈ children p ∧ y ≠ x) ∨ y = x ∧ p = q := by
      by_cases hp : p = q
      · subst hp
        simp [hwithout]
      · simp [hp, hwithout]
    rw [hmem, h.mem_children]
    by_cases hy : y = x
    · subst hy
      simp [hx, eq_comm]
    · simp [hy]
  nodup_children := by
    intro p
    have hnd : (without p).Nodup := by
      rw [hwithout]
      exact (h.nodup_children p).filter _
    by_cases hp : p = q
    · subst hp
      rw [update_self]
      refine Nodup.append hnd (nodup_singleton x) ?_
      rw [disjoint_singleton, hwithout]
      simp
    · rwa [update_of_ne hp]
  parent_mem := by
    intro y p hy hp
    by_cases hyx : y = x
    · subst hyx
      rw [update_self] at hp
      exact hq p hp
    · rw [update_of_ne hyx] at hp
      exact h.parent_mem hy hp
  ranked := h.ranked_move hunder

/-- A node removed, its children put where it was. -/
theorem remove {l₁ l₂ : List S} {parent' : S → Option S} {children' : Option S → List S}
    (hx : x ∈ nodes) (hsplit : children (parent x) = l₁ ++ x :: l₂)
    (hparent : ∀ y ∈ nodes, y ≠ x → parent' y = if parent y = some x then parent x else parent y)
    (hchildren : ∀ p, p ≠ some x →
      children' p = if p = parent x then l₁ ++ children (some x) ++ l₂ else children p)
    (hnone : children' (some x) = []) : IsForest (nodes.erase x) parent' children' := by
  have hself : parent x ≠ some x := fun hxx => h.acyclic x (TransGen.single ⟨hx, hxx⟩)
  have hnd := h.nodup_children (parent x)
  rw [hsplit] at hnd
  have hxl : x ∉ l₁ ∧ x ∉ l₂ := by
    simp only [nodup_append, nodup_cons, mem_cons] at hnd
    exact ⟨fun hm => hnd.2.2 x hm x (.inl rfl) rfl, hnd.2.1.1⟩
  have hmem : ∀ y, y ∈ l₁ ∨ y ∈ l₂ ↔ y ∈ children (parent x) ∧ y ≠ x := by
    intro y
    rw [hsplit]
    by_cases hy : y = x
    · subst hy
      simp [hxl]
    · simp [hy]
  constructor
  case mem_children =>
    intro p y
    by_cases hp : p = some x
    · subst hp
      rw [hnone, Finset.mem_erase]
      simp only [not_mem_nil, false_iff, not_and]
      intro hy hyx
      rw [hparent y hy.2 hy.1] at hyx
      by_cases hyp : parent y = some x
      · exact hself (by rwa [if_pos hyp] at hyx)
      · exact hyp (by rwa [if_neg hyp] at hyx)
    · rw [hchildren p hp, Finset.mem_erase]
      by_cases hpx : p = parent x
      · subst hpx
        rw [if_pos rfl]
        have hin : y ∈ l₁ ++ children (some x) ++ l₂ ↔
            (y ∈ children (parent x) ∧ y ≠ x) ∨ y ∈ children (some x) := by
          rw [← hmem]
          simp only [mem_append]
          tauto
        rw [hin, h.mem_children, h.mem_children]
        constructor
        · rintro (⟨⟨hy, hyp⟩, hyx⟩ | ⟨hy, hyp⟩)
          · exact ⟨⟨hyx, hy⟩, by rw [hparent y hy hyx, if_neg (hyp ▸ hself), hyp]⟩
          · have hyx : y ≠ x := fun hyx => hself (hyx ▸ hyp)
            exact ⟨⟨hyx, hy⟩, by rw [hparent y hy hyx, if_pos hyp]⟩
        · rintro ⟨⟨hyx, hy⟩, hyp⟩
          rw [hparent y hy hyx] at hyp
          by_cases hyq : parent y = some x
          · exact .inr ⟨hy, hyq⟩
          · exact .inl ⟨⟨hy, by rwa [if_neg hyq] at hyp⟩, hyx⟩
      · rw [if_neg hpx, h.mem_children]
        constructor
        · rintro ⟨hy, hyp⟩
          have hyx : y ≠ x := fun hyx => hpx (hyx ▸ hyp.symm)
          exact ⟨⟨hyx, hy⟩, by rw [hparent y hy hyx, if_neg (hyp ▸ hp), hyp]⟩
        · rintro ⟨⟨hyx, hy⟩, hyp⟩
          rw [hparent y hy hyx] at hyp
          by_cases hyq : parent y = some x
          · exact absurd (by rwa [if_pos hyq, eq_comm] at hyp) hpx
          · exact ⟨hy, by rwa [if_neg hyq] at hyp⟩
  case nodup_children =>
    intro p
    by_cases hp : p = some x
    · rw [hp, hnone]
      exact nodup_nil
    · rw [hchildren p hp]
      by_cases hpx : p = parent x
      · rw [if_pos hpx]
        have hdisj : ∀ y ∈ children (some x), y ∉ l₁ ∧ y ∉ l₂ := by
          intro y hy
          have hyp := (h.mem_children.mp hy).2
          have hno : ¬ (y ∈ l₁ ∨ y ∈ l₂) := by
            rw [hmem, h.mem_children]
            rintro ⟨⟨_, hyx⟩, _⟩
            exact hself (hyx.symm.trans hyp)
          exact not_or.mp hno
        have hmiddle := h.nodup_children (some x)
        simp only [nodup_append, nodup_cons, mem_cons, mem_append] at hnd ⊢
        refine ⟨⟨hnd.1, hmiddle, ?_⟩, hnd.2.1.2, ?_⟩
        · rintro y hy z hz rfl
          exact (hdisj y hz).1 hy
        · rintro y (hy | hy) z hz rfl
          · exact hnd.2.2 y hy y (.inr hz) rfl
          · exact (hdisj y hy).2 hz
      · rw [if_neg hpx]
        exact h.nodup_children p
  case parent_mem =>
    intro y p hy hp
    rw [Finset.mem_erase] at hy ⊢
    rw [hparent y hy.2 hy.1] at hp
    by_cases hyq : parent y = some x
    · rw [if_pos hyq] at hp
      exact ⟨fun hpx => hself (hpx ▸ hp), h.parent_mem hx hp⟩
    · rw [if_neg hyq] at hp
      exact ⟨fun hpx => hyq (hpx ▸ hp), h.parent_mem hy.2 hp⟩
  case ranked =>
    obtain ⟨rank, hrank⟩ := h.ranked
    refine ⟨rank, ?_⟩
    intro y p hy hp
    rw [Finset.mem_erase] at hy
    rw [hparent y hy.2 hy.1] at hp
    by_cases hyq : parent y = some x
    · rw [if_pos hyq] at hp
      exact (hrank hx hp).trans (hrank hy.2 hyq)
    · rw [if_neg hyq] at hp
      exact hrank hy.2 hp

end

end IsForest

end GpuiFast
