import Mathlib

/-! A list is put in order by working out the places to gather its items from. Two ways to work them
out: counting, for natural keys, and sorting the keys paired with their places. Both give the
places in the order of their keys, and of the places themselves among equal keys, so gathering
from them is a stable sort. -/

namespace GpuiFast.StableSort

open List

variable {α κ : Type*}

/-- The item at `order[i]`, put at place `i`. -/
def gather (items : List α) (order : List ℕ) : List α := order.filterMap (fun i => items[i]?)

/-- `order` is the places of `keys` in the order of their keys, then of the places. -/
structure IsStableOrder [LT κ] (keys : List κ) (order : List ℕ) : Prop where
  perm : order.Perm (List.range keys.length)
  sorted : order.Pairwise (fun i j => ∀ k l, keys[i]? = some k → keys[j]? = some l →
    k < l ∨ k = l ∧ i < j)

section Gather

lemma gather_range (items : List α) : gather items (List.range items.length) = items := by
  induction items using reverseRecOn with
  | nil => rfl
  | append_singleton items x ih =>
    rw [length_append, length_singleton, range_succ, gather, filterMap_append]
    congr 1
    · conv_rhs => rw [← ih]
      refine filterMap_congr (fun i hi => ?_)
      rw [getElem?_append_left (mem_range.mp hi)]
    · simp

variable {items : List α} {order : List ℕ}

lemma gather_perm (h : order.Perm (List.range items.length)) : (gather items order).Perm items := by
  conv_rhs => rw [← gather_range items]
  exact h.filterMap _

lemma gather_sorted [LT κ] {key : α → κ} (h : IsStableOrder (items.map key) order)
    {R : α → α → Prop} (hR : items.Pairwise R) :
    (gather items order).Pairwise (fun x y => key x < key y ∨ key x = key y ∧ R x y) := by
  refine Pairwise.filterMap _ ?_ h.sorted
  intro i j hij x hx y hy
  rcases hij (key x) (key y) (by simp [hx]) (by simp [hy]) with hlt | ⟨heq, hlt⟩
  · exact .inl hlt
  · refine .inr ⟨heq, ?_⟩
    obtain ⟨hi, rfl⟩ := List.getElem?_eq_some_iff.mp hx
    obtain ⟨hj, rfl⟩ := List.getElem?_eq_some_iff.mp hy
    exact pairwise_iff_getElem.mp hR i j hi hj hlt

end Gather

section Keys

variable [LinearOrder κ]

/-- The places of `keys`, sorted as pairs of a key and its place. -/
def orderByKeys (keys : List κ) : List ℕ :=
  ((keys.zipIdx.map (fun e => toLex e)).insertionSort (fun a b => a ≤ b)).map (fun e => (ofLex e).2)

omit [LinearOrder κ] in
lemma mem_zipIdx_place {keys : List κ} {e : κ ×ₗ ℕ} (h : e ∈ keys.zipIdx.map (fun e => toLex e)) :
    keys[(ofLex e).2]? = some (ofLex e).1 := by
  obtain ⟨⟨k, i⟩, hm, rfl⟩ := mem_map.mp h
  simpa using mem_zipIdx_iff_getElem?.mp hm

lemma isStableOrder_orderByKeys (keys : List κ) : IsStableOrder keys (orderByKeys keys) := by
  have hperm : ((keys.zipIdx.map (fun e => toLex e)).insertionSort (fun a b => a ≤ b)).Perm
      (keys.zipIdx.map (fun e => toLex e)) := perm_insertionSort _ _
  have hsorted : ((keys.zipIdx.map (fun e => toLex e)).insertionSort (fun a b => a ≤ b)).Pairwise
      (fun a b => a ≤ b) := pairwise_insertionSort _ _
  have hplaces : (keys.zipIdx.map (fun e => toLex e)).map (fun e : κ ×ₗ ℕ => (ofLex e).2) =
      List.range keys.length := by
    rw [map_map]
    simp [Function.comp_def, range_eq_range']
  have hnodup : ((keys.zipIdx.map (fun e => toLex e)).insertionSort (fun a b => a ≤ b)).Pairwise
      (fun a b : κ ×ₗ ℕ => (ofLex a).2 ≠ (ofLex b).2) := by
    have hn : (((keys.zipIdx.map (fun e => toLex e)).insertionSort (fun a b => a ≤ b)).map
        (fun e : κ ×ₗ ℕ => (ofLex e).2)).Nodup :=
      (hperm.map _).nodup_iff.mpr (hplaces ▸ nodup_range)
    exact pairwise_map.mp hn
  refine ⟨hplaces ▸ hperm.map _, pairwise_map.mpr ?_⟩
  refine Pairwise.imp_of_mem ?_ (hsorted.and hnodup)
  rintro a b ha hb ⟨hle, hne⟩ k l hk hl
  have hka := mem_zipIdx_place (hperm.mem_iff.mp ha)
  have hlb := mem_zipIdx_place (hperm.mem_iff.mp hb)
  obtain rfl := Option.some.inj (hka.symm.trans hk)
  obtain rfl := Option.some.inj (hlb.symm.trans hl)
  rcases Prod.Lex.le_iff.mp hle with hlt | ⟨heq, hle⟩
  · exact .inl hlt
  · exact .inr ⟨heq, lt_of_le_of_ne hle hne⟩

end Keys

section Counting

def tally (keys : List ℕ) : ℕ → ℕ :=
  keys.foldl (fun counts k => Function.update counts k (counts k + 1)) (fun _ => 0)

/-- Where each key's run starts, from how often the keys up to `max` occur. -/
def runStarts (counts : ℕ → ℕ) (max : ℕ) : ℕ → ℕ :=
  ((List.range (max + 1)).foldl (fun (s : (ℕ → ℕ) × ℕ) k =>
    (Function.update s.1 k s.2, s.2 + s.1 k)) (counts, 0)).1

def placeNext (s : List ℕ × (ℕ → ℕ)) (e : ℕ × ℕ) : List ℕ × (ℕ → ℕ) :=
  (s.1.set (s.2 e.1) e.2, Function.update s.2 e.1 (s.2 e.1 + 1))

def orderByCounting (keys : List ℕ) (max : ℕ) : List ℕ :=
  (keys.zipIdx.foldl placeNext
    (List.replicate keys.length 0, runStarts (tally keys) max)).1

lemma tally_eq (keys : List ℕ) (k : ℕ) : tally keys k = keys.count k := by
  induction keys using reverseRecOn with
  | nil => rfl
  | append_singleton keys x ih =>
    rw [tally, foldl_append, ← tally, foldl_cons, foldl_nil, count_append]
    by_cases h : k = x
    · subst h
      simp [ih]
    · simp [h, ih, Ne.symm h]

lemma runStarts_foldl (counts : ℕ → ℕ) (n : ℕ) :
    ((List.range n).foldl (fun (s : (ℕ → ℕ) × ℕ) k =>
      (Function.update s.1 k s.2, s.2 + s.1 k)) (counts, 0)) =
    (fun k => if k < n then ∑ j ∈ Finset.range k, counts j else counts k,
      ∑ j ∈ Finset.range n, counts j) := by
  induction n with
  | zero => simp
  | succ n ih =>
    rw [range_succ, foldl_append, ih]
    simp only [foldl_cons, foldl_nil, lt_irrefl, if_false, Finset.sum_range_succ]
    congr 1
    funext k
    by_cases hk : k = n
    · simp [hk]
    · rw [Function.update_of_ne hk]
      have : k < n ↔ k < n + 1 := by omega
      simp [this]

lemma countP_lt_succ (keys : List ℕ) (n : ℕ) :
    keys.countP (· < n + 1) = keys.countP (· < n) + keys.count n := by
  induction keys with
  | nil => rfl
  | cons k keys ih =>
    rw [countP_cons, countP_cons, count_cons, ih]
    simp only [decide_eq_true_eq, beq_iff_eq]
    split_ifs <;> omega

lemma sum_count_eq_countP (keys : List ℕ) (n : ℕ) :
    ∑ j ∈ Finset.range n, keys.count j = keys.countP (· < n) := by
  induction n with
  | zero => simp
  | succ n ih => rw [Finset.sum_range_succ, ih, countP_lt_succ]

variable {max : ℕ}

lemma runStarts_tally (keys : List ℕ) {k : ℕ} (hk : k ≤ max) :
    runStarts (tally keys) max k = keys.countP (· < k) := by
  rw [runStarts, runStarts_foldl]
  simp only [Nat.lt_succ_of_le hk, if_true, tally_eq]
  exact sum_count_eq_countP keys k

/-- The place a stable sort gives the item at place `i` of key `k`. -/
def rank (keys : List ℕ) (i k : ℕ) : ℕ := keys.countP (· < k) + (keys.take i).count k

variable {keys : List ℕ} {i j k l : ℕ}

lemma count_take_succ (hi : keys[i]? = some k) :
    (keys.take (i + 1)).count k = (keys.take i).count k + 1 := by
  rw [take_add_one, hi, count_append]
  simp

lemma rank_lt_countP (hi : keys[i]? = some k) : rank keys i k < keys.countP (· < k + 1) := by
  have h := (take_sublist (i + 1) keys).count_le k
  rw [count_take_succ hi] at h
  rw [rank, countP_lt_succ]
  omega

lemma rank_lt_length (hi : keys[i]? = some k) : rank keys i k < keys.length :=
  (rank_lt_countP hi).trans_le countP_le_length

lemma rank_lt_rank (hi : keys[i]? = some k) (hj : keys[j]? = some l)
    (h : k < l ∨ k = l ∧ i < j) : rank keys i k < rank keys j l := by
  rcases h with hlt | ⟨rfl, hlt⟩
  · have hmono : keys.countP (· < k + 1) ≤ keys.countP (· < l) := by
      refine countP_mono_left (fun x _ hx => ?_)
      simp only [decide_eq_true_eq] at hx ⊢
      omega
    exact (rank_lt_countP hi).trans_le (hmono.trans (Nat.le_add_right _ _))
  · have h := (take_sublist_take_left hlt : (keys.take (i + 1)).Sublist _).count_le k
    rw [count_take_succ hi] at h
    rw [rank, rank]
    omega

lemma rank_inj (hi : keys[i]? = some k) (hj : keys[j]? = some l)
    (h : rank keys i k = rank keys j l) : i = j := by
  by_contra hne
  have hcases : (k < l ∨ k = l ∧ i < j) ∨ (l < k ∨ l = k ∧ j < i) := by omega
  rcases hcases with hlt | hlt
  · exact absurd h (rank_lt_rank hi hj hlt).ne
  · exact absurd h (rank_lt_rank hj hi hlt).ne'

lemma placed_spec (hmax : ∀ k ∈ keys, k ≤ max) (n : ℕ) (hn : n ≤ keys.length) :
    let s := (keys.zipIdx.take n).foldl placeNext
      (List.replicate keys.length 0, runStarts (tally keys) max)
    s.1.length = keys.length ∧ (∀ k ≤ max, s.2 k = rank keys n k) ∧
      ∀ i < n, ∀ k, keys[i]? = some k → s.1[rank keys i k]? = some i := by
  induction n with
  | zero =>
    refine ⟨by simp, fun k hk => ?_, by simp⟩
    simp [rank, runStarts_tally keys hk]
  | succ n ih =>
    obtain ⟨hlen, hcounts, hplaced⟩ := ih (by omega)
    obtain ⟨k, hk⟩ : ∃ k, keys[n]? = some k := ⟨_, getElem?_eq_getElem (by omega)⟩
    have hkmax : k ≤ max := hmax k (mem_of_getElem? hk)
    have htake : keys.zipIdx.take (n + 1) = keys.zipIdx.take n ++ [(k, n)] := by
      rw [take_add_one, getElem?_zipIdx, hk]
      simp
    simp only [htake, foldl_append, foldl_cons, foldl_nil]
    generalize (keys.zipIdx.take n).foldl placeNext
      (List.replicate keys.length 0, runStarts (tally keys) max) = s at hlen hcounts hplaced
    rw [placeNext, hcounts k hkmax]
    refine ⟨by simpa using hlen, ?_, ?_⟩
    · intro l hl
      by_cases hlk : l = k
      · subst hlk
        simp [rank, count_take_succ hk, Nat.add_assoc]
      · have htl : (keys.take (n + 1)).count l = (keys.take n).count l := by
          rw [take_add_one, hk, count_append]
          simp [Ne.symm hlk]
        simp only [Function.update_of_ne hlk, hcounts l hl, rank, htl]
    · intro i hi l hl
      rcases Nat.lt_succ_iff_lt_or_eq.mp hi with hlt | rfl
      · have hne : rank keys n k ≠ rank keys i l := fun he => by
          have := rank_inj hk hl he
          omega
        rw [getElem?_set_ne hne]
        exact hplaced i hlt l hl
      · obtain rfl := Option.some.inj (hk.symm.trans hl)
        exact getElem?_set_self (by rw [hlen]; exact rank_lt_length hk)

lemma exists_rank_eq {a : ℕ} (ha : a < keys.length) :
    ∃ i k, keys[i]? = some k ∧ rank keys i k = a := by
  let f : Fin keys.length → Fin keys.length := fun i =>
    ⟨rank keys i keys[i], rank_lt_length (getElem?_eq_getElem i.2)⟩
  have hinj : Function.Injective f := by
    intro i j hij
    have hr : rank keys i keys[i] = rank keys j keys[j] := congrArg Fin.val hij
    exact Fin.ext (rank_inj (getElem?_eq_getElem i.2) (getElem?_eq_getElem j.2) hr)
  obtain ⟨i, hi⟩ := Finite.surjective_of_injective hinj ⟨a, ha⟩
  exact ⟨i, keys[i], getElem?_eq_getElem i.2, congrArg Fin.val hi⟩

theorem isStableOrder_orderByCounting (keys : List ℕ) (hmax : ∀ k ∈ keys, k ≤ max) :
    IsStableOrder keys (orderByCounting keys max) := by
  have hspec := placed_spec hmax keys.length le_rfl
  have hall : keys.zipIdx.take keys.length = keys.zipIdx :=
    take_of_length_le (by simp)
  simp only [hall] at hspec
  obtain ⟨hlen, -, hplaced⟩ := hspec
  rw [← orderByCounting] at hlen hplaced
  -- what stands at each place is the item of that rank
  have hat : ∀ a i, (orderByCounting keys max)[a]? = some i →
      ∃ k, keys[i]? = some k ∧ rank keys i k = a := by
    intro a i ha
    have halt : a < keys.length := hlen ▸ (List.getElem?_eq_some_iff.mp ha).1
    obtain ⟨j, k, hj, hr⟩ := exists_rank_eq halt
    have hjlt : j < keys.length := (List.getElem?_eq_some_iff.mp hj).1
    have := hplaced j hjlt k hj
    rw [hr, ha] at this
    exact ⟨k, Option.some.inj this ▸ hj, Option.some.inj this ▸ hr⟩
  have hnodup : (orderByCounting keys max).Nodup := by
    rw [nodup_iff_getElem?_ne_getElem?]
    intro a b hab hb he
    obtain ⟨i, hi⟩ : ∃ i, (orderByCounting keys max)[b]? = some i := ⟨_, getElem?_eq_getElem hb⟩
    obtain ⟨k, hk, hra⟩ := hat a i (he.trans hi)
    obtain ⟨l, hl, hrb⟩ := hat b i hi
    obtain rfl := Option.some.inj (hk.symm.trans hl)
    omega
  refine ⟨?_, ?_⟩
  · refine (perm_ext_iff_of_nodup hnodup nodup_range).mpr (fun i => ?_)
    rw [mem_range]
    constructor
    · intro hi
      obtain ⟨a, ha⟩ := mem_iff_getElem?.mp hi
      obtain ⟨k, hk, -⟩ := hat a i ha
      exact (List.getElem?_eq_some_iff.mp hk).1
    · intro hi
      exact mem_of_getElem? (hplaced i hi _ (getElem?_eq_getElem hi))
  · rw [pairwise_iff_getElem]
    intro a b ha hb hab k l hk hl
    obtain ⟨k', hk', hra⟩ := hat a _ (getElem?_eq_getElem ha)
    obtain ⟨l', hl', hrb⟩ := hat b _ (getElem?_eq_getElem hb)
    obtain rfl := Option.some.inj (hk.symm.trans hk')
    obtain rfl := Option.some.inj (hl.symm.trans hl')
    by_contra hnot
    have hcases : (l < k ∨ l = k ∧ (orderByCounting keys max)[b] < (orderByCounting keys max)[a]) ∨
        l = k ∧ (orderByCounting keys max)[b] = (orderByCounting keys max)[a] := by omega
    rcases hcases with hlt | ⟨rfl, he⟩
    · have := rank_lt_rank hl hk hlt
      omega
    · rw [he] at hrb
      omega

end Counting

end GpuiFast.StableSort
