import GpuiFast.SceneOrder

/-! The tree gives each of the bounds it orders the length of the longest chain that ends with
them, a chain being bounds of which each meets the next one. -/

namespace GpuiFast

open List

variable {K P : Type*} [Field K] [LinearOrder K]

/-- There is a chain of `n` of the bounds in `l` that ends with `a`: each comes before the next,
and meets it. -/
inductive BoundsChain (l : List (ℕ × Bounds K)) : ℕ → ℕ × Bounds K → Prop
  | single {a : ℕ × Bounds K} : a ∈ l → BoundsChain l 1 a
  | next {n : ℕ} {a b : ℕ × Bounds K} : BoundsChain l n a → b ∈ l → a.1 < b.1 →
    a.2.intersects b.2 = true → BoundsChain l (n + 1) b

/-- The longest chain that ends with `a` is no longer than the longest that ends with `b`. -/
def NoLonger (l : List (ℕ × Bounds K)) (a b : ℕ × Bounds K) : Prop := ∀ n, BoundsChain l n a → BoundsChain l n b

variable {l l' : List (ℕ × Bounds K)} {n : ℕ} {a b : ℕ × Bounds K}

lemma BoundsChain.mem (h : BoundsChain l n a) : a ∈ l := by
  cases h with
  | single ha => exact ha
  | next _ ha _ _ => exact ha

lemma BoundsChain.pos (h : BoundsChain l n a) : 1 ≤ n := by
  cases h <;> omega

lemma BoundsChain.mono (h : BoundsChain l n a) (hsub : ∀ a ∈ l, a ∈ l') : BoundsChain l' n a := by
  induction h with
  | single ha => exact .single (hsub _ ha)
  | next _ hb hlt hint ih => exact .next ih (hsub _ hb) hlt hint

lemma BoundsChain.of_le {m : ℕ} (h : BoundsChain l m b) (hpos : 1 ≤ n) (hle : n ≤ m) : BoundsChain l n b := by
  induction h generalizing n with
  | single hb => exact (le_antisymm hle hpos) ▸ .single hb
  | @next m a b h hb hlt hint ih =>
    obtain ⟨k, rfl⟩ := Nat.exists_eq_add_of_le' hpos
    rcases Nat.eq_zero_or_pos k with rfl | hk
    · exact .single hb
    · exact .next (ih hk (by omega)) hb hlt hint

lemma BoundsChain.length_le (h : BoundsChain l n a) : n ≤ a.1 + 1 := by
  induction h with
  | single _ => exact Nat.le_add_left _ _
  | next _ _ hlt _ ih => omega

lemma BoundsChain.noLonger (hb : b ∈ l) (hlt : a.1 < b.1) (hint : a.2.intersects b.2 = true) :
    NoLonger l a b := by
  intro n h
  exact (BoundsChain.next h hb hlt hint).of_le h.pos (Nat.le_succ n)

lemma BoundsChain.not_noLonger (ha : a ∈ l) (hb : b ∈ l) (hlt : a.1 < b.1)
    (hint : a.2.intersects b.2 = true) : ¬NoLonger l b a := by
  intro hno
  have hall : ∀ n, BoundsChain l (n + 1) a := by
    intro n
    induction n with
    | zero => exact .single ha
    | succ n ih => exact hno _ (.next ih hb hlt hint)
  have := (hall (a.1 + 1)).length_le
  omega

/-- A chain of the bounds in `l` leads from `a` to `b`. -/
def Joined (l : List (ℕ × Bounds K)) : ℕ × Bounds K → ℕ × Bounds K → Prop :=
  Relation.ReflTransGen (fun a b => b ∈ l ∧ a.1 < b.1 ∧ a.2.intersects b.2 = true)

/-- With all that is joined to `b` left, so are the chains that end with `b`. -/
lemma BoundsChain.filter {keep : ℕ × Bounds K → Bool} (h : BoundsChain l n b)
    (hkeep : ∀ a ∈ l, Joined l a b → keep a = true) : BoundsChain (l.filter keep) n b := by
  induction h with
  | single ha => exact .single (mem_filter.mpr ⟨ha, hkeep _ ha .refl⟩)
  | next _ hb hlt hint ih =>
    exact .next (ih (fun a ha hjoined => hkeep a ha (hjoined.tail ⟨hb, hlt, hint⟩)))
      (mem_filter.mpr ⟨hb, hkeep _ hb .refl⟩) hlt hint

lemma noLonger_filter_iff {keep : ℕ × Bounds K → Bool}
    (hkeep : ∀ c ∈ l, Joined l c a ∨ Joined l c b → keep c = true) :
    NoLonger (l.filter keep) a b ↔ NoLonger l a b := by
  have hsub : ∀ c ∈ l.filter keep, c ∈ l := fun c hc => mem_of_mem_filter hc
  constructor
  · intro hno n h
    exact (hno n (h.filter (fun c hc hj => hkeep c hc (.inl hj)))).mono hsub
  · intro hno n h
    exact (hno n (h.mono hsub)).filter (fun c hc hj => hkeep c hc (.inr hj))

namespace Scene.Holds

variable [FloorRing K] {s : Scene K P} {ops : List (SceneOp K P)} {order : ℕ → ℕ}

/-- The order of `b` is reached from the order of bounds before it that meet it. -/
lemma order_spec (h : s.Holds ops order) (hb : b ∈ orderings ops) : 1 ≤ order b.1 ∧
    (n < order b.1 → 1 ≤ n →
      ∃ a ∈ orderings ops, (a.1 < b.1 ∧ a.2.intersects b.2 = true) ∧ n ≤ order a.1) := by
  obtain ⟨j, hj, rfl⟩ := getElem_of_mem hb
  have hord := h.tree.recorded
  rw [h.recorded] at hord
  have hmax := hord j ((orderings ops)[j].2, order (orderings ops)[j].1) (by simp [hj])
  simp only at hmax
  refine ⟨by omega, fun hn hpos => ?_⟩
  have hnot : ¬maxOver (·.intersects (orderings ops)[j].2)
      (((orderings ops).map (fun e => (e.2, order e.1))).take j) ≤ n - 1 := by omega
  rw [maxOver_le_iff] at hnot
  push Not at hnot
  obtain ⟨e, he, hint, hlt⟩ := hnot
  obtain ⟨i, hi, rfl⟩ := mem_take_iff_getElem.mp he
  simp only [length_map, getElem_map] at hi hint hlt
  have hi' : i < (orderings ops).length := by omega
  refine ⟨(orderings ops)[i], getElem_mem hi', ⟨?_, hint⟩, by omega⟩
  exact pairwise_iff_getElem.mp orderings_pairwise i j hi' hj (by omega)

lemma chain_iff (h : s.Holds ops order) (hb : b ∈ orderings ops) :
    BoundsChain (orderings ops) n b ↔ 1 ≤ n ∧ n ≤ order b.1 := by
  constructor
  · intro hchain
    clear hb
    induction hchain with
    | single ha => exact ⟨le_rfl, (h.order_spec (n := 0) ha).1⟩
    | next hchain hb hlt hint ih =>
      have := h.order_lt hchain.mem hb hlt hint
      omega
  · rintro ⟨hpos, hle⟩
    induction n generalizing b with
    | zero => omega
    | succ n ih =>
      rcases Nat.eq_zero_or_pos n with rfl | hn
      · exact .single hb
      · obtain ⟨a, ha, ⟨hlt, hint⟩, hna⟩ := (h.order_spec hb).2 hle hn
        exact .next (ih ha hn hna) hb hlt hint

lemma noLonger_iff (h : s.Holds ops order) (ha : a ∈ orderings ops) (hb : b ∈ orderings ops) :
    NoLonger (orderings ops) a b ↔ order a.1 ≤ order b.1 := by
  constructor
  · intro hno
    have hlong := (h.chain_iff ha).mpr ⟨(h.order_spec (n := 0) ha).1, le_rfl⟩
    exact ((h.chain_iff hb).mp (hno _ hlong)).2
  · intro hle n hchain
    obtain ⟨hpos, hn⟩ := (h.chain_iff ha).mp hchain
    exact (h.chain_iff hb).mpr ⟨hpos, hn.trans hle⟩

end Scene.Holds

end GpuiFast
