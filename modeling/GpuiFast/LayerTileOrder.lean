import GpuiFast.LayerTile
import GpuiFast.SceneChains

namespace GpuiFast

open List Bounds LayerContent

variable {K P : Type*} [Field K]

/-- `T` is what is left of `W`, moved by `delta`, without some of its balanced stretches. The
operation at place `k` of `T` was at `source k` of `W`. -/
inductive Thins (delta : Point K) (source : ℕ → ℕ) :
    List (SceneOp K P) → List (SceneOp K P) → Prop
  | nil : Thins delta source [] []
  | keep {W T : List (SceneOp K P)} (op : SceneOp K P) :
    Thins delta source W T → source T.length = W.length →
      Thins delta source (W ++ [op]) (T ++ [op.translate delta])
  | drop {W T ops : List (SceneOp K P)} :
    Thins delta source W T → Balanced ops → Thins delta source (W ++ ops) T

section Thins

variable {delta : Point K} {source : ℕ → ℕ} {W T : List (SceneOp K P)}

omit [Field K] in
lemma openLayers_balanced {ops : List (SceneOp K P)} (h : Balanced ops) (before : List (SceneOp K P)) :
    openLayers (before ++ ops) = openLayers before := by
  induction h generalizing before with
  | nil => rw [append_nil]
  | insertPrimitive primitive => rw [openLayers_concat]
  | @layer bounds ops h ih =>
    have hsplit : before ++ (.pushLayer bounds :: ops ++ [.popLayer]) =
        ((before ++ [.pushLayer bounds]) ++ ops) ++ [.popLayer] := by simp
    rw [hsplit, openLayers_concat, ih, openLayers_concat]
    rfl
  | append h h' ih ih' => rw [← append_assoc, ih', ih]

lemma openLayers_translate (op : SceneOp K P) (before : List (SceneOp K P)) :
    openLayers (before ++ [op.translate delta]) = openLayers (before ++ [op]) := by
  rw [openLayers_concat, openLayers_concat]
  cases op <;> rfl

lemma Thins.openLayers (h : Thins delta source W T) : (openLayers T).map source = openLayers W := by
  induction h with
  | nil => rfl
  | @keep W T op h hat ih =>
    rw [openLayers_translate, openLayers_concat, openLayers_concat, ← ih, ← hat]
    cases op with
    | insertPrimitive primitive => rfl
    | pushLayer bounds => rfl
    | popLayer => exact map_tail
  | drop h hb ih => rw [openLayers_balanced hb, ih]

variable {k : ℕ}

lemma Thins.at (h : Thins delta source W T) (hk : k < T.length) : ∃ op, W[source k]? = some op ∧
    T[k]? = some (op.translate delta) ∧
      (GpuiFast.openLayers (T.take k)).map source = GpuiFast.openLayers (W.take (source k)) := by
  induction h with
  | nil => simp at hk
  | @keep W T op h hat ih =>
    rw [length_append, length_singleton] at hk
    rcases Nat.lt_succ_iff_lt_or_eq.mp hk with hlt | rfl
    · obtain ⟨op', hw, ht, hopen⟩ := ih hlt
      have hlt' : source k < W.length := (List.getElem?_eq_some_iff.mp hw).1
      refine ⟨op', ?_, ?_, ?_⟩
      · rwa [getElem?_append_left hlt']
      · rwa [getElem?_append_left hlt]
      · rwa [take_append_of_le_length hlt.le, take_append_of_le_length hlt'.le]
    · refine ⟨op, by simp [hat], by simp, ?_⟩
      rw [take_left, hat, take_left, h.openLayers]
  | @drop W T ops h hb ih =>
    obtain ⟨op', hw, ht, hopen⟩ := ih hk
    have hlt' : source k < W.length := (List.getElem?_eq_some_iff.mp hw).1
    refine ⟨op', ?_, ht, ?_⟩
    · rwa [getElem?_append_left hlt']
    · rwa [take_append_of_le_length hlt'.le]

lemma Thins.sourcelt (h : Thins delta source W T) (hk : k < T.length) : source k < W.length := by
  obtain ⟨op, hw, -, -⟩ := h.at hk
  exact (List.getElem?_eq_some_iff.mp hw).1

lemma Thins.strictMono (h : Thins delta source W T) {l : ℕ} (hkl : k < l) (hl : l < T.length) :
    source k < source l := by
  induction h with
  | nil => simp at hl
  | @keep W T op h hat ih =>
    rw [length_append, length_singleton] at hl
    rcases Nat.lt_succ_iff_lt_or_eq.mp hl with hlt | rfl
    · exact ih hlt
    · exact hat ▸ h.sourcelt hkl
  | drop h hb ih => exact ih hl

lemma Thins.source_lt_iff (h : Thins delta source W T) {k l : ℕ} (hk : k < T.length)
    (hl : l < T.length) : source k < source l ↔ k < l := by
  refine ⟨fun hlt => ?_, fun hlt => h.strictMono hlt hl⟩
  by_contra hle
  rcases (not_lt.mp hle).lt_or_eq with hlt' | rfl
  · exact absurd (h.strictMono hlt' hk) (by omega)
  · exact lt_irrefl _ hlt

/-- `f` is what became of `e`: the same primitive moved, in the same layer. -/
structure IsCopy (delta : Point K) (source : ℕ → ℕ) (W T : List (SceneOp K P))
    (e f : Insertion K P) : Prop where
  mem : e ∈ insertions W
  mem_copy : f ∈ insertions T
  place : source f.place = e.place
  primitive : f.primitive = translatePrimitive e.primitive delta
  layer : f.layer.map source = e.layer

lemma Thins.exists_copy (h : Thins delta source W T) {e : Insertion K P} (he : e ∈ insertions W)
    (hk : k < T.length) (hek : source k = e.place) :
    ∃ f, f.place = k ∧ IsCopy delta source W T e f := by
  obtain ⟨hw, hlayer⟩ := mem_insertions.mp he
  obtain ⟨op, hw', ht, hopen⟩ := h.at hk
  rw [hek] at hw' hopen
  obtain rfl := Option.some.inj (hw.symm.trans hw')
  refine ⟨⟨translatePrimitive e.primitive delta, k, (GpuiFast.openLayers (T.take k)).head?⟩,
    rfl, he, mem_insertions.mpr ⟨ht, rfl⟩, hek, rfl, ?_⟩
  rw [hlayer, ← hopen, head?_map]

lemma IsCopy.orderedAt {e f : Insertion K P} (h : IsCopy delta source W T e f) :
    source f.orderedAt = e.orderedAt := by
  rw [Insertion.orderedAt, Insertion.orderedAt, ← h.layer, ← h.place]
  cases f.layer <;> rfl

end Thins

section OrderBounds

variable {l : ℕ}

omit [Field K] in
lemma exists_pushLayer {ops : List (SceneOp K P)} (h : l ∈ openLayers ops) :
    ∃ bounds, ops[l]? = some (.pushLayer bounds) := by
  induction ops using reverseRecOn with
  | nil => simp [openLayers] at h
  | append_singleton ops op ih =>
    have hold : l ∈ openLayers ops → ∃ bounds, (ops ++ [op])[l]? = some (.pushLayer bounds) := by
      intro hl
      obtain ⟨bounds, hb⟩ := ih hl
      exact ⟨bounds, by rwa [getElem?_append_left (lt_length_of_mem_openLayers hl)]⟩
    rw [openLayers_concat] at h
    cases op with
    | insertPrimitive primitive => exact hold h
    | pushLayer bounds =>
      rcases mem_cons.mp h with rfl | h
      · exact ⟨bounds, by simp⟩
      · exact hold h
    | popLayer => exact hold (mem_of_mem_tail h)

variable [LinearOrder K]

/-- The bounds a primitive is ordered by: those of the layer it is in, or else its own, clipped. -/
def orderBounds (ops : List (SceneOp K P)) (e : Insertion K P) : Bounds K :=
  match e.layer.bind (fun l => ops[l]?) with
  | some (.pushLayer bounds) => bounds
  | _ => e.primitive.clippedBounds

variable {ops W T : List (SceneOp K P)} {e f : Insertion K P} {delta : Point K} {source : ℕ → ℕ}

lemma orderBounds_of_layer {bounds : Bounds K} (hl : e.layer = some l)
    (hb : ops[l]? = some (.pushLayer bounds)) : orderBounds ops e = bounds := by
  simp [orderBounds, hl, hb]

lemma orderBounds_of_none (hl : e.layer = none) :
    orderBounds ops e = e.primitive.clippedBounds := by
  simp [orderBounds, hl]

omit [Field K] [LinearOrder K] in
lemma exists_layer (he : e ∈ insertions ops) (hl : e.layer = some l) :
    ∃ bounds, ops[l]? = some (.pushLayer bounds) := by
  obtain ⟨-, hlayer⟩ := mem_insertions.mp he
  rw [hl] at hlayer
  have hmem : l ∈ openLayers (ops.take e.place) := mem_of_head? hlayer.symm
  obtain ⟨bounds, hb⟩ := exists_pushLayer hmem
  rw [getElem?_take] at hb
  split_ifs at hb
  exact ⟨bounds, hb⟩

/-- What the tree is asked to order for an inserted primitive. -/
def Insertion.ordering (ops : List (SceneOp K P)) (e : Insertion K P) : ℕ × Bounds K :=
  (e.orderedAt, orderBounds ops e)

lemma mem_orderings (he : e ∈ insertions ops) : e.ordering ops ∈ orderings ops := by
  unfold Insertion.ordering
  cases hl : e.layer with
  | none =>
    rw [orderBounds_of_none hl, Insertion.orderedAt, hl]
    exact Scene.mem_orderings_of_layer_eq_none he hl
  | some l =>
    obtain ⟨bounds, hb⟩ := exists_layer he hl
    have hlen : (ops.take l).length = l :=
      length_take_of_le (List.getElem?_eq_some_iff.mp hb).1.le
    rw [orderBounds_of_layer hl hb, Insertion.orderedAt, hl]
    exact mem_collect.mpr ⟨l, _, hb, by simp [hlen]⟩

lemma orderings_injOn {a b : ℕ × Bounds K} (ha : a ∈ orderings ops) (hb : b ∈ orderings ops)
    (h : a.1 = b.1) : a = b := by
  obtain ⟨i, hi, rfl⟩ := getElem_of_mem ha
  obtain ⟨j, hj, rfl⟩ := getElem_of_mem hb
  have hpair : (orderings ops).Pairwise (fun a b => a.1 < b.1) := Scene.orderings_pairwise
  have hlt := pairwise_iff_getElem.mp hpair
  rcases lt_trichotomy i j with hij | rfl | hij
  · exact absurd h (hlt i j hi hj hij).ne
  · rfl
  · exact absurd h (hlt j i hj hi hij).ne'

lemma mem_orderings_iff {a : ℕ × Bounds K} : a ∈ orderings ops ↔
    (∃ p, ops[a.1]? = some (.insertPrimitive p) ∧ openLayers (ops.take a.1) = [] ∧
      a.2 = p.clippedBounds) ∨ ops[a.1]? = some (.pushLayer a.2) := by
  rw [orderings, mem_collect]
  constructor
  · rintro ⟨i, op, hi, ha⟩
    have hlen : (ops.take i).length = i :=
      length_take_of_le (List.getElem?_eq_some_iff.mp hi).1.le
    cases op with
    | insertPrimitive p =>
      simp only [Option.ite_none_right_eq_some, Option.some.injEq, hlen] at ha
      obtain ⟨hopen, rfl⟩ := ha
      exact .inl ⟨p, hi, hopen, rfl⟩
    | pushLayer bounds =>
      simp only [Option.some.injEq, hlen] at ha
      exact .inr (ha ▸ hi)
    | popLayer => cases ha
  · obtain ⟨i, b⟩ := a
    rintro (⟨p, hi, hopen, hb⟩ | hi) <;>
      have hlen : (ops.take i).length = i :=
        length_take_of_le (List.getElem?_eq_some_iff.mp hi).1.le
    · exact ⟨i, _, hi, by simp_all⟩
    · exact ⟨i, _, hi, by simp [hlen]⟩

section Translate

variable [IsStrictOrderedRing K]

lemma Bounds.intersect_translate (a b : Bounds K) (delta : Point K) :
    (a.translate delta).intersect (b.translate delta) = (a.intersect b).translate delta := by
  simp only [intersect, translate, fromCorners, bottomRight_x,
    bottomRight_y, add_right_comm _ delta.x, add_right_comm _ delta.y, max_add_add_right,
    min_add_add_right, add_sub_add_right_eq_sub]

lemma clippedBounds_translatePrimitive (p : Primitive K P) (delta : Point K) :
    (translatePrimitive p delta).clippedBounds = p.clippedBounds.translate delta :=
  intersect_translate _ _ _

lemma recorded_translate (op : SceneOp K P) (delta : Point K) :
    (op.translate delta).recorded = op.recorded := by
  cases op with
  | insertPrimitive primitive =>
    simp only [SceneOp.translate, SceneOp.recorded, clippedBounds_translatePrimitive]
    rfl
  | pushLayer bounds => rfl
  | popLayer => rfl

lemma IsCopy.orderBounds (hc : IsCopy delta source W T e f) (h : Thins delta source W T) :
    orderBounds T f = (orderBounds W e).translate delta := by
  cases hl : f.layer with
  | none =>
    have hl' : e.layer = none := by rw [← hc.layer, hl]; rfl
    rw [orderBounds_of_none hl, orderBounds_of_none hl', hc.primitive,
      clippedBounds_translatePrimitive]
  | some l =>
    have hl' : e.layer = some (source l) := by rw [← hc.layer, hl]; rfl
    obtain ⟨bounds, hb⟩ := exists_layer hc.mem_copy hl
    obtain ⟨op, hw, ht, -⟩ := h.at (List.getElem?_eq_some_iff.mp hb).1
    obtain ⟨bounds', hb'⟩ := exists_layer hc.mem hl'
    obtain rfl := Option.some.inj (hw.symm.trans hb')
    obtain rfl : bounds'.translate delta = bounds := by
      simpa [SceneOp.translate] using ht.symm.trans hb
    rw [orderBounds_of_layer hl hb, orderBounds_of_layer hl' hb']

lemma Thins.mem_orderings_iff (h : Thins delta source W T) {k : ℕ} (hk : k < T.length)
    {b : Bounds K} : (k, b) ∈ orderings T ↔
      ∃ b', (source k, b') ∈ orderings W ∧ b = b'.translate delta := by
  obtain ⟨op, hw, ht, hopen⟩ := h.at hk
  have hnil : GpuiFast.openLayers (T.take k) = [] ↔ GpuiFast.openLayers (W.take (source k)) = [] := by
    rw [← hopen, map_eq_nil_iff]
  simp only [GpuiFast.mem_orderings_iff, hw, ht, hnil]
  cases op with
  | insertPrimitive p =>
    simp [SceneOp.translate, clippedBounds_translatePrimitive]
  | pushLayer bounds =>
    simp only [SceneOp.translate, Option.some.injEq, SceneOp.pushLayer.injEq, reduceCtorEq,
      false_and, exists_false, false_or]
    exact ⟨fun heq => ⟨bounds, rfl, heq.symm⟩, fun ⟨_, hb, heq⟩ => by rw [hb, heq]⟩
  | popLayer => simp [SceneOp.translate]

variable {n k : ℕ} {keep : ℕ → Bool}

lemma Thins.chain (h : Thins delta source W T)
    (hkept : ∀ i < W.length, keep i = true → ∃ k < T.length, source k = i) {a : ℕ × Bounds K}
    (hchain : BoundsChain ((orderings W).filter (fun a => keep a.1)) n a) (hk : k < T.length)
    (hak : source k = a.1) : BoundsChain (orderings T) n (k, a.2.translate delta) := by
  induction hchain generalizing k with
  | single ha =>
    exact .single ((h.mem_orderings_iff hk).mpr ⟨_, hak ▸ mem_of_mem_filter ha, rfl⟩)
  | @next n a b hchain hb hlt hint ih =>
    obtain ⟨ha, hka⟩ := mem_filter.mp hchain.mem
    obtain ⟨i, hi, hai⟩ := hkept a.1 (lt_length_of_mem_orderings ha) hka
    refine .next (ih hi hai) ((h.mem_orderings_iff hk).mpr ⟨_, hak ▸ mem_of_mem_filter hb, rfl⟩) ?_ ?_
    · exact (h.source_lt_iff hi hk).mp (by rwa [hai, hak])
    · rwa [intersects_translate]

lemma Thins.exists_chain (h : Thins delta source W T)
    (hkeep : ∀ k < T.length, keep (source k) = true) {c : ℕ × Bounds K}
    (hchain : BoundsChain (orderings T) n c) : ∃ b, c.2 = b.translate delta ∧
      BoundsChain ((orderings W).filter (fun a => keep a.1)) n (source c.1, b) := by
  have hleft : ∀ c ∈ orderings T, ∃ b, c.2 = b.translate delta ∧
      (source c.1, b) ∈ (orderings W).filter (fun a => keep a.1) := by
    intro c hc
    have hk := lt_length_of_mem_orderings hc
    obtain ⟨b, hb, heq⟩ := (h.mem_orderings_iff hk).mp hc
    exact ⟨b, heq, mem_filter.mpr ⟨hb, hkeep _ hk⟩⟩
  induction hchain with
  | single hc =>
    obtain ⟨b, heq, hb⟩ := hleft _ hc
    exact ⟨b, heq, .single hb⟩
  | @next n c d hchain hd hlt hint ih =>
    obtain ⟨b, heq, hb⟩ := ih
    obtain ⟨b', heq', hb'⟩ := hleft _ hd
    refine ⟨b', heq', .next hb hb' ?_ ?_⟩
    · exact h.strictMono hlt (lt_length_of_mem_orderings hd)
    · rwa [heq, heq', intersects_translate] at hint

omit [LinearOrder K] [IsStrictOrderedRing K] in
lemma Bounds.translate_inj {a b : Bounds K} (h : a.translate delta = b.translate delta) : a = b := by
  rcases a with ⟨⟨_, _⟩, _⟩
  rcases b with ⟨⟨_, _⟩, _⟩
  simpa [Bounds.translate] using h

/-- The chains among what is left are those of the content, moved. -/
lemma Thins.chain_iff (h : Thins delta source W T)
    (hkeep : ∀ k < T.length, keep (source k) = true)
    (hkept : ∀ i < W.length, keep i = true → ∃ k < T.length, source k = i)
    (hc : IsCopy delta source W T e f) :
    BoundsChain ((orderings W).filter (fun a => keep a.1)) n (e.ordering W) ↔
      BoundsChain (orderings T) n (f.ordering T) := by
  have hord : f.ordering T = (f.orderedAt, (orderBounds W e).translate delta) := by
    rw [Insertion.ordering, hc.orderBounds h]
  constructor
  · intro hchain
    rw [hord]
    exact h.chain hkept hchain (Scene.orderedAt_lt hc.mem_copy) hc.orderedAt
  · intro hchain
    obtain ⟨b, heq, hb⟩ := h.exists_chain hkeep hchain
    rw [hord] at heq hb
    rwa [hc.orderedAt, ← Bounds.translate_inj heq] at hb

end Translate

end OrderBounds

section Compare

variable {delta : Point K} {source : ℕ → ℕ} {W T : List (SceneOp K P)} {e e' f f' : Insertion K P}
  {order orderT : ℕ → ℕ}

omit [Field K] in
lemma paintKey_lt_iff (x y : Placed K P) : x.paintKey < y.paintKey ↔
    x.order < y.order ∨ x.order = y.order ∧ (x.kind.rank < y.kind.rank ∨
      x.kind.rank = y.kind.rank ∧ (x.tileKey < y.tileKey ∨
        x.tileKey = y.tileKey ∧ x.place < y.place)) := by
  simp only [Placed.paintKey, Prod.Lex.toLex_lt_toLex]

lemma kind_translatePrimitive (p : Primitive K P) : (translatePrimitive p delta).kind = p.kind := by
  rcases p with ⟨shape, _, _, _⟩
  cases shape <;> rfl

lemma tile?_moved (shape : Shape K) : (shape.moved delta).tile? = shape.tile? := by
  cases shape <;> rfl

lemma IsCopy.kind (hc : IsCopy delta source W T e f) :
    (f.placed orderT).kind = (e.placed order).kind := by
  show f.primitive.kind = e.primitive.kind
  rw [hc.primitive, kind_translatePrimitive]

lemma IsCopy.tileKey (hc : IsCopy delta source W T e f) :
    (f.placed orderT).tileKey = (e.placed order).tileKey := by
  have htile : f.primitive.shape.tile? = e.primitive.shape.tile? := by
    rw [hc.primitive]
    exact tile?_moved _
  simp only [Placed.tileKey, Insertion.placed, htile]

lemma paintKey_lt_iff_of_order (h : Thins delta source W T) (hc : IsCopy delta source W T e f)
    (hc' : IsCopy delta source W T e' f')
    (hlt : order e.orderedAt < order e'.orderedAt ↔ orderT f.orderedAt < orderT f'.orderedAt)
    (heq : order e.orderedAt = order e'.orderedAt ↔ orderT f.orderedAt = orderT f'.orderedAt) :
    (e.placed order).paintKey < (e'.placed order).paintKey ↔
      (f.placed orderT).paintKey < (f'.placed orderT).paintKey := by
  have hplace : (e.placed order).place < (e'.placed order).place ↔
      (f.placed orderT).place < (f'.placed orderT).place := by
    show e.place < e'.place ↔ f.place < f'.place
    rw [← hc.place, ← hc'.place]
    exact h.source_lt_iff (List.getElem?_eq_some_iff.mp (mem_insertions.mp hc.mem_copy).1).1
      (List.getElem?_eq_some_iff.mp (mem_insertions.mp hc'.mem_copy).1).1
  have hkind : (f.placed orderT).kind = (e.placed order).kind := hc.kind
  have hkind' : (f'.placed orderT).kind = (e'.placed order).kind := hc'.kind
  have htile : (f.placed orderT).tileKey = (e.placed order).tileKey := hc.tileKey
  have htile' : (f'.placed orderT).tileKey = (e'.placed order).tileKey := hc'.tileKey
  rw [paintKey_lt_iff, paintKey_lt_iff, hkind, hkind', htile, htile', hplace]
  exact or_congr hlt (and_congr_left' heq)

/-- `e` is drawn before `e'` where both have one draw order. -/
def Insertion.DrawsFirst (e e' : Insertion K P) : Prop :=
  (e.placed (fun _ => 0)).paintKey < (e'.placed (fun _ => 0)).paintKey

omit [Field K] in
lemma Insertion.drawsFirst_or (hne : e.place ≠ e'.place) : e.DrawsFirst e' ∨ e'.DrawsFirst e := by
  refine lt_or_gt_of_ne (fun heq => hne ?_)
  exact congrArg (fun k => (ofLex (ofLex (ofLex k).2).2).2) heq

omit [Field K] in
lemma Insertion.DrawsFirst.paintKey_lt_iff (h : e.DrawsFirst e') (order : ℕ → ℕ) :
    ((e.placed order).paintKey < (e'.placed order).paintKey ↔
      order e.orderedAt ≤ order e'.orderedAt) ∧
    ((e'.placed order).paintKey < (e.placed order).paintKey ↔
      ¬order e.orderedAt ≤ order e'.orderedAt) := by
  have hiff : (e.placed order).paintKey < (e'.placed order).paintKey ↔
      order e.orderedAt ≤ order e'.orderedAt := by
    rw [DrawsFirst, GpuiFast.paintKey_lt_iff] at h
    rw [GpuiFast.paintKey_lt_iff, le_iff_lt_or_eq]
    exact or_congr_right (and_iff_left ((h.resolve_left (lt_irrefl _)).2))
  have hne : (e.placed order).paintKey ≠ (e'.placed order).paintKey := by
    intro heq
    have hplace := congrArg (fun k => (ofLex k).2) heq
    exact absurd h (Prod.Lex.toLex_lt_toLex.not.mpr (by
      rintro (hlt | ⟨-, hlt⟩)
      · exact lt_irrefl _ hlt
      · exact hlt.ne hplace))
  exact ⟨hiff, by rw [← hiff, not_lt, hne.symm.le_iff_lt]⟩

variable [LinearOrder K]

/-- Two insertions are ordered alike with all of `ops` and with the bounds left that `keep` keeps:
they are in one layer, their bounds meet, or no bounds left out are joined to theirs. -/
def OrderedAlike (ops : List (SceneOp K P)) (keep : ℕ → Bool) (e e' : Insertion K P) : Prop :=
  (e.layer.isSome = true ∧ e.layer = e'.layer) ∨
    (orderBounds ops e).intersects (orderBounds ops e') = true ∨
      ∀ a ∈ orderings ops, Joined (orderings ops) a (e.ordering ops) ∨
        Joined (orderings ops) a (e'.ordering ops) → keep a.1 = true

/-- The longest chains that end with two insertions compare alike among all bounds and among those
that `keep` keeps. -/
def ChainsAlike (ops : List (SceneOp K P)) (keep : ℕ → Bool) (e e' : Insertion K P) : Prop :=
  NoLonger (orderings ops) (e.ordering ops) (e'.ordering ops) ↔
    NoLonger ((orderings ops).filter (fun a => keep a.1)) (e.ordering ops) (e'.ordering ops)

variable {ops : List (SceneOp K P)} {keep : ℕ → Bool}

lemma ordering_eq_of_layer (hsome : e.layer.isSome = true)
    (hl : e.layer = e'.layer) (he : e ∈ insertions ops) : e.ordering ops = e'.ordering ops := by
  obtain ⟨l, hl₀⟩ := Option.isSome_iff_exists.mp hsome
  obtain ⟨bounds, hb⟩ := exists_layer he hl₀
  have hl₁ : e'.layer = some l := hl ▸ hl₀
  simp [Insertion.ordering, Insertion.orderedAt, orderBounds_of_layer hl₀ hb,
    orderBounds_of_layer hl₁ hb, hl₀, hl₁]

lemma OrderedAlike.chainsAlike (h : OrderedAlike ops keep e e') (he : e ∈ insertions ops)
    (he' : e' ∈ insertions ops) (hk : keep e.orderedAt = true) (hk' : keep e'.orderedAt = true) :
    ChainsAlike ops keep e e' := by
  have hmem := mem_orderings he
  have hmem' := mem_orderings he'
  have hleft : e.ordering ops ∈ (orderings ops).filter (fun a => keep a.1) :=
    mem_filter.mpr ⟨hmem, hk⟩
  have hleft' : e'.ordering ops ∈ (orderings ops).filter (fun a => keep a.1) :=
    mem_filter.mpr ⟨hmem', hk'⟩
  rcases h with ⟨hsome, hl⟩ | hint | hjoined
  · rw [ChainsAlike, ordering_eq_of_layer hsome hl he]
    exact iff_of_true (fun _ h => h) (fun _ h => h)
  · rcases lt_trichotomy e.orderedAt e'.orderedAt with hlt | heq | hgt
    · exact iff_of_true (BoundsChain.noLonger hmem' hlt hint) (BoundsChain.noLonger hleft' hlt hint)
    · rw [ChainsAlike, orderings_injOn hmem hmem' heq]
      exact iff_of_true (fun _ h => h) (fun _ h => h)
    · rw [intersects_comm] at hint
      exact iff_of_false (BoundsChain.not_noLonger hmem' hmem hgt hint)
        (BoundsChain.not_noLonger hleft' hleft hgt hint)
  · exact (noLonger_filter_iff hjoined).symm

variable [FloorRing K] [IsStrictOrderedRing K]

/-- Two insertions that are left are drawn in one order just if their chains compare alike. -/
lemma paintKey_lt_iff_iff_chainsAlike (h : Thins delta source W T)
    (hkeep : ∀ k < T.length, keep (source k) = true)
    (hkept : ∀ i < W.length, keep i = true → ∃ k < T.length, source k = i) {s t : Scene K P}
    (hs : s.Holds W order) (ht : t.Holds T orderT) (hc : IsCopy delta source W T e f)
    (hc' : IsCopy delta source W T e' f') (hfirst : e.DrawsFirst e') :
    (((e.placed order).paintKey < (e'.placed order).paintKey ↔
        (f.placed orderT).paintKey < (f'.placed orderT).paintKey) ↔ ChainsAlike W keep e e') ∧
      (((e'.placed order).paintKey < (e.placed order).paintKey ↔
        (f'.placed orderT).paintKey < (f.placed orderT).paintKey) ↔ ChainsAlike W keep e e') := by
  have hfirstT : f.DrawsFirst f' :=
    (paintKey_lt_iff_of_order h hc hc' Iff.rfl Iff.rfl).mp hfirst
  have hW : NoLonger (orderings W) (e.ordering W) (e'.ordering W) ↔
      order e.orderedAt ≤ order e'.orderedAt :=
    hs.noLonger_iff (mem_orderings hc.mem) (mem_orderings hc'.mem)
  have hT : NoLonger (orderings T) (f.ordering T) (f'.ordering T) ↔
      orderT f.orderedAt ≤ orderT f'.orderedAt :=
    ht.noLonger_iff (mem_orderings hc.mem_copy) (mem_orderings hc'.mem_copy)
  have hleft : NoLonger ((orderings W).filter (fun a => keep a.1)) (e.ordering W)
      (e'.ordering W) ↔ orderT f.orderedAt ≤ orderT f'.orderedAt := by
    rw [← hT]
    exact forall_congr' (fun n => imp_congr (h.chain_iff hkeep hkept hc) (h.chain_iff hkeep hkept hc'))
  rw [ChainsAlike, hW, hleft, (hfirst.paintKey_lt_iff order).1, (hfirst.paintKey_lt_iff order).2,
    (hfirstT.paintKey_lt_iff orderT).1, (hfirstT.paintKey_lt_iff orderT).2, not_iff_not]
  exact ⟨Iff.rfl, Iff.rfl⟩

end Compare

section Tiles

variable [LinearOrder K]

/-- Where each operation a tile keeps was in the content. -/
def keptSource (kept : List (SceneOp K P × ℕ)) (k : ℕ) : ℕ := (kept.map (·.2)).getD k 0

variable {delta : Point K} {source : ℕ → ℕ} {W T : List (SceneOp K P)}

/-- `kept`, put after `T`, comes from where `source` says. -/
def SourceOf (source : ℕ → ℕ) (T : List (SceneOp K P)) (kept : List (SceneOp K P × ℕ)) : Prop :=
  ∀ k e, kept[k]? = some e → source (T.length + k) = e.2

omit [Field K] [LinearOrder K] in
lemma SourceOf.tail {e : SceneOp K P × ℕ} {kept : List (SceneOp K P × ℕ)} (op : SceneOp K P)
    (h : SourceOf source T (e :: kept)) : SourceOf source (T ++ [op]) kept := by
  intro k e' he'
  have := h (k + 1) e' (by simpa using he')
  rwa [length_append, length_singleton, Nat.add_assoc, Nat.add_comm 1 k]

omit [Field K] [LinearOrder K] in
lemma SourceOf.append {kept kept' : List (SceneOp K P × ℕ)} {more : List (SceneOp K P)}
    (hlen : more.length = kept.length) (h : SourceOf source T (kept ++ kept')) :
    SourceOf source T kept ∧ SourceOf source (T ++ more) kept' := by
  refine ⟨fun k e he => h k e ?_, fun k e he => ?_⟩
  · rw [getElem?_append_left (List.getElem?_eq_some_iff.mp he).1, he]
  · have := h (kept.length + k) e (by rw [getElem?_append_right (by omega)]; simpa using he)
    rwa [length_append, hlen, Nat.add_assoc]

omit [LinearOrder K] in
lemma Thins.filter {keep : SceneOp K P × ℕ → Bool} (h : Thins delta source W T)
    (ops : List (SceneOp K P))
    (hkeep : ∀ e ∈ ops.zipIdx W.length, keep e = false → ∃ p, e.1 = .insertPrimitive p)
    (hsource : SourceOf source T ((ops.zipIdx W.length).filter keep)) :
    Thins delta source (W ++ ops)
      (T ++ ((ops.zipIdx W.length).filter keep).map (fun e => e.1.translate delta)) := by
  induction ops generalizing W T with
  | nil => simpa using h
  | cons op ops ih =>
    have hlen : W.length + 1 = (W ++ [op]).length := by simp
    rw [zipIdx_cons, hlen] at hkeep hsource ⊢
    rw [append_cons W]
    have hrest := fun e he => hkeep e (mem_cons_of_mem _ he)
    cases hop : keep (op, W.length) with
    | true =>
      rw [filter_cons_of_pos hop] at hsource ⊢
      rw [map_cons, append_cons T]
      exact ih (.keep op h (hsource 0 _ rfl)) hrest (hsource.tail _)
    | false =>
      rw [filter_cons_of_neg (by simp [hop])] at hsource ⊢
      obtain ⟨primitive, rfl⟩ := hkeep _ mem_cons_self hop
      exact ih (.drop h (.insertPrimitive primitive)) hrest hsource

variable (bounds : Bounds K)

lemma Thins.part (h : Thins delta source W T) (ops : List (SceneOp K P))
    (hsource : SourceOf source T ((ops.zipIdx W.length).filter (fun e => keeps bounds e.1))) :
    Thins delta source (W ++ ops)
      (T ++ ((ops.zipIdx W.length).filter (fun e => keeps bounds e.1)).map
        (fun e => e.1.translate delta)) := by
  refine h.filter ops (fun e _ hdrop => ?_) hsource
  obtain ⟨op, i⟩ := e
  cases op with
  | insertPrimitive primitive => exact ⟨primitive, rfl⟩
  | pushLayer bounds => cases hdrop
  | popLayer => cases hdrop

lemma Thins.kept (h : Thins delta source W T) (content : LayerContent K P)
    (hsource : SourceOf source T (content.kept bounds W.length)) :
    Thins delta source (W ++ content.operations)
      (T ++ (content.kept bounds W.length).map (fun e => e.1.translate delta)) := by
  induction content generalizing W T with
  | nil => simpa [operations, LayerContent.kept] using h
  | cons part parts ih =>
    have hops : operations (part :: parts) =
        part.operations ++ operations parts := flatMap_cons
    rw [LayerContent.kept, ← length_append] at hsource ⊢
    rw [hops, ← append_assoc, map_append, ← append_assoc]
    split_ifs at hsource ⊢ with hreach
    · obtain ⟨hpart, hparts⟩ := hsource.append (length_map (fun e => e.1.translate delta))
      exact ih (h.part bounds _ hpart) hparts
    · rw [map_nil, append_nil]
      exact ih (.drop h part.balanced) hsource

lemma thins_kept (delta : Point K) (content : LayerContent K P) :
    Thins delta (keptSource (content.kept bounds 0)) content.operations
      ((content.kept bounds 0).map (fun e => e.1.translate delta)) := by
  refine Thins.kept bounds .nil content (fun k e he => ?_)
  simp only [length_nil, Nat.zero_add] at he ⊢
  simp [keptSource, he]

end Tiles

section Keeps

variable [LinearOrder K]

/-- Whether the visible bounds of two primitives overlap each other inside `tile`. -/
def overlapInside (tile : Bounds K) (p q : Primitive K P) : Bool :=
  !(((visibleBounds p).intersect (visibleBounds q)).intersect tile).isEmpty

/-- Whether `outer` holds all of `inner`. -/
def Bounds.Covers (outer inner : Bounds K) : Prop :=
  (outer.origin.x ≤ inner.origin.x ∧ outer.origin.y ≤ inner.origin.y) ∧
    (inner.bottomRight.x ≤ outer.bottomRight.x ∧ inner.bottomRight.y ≤ outer.bottomRight.y)

lemma Bounds.Covers.intersects {a b c : Bounds K} (h : a.Covers b) (hb : b.intersects c = true) :
    a.intersects c = true := by
  rw [intersects_iff] at hb ⊢
  obtain ⟨⟨hx, hy⟩, hx', hy'⟩ := h
  exact ⟨⟨hx.trans_lt hb.1.1, hb.1.2.trans_le hx'⟩, ⟨hy.trans_lt hb.2.1, hb.2.2.trans_le hy'⟩⟩

variable [IsStrictOrderedRing K] {a b : Bounds K}

lemma Bounds.isEmpty_eq_false_iff : a.isEmpty = false ↔
    a.origin.x < a.bottomRight.x ∧ a.origin.y < a.bottomRight.y := by
  simp [isEmpty]

omit [LinearOrder K] [IsStrictOrderedRing K] in
lemma Bounds.bottomRight_fromCorners (p q : Point K) : (fromCorners p q).bottomRight = q := by
  simp [fromCorners, bottomRight]

lemma Bounds.isEmpty_intersect_eq_false_iff : (a.intersect b).isEmpty = false ↔
    max a.origin.x b.origin.x < min a.bottomRight.x b.bottomRight.x ∧
      max a.origin.y b.origin.y < min a.bottomRight.y b.bottomRight.y := by
  rw [isEmpty_eq_false_iff, intersect, bottomRight_fromCorners]
  simp only [fromCorners, lt_max_iff, lt_irrefl, or_false]

lemma Bounds.of_intersect (h : (a.intersect b).isEmpty = false) :
    a.isEmpty = false ∧ a.intersects b = true := by
  rw [isEmpty_intersect_eq_false_iff] at h
  simp only [max_lt_iff, lt_min_iff] at h
  rw [isEmpty_eq_false_iff, intersects_iff]
  tauto

lemma Bounds.covers_of_intersect (h : (a.intersect b).isEmpty = false) :
    a.Covers (a.intersect b) := by
  rw [isEmpty_intersect_eq_false_iff] at h
  rw [Covers, intersect, bottomRight_fromCorners]
  simp only [fromCorners, max_eq_left h.1.le, max_eq_left h.2.le]
  exact ⟨⟨le_max_left _ _, le_max_left _ _⟩, min_le_left _ _, min_le_left _ _⟩

variable {tile : Bounds K} {p : Primitive K P}

omit [IsStrictOrderedRing K] in
lemma overlapInside_comm (tile : Bounds K) (p q : Primitive K P) :
    overlapInside tile p q = overlapInside tile q p := by
  have hcomm : (visibleBounds p).intersect (visibleBounds q) =
      (visibleBounds q).intersect (visibleBounds p) := by
    simp only [intersect, max_comm, min_comm]
  rw [overlapInside, overlapInside, hcomm]

lemma visible_of_overlapInside {q : Primitive K P} (h : overlapInside tile p q = true) :
    ((visibleBounds p).isEmpty = false ∧ (visibleBounds p).intersects tile = true) ∧
      (visibleBounds q).isEmpty = false ∧ (visibleBounds q).intersects tile = true := by
  have hleft : ∀ p q : Primitive K P, overlapInside tile p q = true →
      (visibleBounds p).isEmpty = false ∧ (visibleBounds p).intersects tile = true := by
    intro p q h
    rw [overlapInside, Bool.not_eq_true'] at h
    obtain ⟨hne, hint⟩ := of_intersect h
    exact ⟨(of_intersect hne).1, (covers_of_intersect hne).intersects hint⟩
  exact ⟨hleft p q h, hleft q p (overlapInside_comm tile p q ▸ h)⟩

omit [IsStrictOrderedRing K] in
lemma Bounds.covers_union (a b : Bounds K) : (a.union b).Covers a ∧ (a.union b).Covers b := by
  rw [Covers, Covers, union, bottomRight_fromCorners]
  exact ⟨⟨⟨min_le_left _ _, min_le_left _ _⟩, le_max_left _ _, le_max_left _ _⟩,
    ⟨min_le_right _ _, min_le_right _ _⟩, le_max_right _ _, le_max_right _ _⟩

omit [IsStrictOrderedRing K] in
lemma reach_covers {ops : List (SceneOp K P)} (hp : SceneOp.insertPrimitive p ∈ ops)
    (hne : (visibleBounds p).isEmpty = false) :
    ∃ b, reach ops = some b ∧ b.Covers (visibleBounds p) := by
  induction ops using reverseRecOn with
  | nil => simp at hp
  | append_singleton ops op ih =>
    rw [reach, foldl_append, foldl_cons, foldl_nil, ← reach]
    rcases mem_append.mp hp with hp | hp
    · obtain ⟨b, hb, hcovers⟩ := ih hp
      rw [hb]
      cases op with
      | insertPrimitive primitive =>
        cases hempty : (visibleBounds primitive).isEmpty with
        | true => exact ⟨b, by simp [hempty], hcovers⟩
        | false =>
          obtain ⟨⟨hx, hy⟩, hx', hy'⟩ := (covers_union b (visibleBounds primitive)).1
          obtain ⟨⟨h1, h2⟩, h3, h4⟩ := hcovers
          exact ⟨b.union (visibleBounds primitive), by simp [hempty],
            ⟨hx.trans h1, hy.trans h2⟩, h3.trans hx', h4.trans hy'⟩
      | pushLayer bounds => exact ⟨b, rfl, hcovers⟩
      | popLayer => exact ⟨b, rfl, hcovers⟩
    · obtain rfl := mem_singleton.mp hp
      cases hreach : reach ops with
      | none => exact ⟨visibleBounds p, by simp [hne], ⟨le_rfl, le_rfl⟩, le_rfl, le_rfl⟩
      | some b => exact ⟨b.union (visibleBounds p), by simp [hne], (covers_union _ _).2⟩

omit [IsStrictOrderedRing K] in
lemma reachesOver_of_visible {part : LayerPart K P}
    (hp : SceneOp.insertPrimitive p ∈ part.operations) (hne : (visibleBounds p).isEmpty = false)
    (hint : (visibleBounds p).intersects tile = true) : reachesOver tile part = true := by
  rw [reachesOver]
  rcases part.bounds_eq with hb | hb
  · simp [hb]
  · obtain ⟨b, hreach, hcovers⟩ := reach_covers hp hne
    simpa [hb, hreach] using hcovers.intersects hint

omit [IsStrictOrderedRing K] in
lemma mem_kept {content : LayerContent K P} {i : ℕ}
    (hi : content.operations[i]? = some (.insertPrimitive p))
    (hne : (visibleBounds p).isEmpty = false) (hint : (visibleBounds p).intersects tile = true)
    (place : ℕ) : (.insertPrimitive p, place + i) ∈ content.kept tile place := by
  induction content generalizing i place with
  | nil => simp [operations] at hi
  | cons part parts ih =>
    have hops : operations (part :: parts) =
        part.operations ++ operations parts := flatMap_cons
    rw [hops] at hi
    rw [LayerContent.kept, mem_append]
    by_cases hlt : i < part.operations.length
    · rw [getElem?_append_left hlt] at hi
      rw [if_pos (reachesOver_of_visible (mem_of_getElem? hi) hne hint)]
      refine .inl (mem_filter.mpr ⟨?_, hint⟩)
      exact mk_add_mem_zipIdx_iff_getElem?.mpr hi
    · rw [getElem?_append_right (not_lt.mp hlt)] at hi
      refine .inr ?_
      have := ih hi (place + part.operations.length)
      rwa [Nat.add_assoc, Nat.add_sub_of_le (not_lt.mp hlt)] at this

end Keeps

section Drawing

variable [LinearOrder K] [FloorRing K]

omit [Field K] [LinearOrder K] [FloorRing K] in
lemma insertion_eq_of_place {ops : List (SceneOp K P)} {e e' : Insertion K P}
    (he : e ∈ insertions ops) (he' : e' ∈ insertions ops) (h : e.place = e'.place) : e = e' := by
  obtain ⟨hp, hl⟩ := mem_insertions.mp he
  obtain ⟨hp', hl'⟩ := mem_insertions.mp he'
  rw [h] at hp hl
  have hprimitive : e.primitive = e'.primitive := by simpa using hp.symm.trans hp'
  rcases e with ⟨p, i, l⟩
  rcases e' with ⟨p', i', l'⟩
  simp_all

omit [Field K] [LinearOrder K] [FloorRing K] in
lemma pair_sublist_map_iff {α β κ : Type*} [Preorder κ] {key : α → κ} {l : List α}
    (h : l.Pairwise (fun x y => key x < key y)) (name : α → β)
    (hname : ∀ x ∈ l, ∀ y ∈ l, name x = name y → x = y) {x y : α} (hx : x ∈ l) (hy : y ∈ l) :
    [name x, name y].Sublist (l.map name) ↔ key x < key y := by
  constructor
  · intro hsub
    obtain ⟨l', hl, hmap⟩ := sublist_map_iff.mp hsub
    obtain ⟨a, b, rfl⟩ : ∃ a b, l' = [a, b] := length_eq_two.mp (by
      simpa using (congrArg List.length hmap).symm)
    simp only [map_cons, map_nil, List.cons.injEq, and_true] at hmap
    obtain rfl := hname x hx a (hl.subset (by simp)) hmap.1
    obtain rfl := hname y hy b (hl.subset (by simp)) hmap.2
    exact rel_of_pairwise_cons (h.sublist hl) (mem_singleton_self _)
  · exact fun hlt => (pair_sublist_of_key_lt h hx hy hlt).map name

lemma Scene.Holds.pair_sublist_iff {s : Scene K P} {ops : List (SceneOp K P)} {order : ℕ → ℕ}
    (h : s.Holds ops order) (name : ℕ → ℕ)
    (hname : ∀ k < ops.length, ∀ l < ops.length, name k = name l → k = l) {e e' : Insertion K P}
    (he : e ∈ insertions ops) (he' : e' ∈ insertions ops) :
    [name e.place, name e'.place].Sublist (s.finish.drawing.map (fun x => name x.place)) ↔
      (e.placed order).paintKey < (e'.placed order).paintKey := by
  have hd := h.draws
  have hlt : ∀ e ∈ insertions ops, e.place < ops.length := fun e he =>
    (List.getElem?_eq_some_iff.mp (mem_insertions.mp he).1).1
  have hin : ∀ e ∈ insertions ops, e.placed order ∈ s.finish.drawing := fun e he =>
    hd.perm.mem_iff.mpr (mem_map_of_mem he)
  refine pair_sublist_map_iff hd.sorted (fun x : Placed K P => name x.place)
    (fun x hx y hy hn => ?_) (hin e he) (hin e' he')
  obtain ⟨f, hf, rfl⟩ := mem_map.mp (hd.perm.mem_iff.mp hx)
  obtain ⟨f', hf', rfl⟩ := mem_map.mp (hd.perm.mem_iff.mp hy)
  rw [insertion_eq_of_place hf hf' (hname _ (hlt f hf) _ (hlt f' hf') hn)]

namespace LayerFrame

def KeepsOrder (frame : LayerFrame K P) (tile : TileCoord) : Prop :=
  ∀ e ∈ insertions frame.content.operations, ∀ e' ∈ insertions frame.content.operations,
    overlapInside (frame.tileBounds tile) e.primitive e'.primitive = true →
      ([e.place, e'.place].Sublist frame.contentDrawing ↔
        [e.place, e'.place].Sublist (frame.tileDrawing tile))

/-- The places of the operations a tile keeps. -/
def keptPlaces (frame : LayerFrame K P) (tile : TileCoord) : List ℕ :=
  (frame.content.kept (frame.tileBounds tile) 0).map (·.2)

/-- What overlaps inside the tile is in one layer, or ordered by bounds that meet, or joined to
nothing that the tile leaves out. -/
def OrderedByOverlap (frame : LayerFrame K P) (tile : TileCoord) : Prop :=
  ∀ e ∈ insertions frame.content.operations, ∀ e' ∈ insertions frame.content.operations, e ≠ e' →
    overlapInside (frame.tileBounds tile) e.primitive e'.primitive = true →
      OrderedAlike frame.content.operations (· ∈ frame.keptPlaces tile) e e'

/-- Of what overlaps inside the tile, the longest chains in the content compare as the longest of
those that the tile keeps. -/
def OrderedByChains (frame : LayerFrame K P) (tile : TileCoord) : Prop :=
  ∀ e ∈ insertions frame.content.operations, ∀ e' ∈ insertions frame.content.operations,
    overlapInside (frame.tileBounds tile) e.primitive e'.primitive = true → e.DrawsFirst e' →
      ChainsAlike frame.content.operations (· ∈ frame.keptPlaces tile) e e'

variable {frame : LayerFrame K P} {tile : TileCoord}

omit [FloorRing K] in
lemma recorded_of_mem_operations {op : SceneOp K P} (h : op ∈ frame.content.operations) :
    op.recorded = true := by
  obtain ⟨part, -, hop⟩ := mem_flatMap.mp h
  exact part.recorded op hop

omit [FloorRing K] in
lemma mem_operations_of_mem_kept {content : LayerContent K P} {bounds : Bounds K} {place : ℕ}
    {e : SceneOp K P × ℕ} (h : e ∈ content.kept bounds place) : e.1 ∈ content.operations := by
  induction content generalizing place with
  | nil => simp [LayerContent.kept] at h
  | cons part parts ih =>
    have hops : operations (part :: parts) =
        part.operations ++ operations parts := flatMap_cons
    rw [LayerContent.kept, mem_append] at h
    rw [hops, mem_append]
    rcases h with h | h
    · split_ifs at h
      · exact .inl (fst_mem_of_mem_zipIdx (mem_of_mem_filter h))
      · simp at h
    · exact .inr (ih h)

variable [IsStrictOrderedRing K]

lemma exists_holds (ops : List (SceneOp K P)) (h : ∀ op ∈ ops, op.recorded = true) :
    ∃ order, (Scene.default.run ops).Holds ops order := by
  have hdefault : (Scene.default : Scene K P).Holds [] (fun _ => 0) := Scene.holds_default
  obtain ⟨order, hs⟩ := hdefault.run ops
  rw [nil_append, filter_eq_self.mpr h] at hs
  exact ⟨order, hs⟩

def tileOps (frame : LayerFrame K P) (tile : TileCoord) : List (SceneOp K P) :=
  (frame.content.kept (frame.tileBounds tile) 0).map (fun e => e.1.translate (frame.tileDelta tile))

def tileSource (frame : LayerFrame K P) (tile : TileCoord) : ℕ → ℕ :=
  keptSource (frame.content.kept (frame.tileBounds tile) 0)

omit [FloorRing K] in
lemma recorded_tileOps (frame : LayerFrame K P) (tile : TileCoord) :
    ∀ op ∈ frame.tileOps tile, op.recorded = true := by
  intro op hop
  obtain ⟨e, he, rfl⟩ := mem_map.mp hop
  rw [recorded_translate]
  exact recorded_of_mem_operations (mem_operations_of_mem_kept he)

omit [FloorRing K] [IsStrictOrderedRing K] in
lemma exists_copy {e : Insertion K P} (he : e ∈ insertions frame.content.operations)
    (hne : (visibleBounds e.primitive).isEmpty = false)
    (hint : (visibleBounds e.primitive).intersects (frame.tileBounds tile) = true) :
    ∃ f, IsCopy (frame.tileDelta tile) (frame.tileSource tile) frame.content.operations
      (frame.tileOps tile) e f := by
  have hmem := mem_kept (mem_insertions.mp he).1 hne hint 0
  obtain ⟨k, hk⟩ := mem_iff_getElem?.mp hmem
  rw [Nat.zero_add] at hk
  obtain ⟨f, -, hf⟩ := (thins_kept _ _ _ : Thins (frame.tileDelta tile) (frame.tileSource tile) _
    (frame.tileOps tile)).exists_copy he (k := k)
    (by simpa [tileOps] using (List.getElem?_eq_some_iff.mp hk).1)
    (by simp [keptSource, hk])
  exact ⟨f, hf⟩

omit [IsStrictOrderedRing K] in
lemma tileDrawing_eq {orderT : ℕ → ℕ}
    (ht : (Scene.default.run (frame.tileOps tile)).Holds (frame.tileOps tile) orderT) :
    frame.tileDrawing tile =
      (Scene.default.run (frame.tileOps tile)).finish.drawing.map
        (fun x => frame.tileSource tile x.place) := by
  rw [tileDrawing, ← filterMap_eq_map]
  refine filterMap_congr (fun x hx => ?_)
  obtain ⟨f, hf, rfl⟩ := mem_map.mp (ht.draws.perm.mem_iff.mp hx)
  have hlt : f.place < (frame.content.kept (frame.tileBounds tile) 0).length := by
    simpa [tileOps] using (List.getElem?_eq_some_iff.mp (mem_insertions.mp hf).1).1
  simp [tileSource, keptSource, Insertion.placed, hlt]

omit [FloorRing K] [IsStrictOrderedRing K] in
lemma tileSource_mem_keptPlaces {k : ℕ} (hk : k < (frame.tileOps tile).length) :
    frame.tileSource tile k ∈ frame.keptPlaces tile := by
  have hk' : k < (frame.keptPlaces tile).length := by simpa [tileOps, keptPlaces] using hk
  rw [tileSource, keptSource, ← keptPlaces, getD_eq_getElem _ _ hk']
  exact getElem_mem hk'

omit [FloorRing K] [IsStrictOrderedRing K] in
lemma exists_tileSource_eq {i : ℕ} (hi : i ∈ frame.keptPlaces tile) :
    ∃ k < (frame.tileOps tile).length, frame.tileSource tile k = i := by
  obtain ⟨k, hk, rfl⟩ := getElem_of_mem hi
  refine ⟨k, by simpa [tileOps, keptPlaces] using hk, ?_⟩
  rw [tileSource, keptSource, ← keptPlaces, getD_eq_getElem _ _ hk]

omit [FloorRing K] [IsStrictOrderedRing K] in
lemma tileSource_injOn (frame : LayerFrame K P) (tile : TileCoord) :
    ∀ k < (frame.tileOps tile).length, ∀ l < (frame.tileOps tile).length,
      frame.tileSource tile k = frame.tileSource tile l → k = l := by
  intro k hk l hl heq
  have hthins : Thins (frame.tileDelta tile) (frame.tileSource tile) frame.content.operations
    (frame.tileOps tile) := thins_kept _ _ _
  have hkl := hthins.source_lt_iff hk hl
  have hlk := hthins.source_lt_iff hl hk
  omega

section

variable {e e' : Insertion K P} (he : e ∈ insertions frame.content.operations)
  (he' : e' ∈ insertions frame.content.operations)
  (hover : overlapInside (frame.tileBounds tile) e.primitive e'.primitive = true)
include he he' hover

/-- Two primitives that overlap inside a tile are drawn by it as the window draws them just if
their chains compare alike. -/
lemma pair_kept_iff (hfirst : e.DrawsFirst e') :
    (([e.place, e'.place].Sublist frame.contentDrawing ↔
        [e.place, e'.place].Sublist (frame.tileDrawing tile)) ↔
      ChainsAlike frame.content.operations (· ∈ frame.keptPlaces tile) e e') ∧
    (([e'.place, e.place].Sublist frame.contentDrawing ↔
        [e'.place, e.place].Sublist (frame.tileDrawing tile)) ↔
      ChainsAlike frame.content.operations (· ∈ frame.keptPlaces tile) e e') := by
  obtain ⟨order, hs⟩ := exists_holds frame.content.operations
    (fun op => recorded_of_mem_operations)
  obtain ⟨orderT, ht⟩ := exists_holds (frame.tileOps tile) (recorded_tileOps frame tile)
  obtain ⟨⟨hne, hint⟩, hne', hint'⟩ := visible_of_overlapInside hover
  obtain ⟨f, hc⟩ := exists_copy he hne hint
  obtain ⟨f', hc'⟩ := exists_copy he' hne' hint'
  have hcontent : ∀ e ∈ insertions frame.content.operations,
      ∀ e' ∈ insertions frame.content.operations,
        [e.place, e'.place].Sublist frame.contentDrawing ↔
          (e.placed order).paintKey < (e'.placed order).paintKey :=
    fun e he e' he' => hs.pair_sublist_iff id (fun _ _ _ _ h => h) he he'
  have htile := ht.pair_sublist_iff _ (tileSource_injOn frame tile) hc.mem_copy hc'.mem_copy
  have htile' := ht.pair_sublist_iff _ (tileSource_injOn frame tile) hc'.mem_copy hc.mem_copy
  rw [hc.place, hc'.place, ← tileDrawing_eq ht] at htile htile'
  rw [hcontent e he e' he', hcontent e' he' e he, htile, htile']
  exact paintKey_lt_iff_iff_chainsAlike (thins_kept _ _ _)
    (fun k hk => decide_eq_true (tileSource_mem_keptPlaces hk))
    (fun i _ hi => exists_tileSource_eq (of_decide_eq_true hi)) hs ht hc hc' hfirst

end

omit [FloorRing K] in
lemma keep_orderedAt {e e' : Insertion K P} (he : e ∈ insertions frame.content.operations)
    (hover : overlapInside (frame.tileBounds tile) e.primitive e'.primitive = true) :
    e.orderedAt ∈ frame.keptPlaces tile := by
  obtain ⟨⟨hne, hint⟩, -⟩ := visible_of_overlapInside hover
  obtain ⟨f, hc⟩ := exists_copy he hne hint
  exact hc.orderedAt ▸ tileSource_mem_keptPlaces (Scene.orderedAt_lt hc.mem_copy)

lemma pair_self_kept {e : Insertion K P} (he : e ∈ insertions frame.content.operations)
    (hover : overlapInside (frame.tileBounds tile) e.primitive e.primitive = true) :
    [e.place, e.place].Sublist frame.contentDrawing ↔
      [e.place, e.place].Sublist (frame.tileDrawing tile) := by
  obtain ⟨order, hs⟩ := exists_holds frame.content.operations
    (fun op => recorded_of_mem_operations)
  obtain ⟨orderT, ht⟩ := exists_holds (frame.tileOps tile) (recorded_tileOps frame tile)
  obtain ⟨⟨hne, hint⟩, -⟩ := visible_of_overlapInside hover
  obtain ⟨f, hc⟩ := exists_copy he hne hint
  have hcontent := hs.pair_sublist_iff id (fun _ _ _ _ h => h) he he
  have htile := ht.pair_sublist_iff _ (tileSource_injOn frame tile) hc.mem_copy hc.mem_copy
  rw [hc.place, ← tileDrawing_eq ht] at htile
  rw [htile]
  exact hcontent.trans (iff_of_false (lt_irrefl _) (lt_irrefl _))

/-- A tile draws what the window draws just if the chains of what overlaps inside it compare as
those it keeps; so they do where the bounds primitives are ordered by overlap as what they draw
does, or where nothing left out is joined to them. -/
theorem keepsOrder_iff (frame : LayerFrame K P) (tile : TileCoord) :
    (frame.KeepsOrder tile ↔ frame.OrderedByChains tile) ∧
      (frame.OrderedByOverlap tile → frame.KeepsOrder tile) := by
  have hiff : frame.KeepsOrder tile ↔ frame.OrderedByChains tile := by
    constructor
    · intro h e he e' he' hover hfirst
      exact (pair_kept_iff he he' hover hfirst).1.mp (h e he e' he' hover)
    · intro h e he e' he' hover
      by_cases hplace : e.place = e'.place
      · obtain rfl := insertion_eq_of_place he he' hplace
        exact pair_self_kept he hover
      · have hover' : overlapInside (frame.tileBounds tile) e'.primitive e.primitive = true := by
          rwa [overlapInside_comm]
        rcases Insertion.drawsFirst_or hplace with hfirst | hfirst
        · exact (pair_kept_iff he he' hover hfirst).1.mpr (h e he e' he' hover hfirst)
        · exact (pair_kept_iff he' he hover' hfirst).2.mpr (h e' he' e he hover' hfirst)
  refine ⟨hiff, fun h => hiff.mpr (fun e he e' he' hover hfirst => ?_)⟩
  have hne : e ≠ e' := fun heq => lt_irrefl _ (heq ▸ hfirst)
  have hover' : overlapInside (frame.tileBounds tile) e'.primitive e.primitive = true := by
    rwa [overlapInside_comm]
  exact (h e he e' he' hne hover).chainsAlike he he'
    (decide_eq_true (keep_orderedAt he hover)) (decide_eq_true (keep_orderedAt he' hover'))

/-- One scene's operations as content, with nothing known of where they reach. -/
def ofScene (tileSize : ℕ) (ops : List (SceneOp K P)) (hrec : ∀ op ∈ ops, op.recorded = true)
    (hbal : Balanced ops) : LayerFrame K P :=
  ⟨tileSize, [⟨none, ops, hrec, hbal, .inl rfl⟩]⟩

omit [Field K] [LinearOrder K] [FloorRing K] [IsStrictOrderedRing K] in
lemma balanced_insertPrimitives (ps : List (Primitive K P)) :
    Balanced (ps.map SceneOp.insertPrimitive) := by
  induction ps with
  | nil => exact .nil
  | cons p ps ih => exact .append (.insertPrimitive p) ih

/-- A quad off the tile, a shadow over it and over a quad on the tile. -/
def shadowedOps : List (SceneOp ℚ Unit) :=
  let mask : Bounds ℚ := ⟨⟨0, 0⟩, ⟨1000, 1000⟩⟩
  [.insertPrimitive ⟨.quad, ⟨⟨300, 0⟩, ⟨100, 10⟩⟩, mask, ()⟩,
    .insertPrimitive ⟨.quad, ⟨⟨100, 0⟩, ⟨110, 10⟩⟩, mask, ()⟩,
    .insertPrimitive ⟨.shadow 10 ⟨⟨0, 0⟩, ⟨0, 0⟩⟩ false, ⟨⟨200, 0⟩, ⟨110, 10⟩⟩, mask, ()⟩]

def shadowedFrame : LayerFrame ℚ Unit :=
  ofScene 256 shadowedOps (by with_unfolding_all decide) (balanced_insertPrimitives [_, _, _])

theorem keepsOrder_shadowedFrame :
    shadowedFrame.KeepsOrder ⟨0, 0⟩ ∧ shadowedFrame.tileDrawing ⟨0, 0⟩ = [1, 2] := by
  have h : shadowedFrame.OrderedByOverlap ⟨0, 0⟩ := by
    intro e he e' he' hne hover
    refine .inr (.inl ?_)
    revert e e'
    with_unfolding_all decide
  exact ⟨(keepsOrder_iff shadowedFrame ⟨0, 0⟩).2 h, by with_unfolding_all decide⟩

/-- A quad off the tile, a shadow over it that blurs into the tile, and a quad under the blur. -/
def blurredOps : List (SceneOp ℚ Unit) :=
  let mask : Bounds ℚ := ⟨⟨0, 0⟩, ⟨1000, 1000⟩⟩
  [.insertPrimitive ⟨.quad, ⟨⟨300, 0⟩, ⟨100, 10⟩⟩, mask, ()⟩,
    .insertPrimitive ⟨.shadow 10 ⟨⟨0, 0⟩, ⟨0, 0⟩⟩ false, ⟨⟨200, 0⟩, ⟨110, 10⟩⟩, mask, ()⟩,
    .insertPrimitive ⟨.quad, ⟨⟨100, 0⟩, ⟨90, 10⟩⟩, mask, ()⟩]

def blurredFrame : LayerFrame ℚ Unit :=
  ofScene 256 blurredOps (by with_unfolding_all decide) (balanced_insertPrimitives [_, _, _])

/-- Without the quad it left out, the tile draws the shadow under the quad it is drawn over. -/
theorem not_keepsOrder_blurredFrame : ¬ blurredFrame.KeepsOrder ⟨0, 0⟩ := by
  intro h
  have hcontent : blurredFrame.contentDrawing = [0, 2, 1] := by with_unfolding_all decide
  have htile : blurredFrame.tileDrawing ⟨0, 0⟩ = [1, 2] := by with_unfolding_all decide
  have hquad : (insertions blurredFrame.content.operations)[2]? =
      some ⟨⟨.quad, ⟨⟨100, 0⟩, ⟨90, 10⟩⟩, ⟨⟨0, 0⟩, ⟨1000, 1000⟩⟩, ()⟩, 2, none⟩ := by decide
  have hshadow : (insertions blurredFrame.content.operations)[1]? =
      some ⟨⟨.shadow 10 ⟨⟨0, 0⟩, ⟨0, 0⟩⟩ false, ⟨⟨200, 0⟩, ⟨110, 10⟩⟩,
        ⟨⟨0, 0⟩, ⟨1000, 1000⟩⟩, ()⟩, 1, none⟩ := by decide
  have hiff := h _ (mem_of_getElem? hquad) _ (mem_of_getElem? hshadow)
    (by with_unfolding_all decide)
  rw [hcontent, htile] at hiff
  exact absurd (hiff.mp (by decide)) (by decide)

end LayerFrame

end Drawing

end GpuiFast
