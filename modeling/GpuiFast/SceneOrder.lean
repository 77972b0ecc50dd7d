import GpuiFast.BoundsTreeRefines
import GpuiFast.SceneBatches

namespace GpuiFast

open List Option

inductive SceneOp (K P : Type*) where
  | insertPrimitive (primitive : Primitive K P)
  | pushLayer (bounds : Bounds K)
  | popLayer

/-- What `f` picks of a list, shown each item with those before it. -/
def collect {α β : Type*} (f : List α → α → Option β) (l : List α) : List β :=
  l.zipIdx.filterMap (fun e => f (l.take e.2) e.1)

section Collect

variable {α β : Type*} {f : List α → α → Option β} {l : List α}

lemma collect_concat (x : α) : collect f (l ++ [x]) = collect f l ++ (f l x).toList := by
  rw [collect, zipIdx_append, filterMap_append]
  congr 1
  · refine filterMap_congr (fun e he => ?_)
    have hlt : e.2 < l.length := by
      simpa using (mem_zipIdx (show (e.1, e.2) ∈ l.zipIdx from he)).2.1
    rw [take_append_of_le_length hlt.le]
  · cases h : f l x <;> simp [h]

lemma mem_collect {y : β} : y ∈ collect f l ↔ ∃ i x, l[i]? = some x ∧ f (l.take i) x = some y := by
  simp only [collect, mem_filterMap, Prod.exists, mem_zipIdx_iff_getElem?]
  exact ⟨fun ⟨x, i, h⟩ => ⟨i, x, h⟩, fun ⟨i, x, h⟩ => ⟨x, i, h⟩⟩

lemma collect_pairwise {place : β → ℕ} (hf : ∀ before x y, f before x = some y → place y = before.length) :
    (collect f l).Pairwise (fun y z => place y < place z) := by
  induction l using reverseRecOn with
  | nil => exact .nil
  | append_singleton l x ih =>
    rw [collect_concat]
    refine pairwise_append.mpr ⟨ih, ?_, fun y hy z hz => ?_⟩
    · cases f l x <;> simp
    · obtain ⟨i, x', hi, hy⟩ := mem_collect.mp hy
      have hlt : i < l.length := (List.getElem?_eq_some_iff.mp hi).1
      rw [hf _ _ _ (mem_toList.mp hz), hf _ _ _ hy, length_take_of_le hlt.le]
      exact hlt

end Collect

/-- The layers open after some operations, innermost first, by the places they start at. -/
def openLayers {K P : Type*} (ops : List (SceneOp K P)) : List ℕ :=
  ops.zipIdx.foldl (fun layers e =>
    match e.1 with
    | .insertPrimitive _ => layers
    | .pushLayer _ => e.2 :: layers
    | .popLayer => layers.tail) []

/-- An inserted primitive, with its place among the operations and the layer it is in. -/
structure Insertion (K P : Type*) where
  primitive : Primitive K P
  place : ℕ
  layer : Option ℕ
  deriving DecidableEq

variable {K P : Type*}

def insertions : List (SceneOp K P) → List (Insertion K P) :=
  collect (fun before op =>
    match op with
    | .insertPrimitive primitive => some ⟨primitive, before.length, (openLayers before).head?⟩
    | .pushLayer _ | .popLayer => none)

variable [Field K] [LinearOrder K] [FloorRing K]

/-- The bounds the tree is asked to order, with the places they come at: those of layers, and of
primitives outside them. -/
def orderings : List (SceneOp K P) → List (ℕ × Bounds K) :=
  collect (fun before op =>
    match op with
    | .insertPrimitive primitive =>
      if openLayers before = [] then some (before.length, primitive.clippedBounds) else none
    | .pushLayer bounds => some (before.length, bounds)
    | .popLayer => none)

namespace SceneOp

def recorded : SceneOp K P → Bool
  | .insertPrimitive primitive => !primitive.clippedBounds.isEmpty
  | .pushLayer _ | .popLayer => true

end SceneOp

namespace Scene

def apply (s : Scene K P) : SceneOp K P → Scene K P
  | .insertPrimitive primitive => s.insertPrimitive primitive
  | .pushLayer bounds => s.pushLayer bounds
  | .popLayer => s.popLayer

def run (s : Scene K P) (ops : List (SceneOp K P)) : Scene K P := ops.foldl apply s

/-- A scene cleared after painting `frames`. -/
def afterFrames (frames : List (List (SceneOp K P))) : Scene K P :=
  frames.foldl (fun s ops => (s.run ops).finish.clear) default

def placed (s : Scene K P) : List (Placed K P) := s.paintOperations.filterMap (·.placed?)

end Scene

section Concat

variable {ops : List (SceneOp K P)}

variable (op : SceneOp K P)

omit [Field K] [LinearOrder K] [FloorRing K] in
lemma openLayers_concat : openLayers (ops ++ [op]) =
    match op with
    | .insertPrimitive _ => openLayers ops
    | .pushLayer _ => ops.length :: openLayers ops
    | .popLayer => (openLayers ops).tail := by
  rw [openLayers, zipIdx_append, foldl_append, ← openLayers]
  cases op <;> simp

omit [Field K] [LinearOrder K] [FloorRing K] in
lemma insertions_concat : insertions (ops ++ [op]) = insertions ops ++
    match op with
    | .insertPrimitive primitive => [⟨primitive, ops.length, (openLayers ops).head?⟩]
    | .pushLayer _ | .popLayer => [] := by
  rw [insertions, collect_concat]
  cases op <;> simp

omit [FloorRing K] in
lemma orderings_concat : orderings (ops ++ [op]) = orderings ops ++
    match op with
    | .insertPrimitive primitive =>
      if openLayers ops = [] then [(ops.length, primitive.clippedBounds)] else []
    | .pushLayer bounds => [(ops.length, bounds)]
    | .popLayer => [] := by
  rw [orderings, collect_concat]
  cases op with
  | insertPrimitive primitive => by_cases h : openLayers ops = [] <;> simp [h]
  | pushLayer bounds => simp
  | popLayer => simp

omit [Field K] [LinearOrder K] [FloorRing K] in
lemma lt_length_of_mem_openLayers {l : ℕ} (h : l ∈ openLayers ops) : l < ops.length := by
  induction ops using reverseRecOn with
  | nil => simp [openLayers] at h
  | append_singleton ops op ih =>
    rw [openLayers_concat] at h
    rw [length_append, length_singleton]
    cases op with
    | insertPrimitive primitive => exact Nat.lt_succ_of_lt (ih h)
    | pushLayer bounds =>
      rcases mem_cons.mp h with rfl | h
      · exact Nat.lt_succ_self _
      · exact Nat.lt_succ_of_lt (ih h)
    | popLayer => exact Nat.lt_succ_of_lt (ih (mem_of_mem_tail h))

omit [Field K] [LinearOrder K] [FloorRing K] in
lemma mem_insertions {e : Insertion K P} : e ∈ insertions ops ↔
    ops[e.place]? = some (.insertPrimitive e.primitive) ∧
      e.layer = (openLayers (ops.take e.place)).head? := by
  rw [insertions, mem_collect]
  constructor
  · rintro ⟨i, op, hi, he⟩
    have hlen : (ops.take i).length = i :=
      length_take_of_le (List.getElem?_eq_some_iff.mp hi).1.le
    cases op with
    | insertPrimitive primitive =>
      obtain rfl := some.inj he
      rw [hlen]
      exact ⟨hi, rfl⟩
    | pushLayer bounds => cases he
    | popLayer => cases he
  · rintro ⟨hi, hl⟩
    have hlen : (ops.take e.place).length = e.place :=
      length_take_of_le (List.getElem?_eq_some_iff.mp hi).1.le
    exact ⟨e.place, _, hi, by rw [hlen, ← hl]⟩

omit [FloorRing K] in
lemma lt_length_of_mem_orderings {e : ℕ × Bounds K} (h : e ∈ orderings ops) : e.1 < ops.length := by
  obtain ⟨i, op, hi, he⟩ := mem_collect.mp h
  have hlt : i < ops.length := (List.getElem?_eq_some_iff.mp hi).1
  have hlen : (ops.take i).length = i := length_take_of_le hlt.le
  cases op with
  | insertPrimitive primitive =>
    simp only [ite_none_right_eq_some, some.injEq] at he
    exact he.2 ▸ hlen.symm ▸ hlt
  | pushLayer bounds => exact some.inj he ▸ hlen.symm ▸ hlt
  | popLayer => cases he

end Concat

/-- The place whose ordering an inserted primitive takes: that of its layer, or its own. -/
def Insertion.orderedAt (e : Insertion K P) : ℕ := e.layer.getD e.place

def Insertion.placed (order : ℕ → ℕ) (e : Insertion K P) : Placed K P :=
  ⟨e.primitive, order e.orderedAt, e.place, e.layer⟩

namespace Scene

/-- What `s` is after `ops`, all of them recorded, when the tree gave each place `order`. -/
structure Holds (s : Scene K P) (ops : List (SceneOp K P)) (order : ℕ → ℕ) : Prop where
  tree : s.primitiveBounds.Inv
  length : s.paintOperations.length = ops.length
  recorded : s.primitiveBounds.recorded = (orderings ops).map (fun e => (e.2, order e.1))
  layers : s.layerStack = (openLayers ops).map (fun l => (order l, l))
  placed : s.placed = (insertions ops).map (·.placed order)
  kinds : ∀ kind, s.primitives kind = s.placed.filter (·.kind = kind)

variable {s : Scene K P} {ops : List (SceneOp K P)} {order order' : ℕ → ℕ}

omit [Field K] [LinearOrder K] [FloorRing K] in
lemma orderedAt_lt {e : Insertion K P} (he : e ∈ insertions ops) : e.orderedAt < ops.length := by
  obtain ⟨hi, hl⟩ := mem_insertions.mp he
  have hlt : e.place < ops.length := (List.getElem?_eq_some_iff.mp hi).1
  unfold Insertion.orderedAt
  cases hlayer : e.layer with
  | none => exact hlt
  | some l =>
    rw [hlayer] at hl
    have hl' := lt_length_of_mem_openLayers (mem_of_head? hl.symm)
    rw [length_take] at hl'
    simpa using lt_of_lt_of_le hl' (min_le_right _ _)

lemma Holds.congr (h : s.Holds ops order) (heq : ∀ i < ops.length, order' i = order i) :
    s.Holds ops order' where
  tree := h.tree
  length := h.length
  recorded := by
    rw [h.recorded]
    exact map_congr_left (fun e he => by rw [heq _ (lt_length_of_mem_orderings he)])
  layers := by
    rw [h.layers]
    exact map_congr_left (fun l hl => by rw [heq _ (lt_length_of_mem_openLayers hl)])
  placed := by
    rw [h.placed]
    exact map_congr_left (fun e he => by
      rw [Insertion.placed, Insertion.placed, heq _ (orderedAt_lt he)])
  kinds := h.kinds

lemma Holds.exists_order (h : s.Holds ops order) (o : ℕ) :
    ∃ order', s.Holds ops order' ∧ order' ops.length = o := by
  refine ⟨Function.update order ops.length o, h.congr (fun i hi => ?_), Function.update_self ..⟩
  exact Function.update_of_ne hi.ne _ _

lemma holds_default : (default : Scene K P).Holds [] order where
  tree := BoundsTree.inv_default
  length := rfl
  recorded := rfl
  layers := rfl
  placed := rfl
  kinds _ := rfl

lemma Holds.clear (h : s.Holds ops order) : s.clear.Holds [] order where
  tree := h.tree.clear
  length := rfl
  recorded := rfl
  layers := rfl
  placed := rfl
  kinds _ := rfl

lemma Holds.popLayer (h : s.Holds ops order) : s.popLayer.Holds (ops ++ [.popLayer]) order := by
  have hplaced : s.popLayer.placed = s.placed := by
    simp [Scene.popLayer, Scene.placed, PaintOperation.placed?]
  refine ⟨h.tree, by simp [Scene.popLayer, h.length], ?_, ?_, ?_, ?_⟩
  · rw [orderings_concat, append_nil]
    exact h.recorded
  · rw [openLayers_concat, map_tail, ← h.layers]
    rfl
  · rw [insertions_concat, append_nil, hplaced, h.placed]
  · rw [hplaced]
    exact h.kinds

lemma Holds.pushLayer [IsStrictOrderedRing K] (h : s.Holds ops order) (bounds : Bounds K) :
    ∃ order', (s.pushLayer bounds).Holds (ops ++ [.pushLayer bounds]) order' := by
  obtain ⟨-, htree, hrec⟩ := h.tree.insert bounds
  obtain ⟨order', h', ho⟩ := h.exists_order (s.primitiveBounds.insert bounds).2
  have hplaced : (s.pushLayer bounds).placed = s.placed := by
    simp [Scene.pushLayer, Scene.placed, PaintOperation.placed?]
  refine ⟨order', htree, by simp [Scene.pushLayer, h.length], ?_, ?_, ?_, ?_⟩
  · rw [orderings_concat, map_append, ← h'.recorded, map_singleton, ho]
    exact hrec
  · rw [openLayers_concat, map_cons, ← h'.layers, ho, ← h.length]
    rfl
  · rw [insertions_concat, append_nil, hplaced, h'.placed]
  · rw [hplaced]
    exact h.kinds

def withPlaced (s : Scene K P) (tree : BoundsTree K) (x : Placed K P) : Scene K P :=
  { s with
    primitiveBounds := tree
    primitives := Function.update s.primitives x.kind (s.primitives x.kind ++ [x])
    paintOperations := s.paintOperations ++ [.primitive x] }

variable {primitive : Primitive K P} {op : SceneOp K P}

lemma Holds.withPlaced (h : s.Holds ops order) {tree : BoundsTree K} (htree : tree.Inv)
    (hrec : tree.recorded =
      (orderings (ops ++ [.insertPrimitive primitive])).map (fun e => (e.2, order e.1))) :
    (s.withPlaced tree ((⟨primitive, ops.length, (openLayers ops).head?⟩ :
      Insertion K P).placed order)).Holds (ops ++ [.insertPrimitive primitive]) order := by
  set x := (⟨primitive, ops.length, (openLayers ops).head?⟩ : Insertion K P).placed order with hx
  have hplaced : (s.withPlaced tree x).placed = s.placed ++ [x] := by
    simp [Scene.withPlaced, Scene.placed, PaintOperation.placed?]
  refine ⟨htree, by simp [Scene.withPlaced, h.length], hrec, ?_, ?_, ?_⟩
  · rw [openLayers_concat]
    exact h.layers
  · rw [hplaced, insertions_concat, map_append, ← h.placed, map_singleton]
  · intro kind
    rw [hplaced]
    by_cases hk : kind = x.kind
    · subst hk
      simp [Scene.withPlaced, h.kinds]
    · simp [Scene.withPlaced, Function.update_of_ne hk, h.kinds, Ne.symm hk]

lemma Holds.insertPrimitive [IsStrictOrderedRing K] (h : s.Holds ops order)
    (hne : primitive.clippedBounds.isEmpty = false) :
    ∃ order', (s.insertPrimitive primitive).Holds (ops ++ [.insertPrimitive primitive]) order' := by
  cases hopen : openLayers ops with
  | nil =>
    obtain ⟨-, htree, hrec⟩ := h.tree.insert primitive.clippedBounds
    obtain ⟨order', h', ho⟩ := h.exists_order (s.primitiveBounds.insert primitive.clippedBounds).2
    have hstack : s.layerStack = [] := by rw [h.layers, hopen]; rfl
    have heq : s.insertPrimitive primitive =
        s.withPlaced (s.primitiveBounds.insert primitive.clippedBounds).1
          ((⟨primitive, ops.length, (openLayers ops).head?⟩ : Insertion K P).placed order') := by
      simp [Scene.insertPrimitive, hne, nextOrder, hstack, Scene.withPlaced, Insertion.placed,
        Insertion.orderedAt, ho, h.length, hopen]
    rw [heq]
    refine ⟨order', h'.withPlaced htree ?_⟩
    rw [hrec, h'.recorded, orderings_concat]
    simp [hopen, ho]
  | cons l ls =>
    have hstack : s.layerStack = (order l, l) :: ls.map (fun l => (order l, l)) := by
      rw [h.layers, hopen, map_cons]
    have heq : s.insertPrimitive primitive = s.withPlaced s.primitiveBounds
        ((⟨primitive, ops.length, (openLayers ops).head?⟩ : Insertion K P).placed order) := by
      simp [Scene.insertPrimitive, hne, nextOrder, hstack, Scene.withPlaced, Insertion.placed,
        Insertion.orderedAt, h.length, hopen]
    rw [heq]
    refine ⟨order, h.withPlaced h.tree ?_⟩
    rw [h.recorded, orderings_concat]
    simp [hopen]

lemma Holds.apply [IsStrictOrderedRing K] (h : s.Holds ops order) (hop : op.recorded = true) :
    ∃ order', (s.apply op).Holds (ops ++ [op]) order' := by
  cases op with
  | insertPrimitive primitive => exact h.insertPrimitive (by simpa [SceneOp.recorded] using hop)
  | pushLayer bounds => exact h.pushLayer bounds
  | popLayer => exact ⟨order, h.popLayer⟩

lemma apply_of_not_recorded (hop : op.recorded = false) : s.apply op = s := by
  cases op with
  | insertPrimitive primitive =>
    have : primitive.clippedBounds.isEmpty = true := by simpa [SceneOp.recorded] using hop
    simp [Scene.apply, Scene.insertPrimitive, this]
  | pushLayer bounds => cases hop
  | popLayer => cases hop

lemma Holds.run [IsStrictOrderedRing K] (h : s.Holds ops order) (more : List (SceneOp K P)) :
    ∃ order', (s.run more).Holds (ops ++ more.filter (·.recorded)) order' := by
  induction more generalizing s ops order with
  | nil => exact ⟨order, by simpa [Scene.run] using h⟩
  | cons op more ih =>
    cases hop : op.recorded with
    | true =>
      obtain ⟨order', h'⟩ := h.apply hop
      obtain ⟨order'', h''⟩ := ih h'
      refine ⟨order'', ?_⟩
      rw [filter_cons_of_pos hop, append_cons]
      exact h''
    | false =>
      obtain ⟨order', h'⟩ := ih h
      refine ⟨order', ?_⟩
      rw [filter_cons_of_neg (by simp [hop])]
      rwa [Scene.run, foldl_cons, apply_of_not_recorded hop]

lemma afterFrames_holds [IsStrictOrderedRing K] (frames : List (List (SceneOp K P))) :
    ∃ order, (afterFrames frames).Holds [] order := by
  induction frames using reverseRecOn with
  | nil => exact ⟨fun _ => 0, holds_default⟩
  | append_singleton frames ops ih =>
    obtain ⟨order, h⟩ := ih
    obtain ⟨order', h'⟩ := h.run ops
    rw [afterFrames, foldl_append, foldl_cons, foldl_nil, ← afterFrames]
    exact ⟨order', h'.clear⟩

end Scene

lemma pair_sublist_of_key_lt {α κ : Type*} [Preorder κ] {key : α → κ} {l : List α}
    (h : l.Pairwise (fun x y => key x < key y)) {x y : α} (hx : x ∈ l) (hy : y ∈ l)
    (hlt : key x < key y) : [x, y].Sublist l := by
  induction l with
  | nil => simp at hx
  | cons z l ih =>
    rcases mem_cons.mp hx with rfl | hxl
    · rcases mem_cons.mp hy with rfl | hyl
      · exact absurd hlt (lt_irrefl _)
      · exact (singleton_sublist.mpr hyl).cons_cons x
    · rcases mem_cons.mp hy with rfl | hyl
      · exact absurd (hlt.trans (rel_of_pairwise_cons h hxl)) (lt_irrefl _)
      · exact (ih h.of_cons hxl hyl).cons z

def Placed.insertion (x : Placed K P) : Insertion K P := ⟨x.primitive, x.place, x.layer⟩

namespace Scene

/-- `s` draws `e` before `e'`. -/
def DrawnBefore (s : Scene K P) (e e' : Insertion K P) : Prop :=
  [e, e'].Sublist (s.drawing.map (·.insertion))

variable {s : Scene K P} {ops : List (SceneOp K P)} {order : ℕ → ℕ}

omit [Field K] [LinearOrder K] [FloorRing K] in
lemma insertions_pairwise : (insertions ops).Pairwise (fun e e' => e.place < e'.place) := by
  refine collect_pairwise (fun before op e he => ?_)
  cases op with
  | insertPrimitive primitive => exact some.inj he ▸ rfl
  | pushLayer bounds => cases he
  | popLayer => cases he

omit [FloorRing K] in
lemma orderings_pairwise : (orderings ops).Pairwise (fun a b => a.1 < b.1) := by
  refine collect_pairwise (fun before op e he => ?_)
  cases op with
  | insertPrimitive primitive =>
    simp only [ite_none_right_eq_some, some.injEq] at he
    exact he.2 ▸ rfl
  | pushLayer bounds => exact some.inj he ▸ rfl
  | popLayer => cases he

variable {e : Insertion K P}

omit [FloorRing K] in
lemma mem_orderings_of_layer_eq_none (he : e ∈ insertions ops) (hl : e.layer = none) :
    (e.place, e.primitive.clippedBounds) ∈ orderings ops := by
  obtain ⟨hi, hlayer⟩ := mem_insertions.mp he
  have hlen : (ops.take e.place).length = e.place :=
    length_take_of_le (List.getElem?_eq_some_iff.mp hi).1.le
  have hopen : openLayers (ops.take e.place) = [] := by
    rwa [hl, eq_comm, head?_eq_none_iff] at hlayer
  exact mem_collect.mpr ⟨e.place, _, hi, by simp [hopen, hlen]⟩

lemma Holds.draws (h : s.Holds ops order) :
    s.finish.Draws ((insertions ops).map (·.placed order)) := by
  refine finish_draws (fun kind => by rw [h.kinds, h.placed]) ?_
  exact pairwise_map.mpr insertions_pairwise

variable {e' : Insertion K P}

lemma Holds.drawnBefore (h : s.Holds ops order) (he : e ∈ insertions ops)
    (he' : e' ∈ insertions ops) (hlt : (e.placed order).paintKey < (e'.placed order).paintKey) :
    s.finish.DrawnBefore e e' := by
  have hd := h.draws
  have hmem : ∀ e ∈ insertions ops, e.placed order ∈ s.finish.drawing := fun e he =>
    hd.perm.mem_iff.mpr (mem_map_of_mem he)
  exact (pair_sublist_of_key_lt hd.sorted (hmem e he) (hmem e' he') hlt).map (·.insertion)

lemma Holds.order_lt (h : s.Holds ops order) {a b : ℕ × Bounds K} (ha : a ∈ orderings ops)
    (hb : b ∈ orderings ops) (hlt : a.1 < b.1) (hint : a.2.intersects b.2 = true) :
    order a.1 < order b.1 := by
  have hord := h.tree.recorded
  rw [h.recorded] at hord
  have hpair : (orderings ops).Pairwise
      (fun a b => a.2.intersects b.2 = true → order a.1 < order b.1) := by
    refine pairwise_iff_getElem.mpr (fun i j hi hj hij hint => ?_)
    have hj' := hord j ((orderings ops)[j].2, order (orderings ops)[j].1) (by simp [hj])
    have hmem : ((orderings ops)[i].2, order (orderings ops)[i].1) ∈
        ((orderings ops).map (fun e => (e.2, order e.1))).take j :=
      mem_take_iff_getElem.mpr ⟨i, by simp; omega, by simp⟩
    have hle := le_maxOver (p := (·.intersects (orderings ops)[j].2)) hmem hint
    simp only at hj' hle
    omega
  have hab := hpair.sublist (pair_sublist_of_key_lt orderings_pairwise ha hb hlt)
  exact rel_of_pairwise_cons hab (mem_singleton_self b) hint

omit [Field K] [LinearOrder K] [FloorRing K] in
lemma exists_textureId {p : Primitive K P} (h : p.kind.isSprite = true) :
    ∃ id, p.textureId? = some id := by
  rcases p with ⟨shape, _, _, _⟩
  cases shape <;> first | exact ⟨_, rfl⟩ | cases h

omit [Field K] [LinearOrder K] [FloorRing K] in
lemma paintKey_lt_of_orderedAt (hat : e.orderedAt = e'.orderedAt)
    (h : e.primitive.kind.rank < e'.primitive.kind.rank ∨ e.primitive.kind = e'.primitive.kind ∧
      e.primitive.kind.isSprite = false ∧ e.place < e'.place) :
    (e.placed order).paintKey < (e'.placed order).paintKey := by
  have horder : (e.placed order).order = (e'.placed order).order := by
    rw [Insertion.placed, Insertion.placed, hat]
  rcases h with hrank | ⟨hkind, hsprite, hplace⟩
  · exact Prod.Lex.toLex_lt_toLex.mpr
      (.inr ⟨horder, Prod.Lex.toLex_lt_toLex.mpr (.inl hrank)⟩)
  · refine paintKey_lt_of_kind hkind (.inr ⟨horder, .inr ⟨?_, hplace⟩⟩)
    rw [Placed.tileKey_of_not_isSprite (x := e.placed order) hsprite,
      Placed.tileKey_of_not_isSprite (x := e'.placed order) (show e'.primitive.kind.isSprite = false from hkind ▸ hsprite)]

/-- Over every run of operations on a cleared scene: what is drawn is what was inserted, but for
primitives clipped to nothing; sprite batches are of one texture; primitives outside layers whose
clipped bounds intersect are drawn as inserted; and those of one layer by kind, and within a kind
without sprites as inserted. -/
theorem paintersOrder [IsStrictOrderedRing K] (frames : List (List (SceneOp K P)))
    (ops : List (SceneOp K P)) :
    let s := ((afterFrames frames).run ops).finish
    let inserted := insertions (ops.filter (·.recorded))
    (s.drawing.map (·.insertion)).Perm inserted ∧
      (∀ b ∈ s.batches, b.kind.isSprite = true →
        ∃ id, ∀ x ∈ s.drawn b, x.primitive.textureId? = some id) ∧
      (∀ e ∈ inserted, ∀ e' ∈ inserted, e.place < e'.place → e.layer = none → e'.layer = none →
        e.primitive.clippedBounds.intersects e'.primitive.clippedBounds = true →
        s.DrawnBefore e e') ∧
      ∀ e ∈ inserted, ∀ e' ∈ inserted, e.layer.isSome = true → e.layer = e'.layer →
        (e.primitive.kind.rank < e'.primitive.kind.rank ∨ e.primitive.kind = e'.primitive.kind ∧
          e.primitive.kind.isSprite = false ∧ e.place < e'.place) → s.DrawnBefore e e' := by
  obtain ⟨order₀, h₀⟩ := afterFrames_holds frames
  obtain ⟨order, h⟩ := h₀.run ops
  rw [nil_append] at h
  refine ⟨?_, ?_, ?_, ?_⟩
  · have hperm := h.draws.perm.map (·.insertion)
    rwa [List.map_map, show Placed.insertion ∘ Insertion.placed order = id from rfl,
      List.map_id] at hperm
  · intro b hb hsprite
    have htexture := h.draws.texture b hb
    cases hid : b.textureId with
    | some id => exact ⟨id, fun x hx => (htexture x hx).2.trans hid⟩
    | none =>
      refine ⟨⟨0, .monochrome⟩, fun x hx => ?_⟩
      obtain ⟨hkind, hnone⟩ := htexture x hx
      obtain ⟨id, hsome⟩ := exists_textureId (show x.kind.isSprite = true from hkind ▸ hsprite)
      rw [hsome, hid] at hnone
      cases hnone
  · intro e he e' he' hlt hl hl' hint
    refine h.drawnBefore he he' ?_
    have ho := h.order_lt (mem_orderings_of_layer_eq_none he hl)
      (mem_orderings_of_layer_eq_none he' hl') hlt hint
    have horder : (e.placed order).order < (e'.placed order).order := by
      simpa [Insertion.placed, Insertion.orderedAt, hl, hl'] using ho
    exact Prod.Lex.toLex_lt_toLex.mpr (.inl horder)
  · intro e he e' he' hsome hl hcases
    refine h.drawnBefore he he' (paintKey_lt_of_orderedAt ?_ hcases)
    obtain ⟨l, hl₀⟩ := isSome_iff_exists.mp hsome
    rw [Insertion.orderedAt, Insertion.orderedAt, ← hl, hl₀, getD_some, getD_some]

/-- Two overlapping quads, then a quad and a shadow in a layer. -/
theorem paintersOrder_twoQuads :
    let mask : Bounds ℚ := ⟨⟨0, 0⟩, ⟨100, 100⟩⟩
    let a : Primitive ℚ Unit := ⟨.quad, ⟨⟨0, 0⟩, ⟨10, 10⟩⟩, mask, ()⟩
    let b : Primitive ℚ Unit := ⟨.quad, ⟨⟨5, 5⟩, ⟨10, 10⟩⟩, mask, ()⟩
    let c : Primitive ℚ Unit := ⟨.shadow 1 ⟨⟨0, 0⟩, ⟨0, 0⟩⟩ false, ⟨⟨5, 5⟩, ⟨10, 10⟩⟩, mask, ()⟩
    let ops : List (SceneOp ℚ Unit) := [.insertPrimitive a, .insertPrimitive b, .pushLayer mask,
      .insertPrimitive b, .insertPrimitive c, .popLayer]
    let s := ((afterFrames []).run ops).finish
    (s.drawing.map (·.insertion)).Perm (insertions (ops.filter (·.recorded))) ∧
      s.drawing.map (·.place) = [0, 1, 4, 3] :=
  ⟨(paintersOrder [] _).1, by decide +kernel⟩

/-- A quad of no size is inserted and not drawn. -/
theorem drawing_ne_inserted_emptyQuad :
    let p : Primitive ℚ Unit := ⟨.quad, ⟨⟨0, 0⟩, ⟨0, 0⟩⟩, ⟨⟨0, 0⟩, ⟨100, 100⟩⟩, ()⟩
    let s := (((afterFrames []).run [.insertPrimitive p]).finish : Scene ℚ Unit)
    (s.drawing.map (·.primitive)).count p ≠ 1 := by
  decide +kernel

end Scene

end GpuiFast
