import GpuiFast.Scene

namespace GpuiFast

open List StableSort

section Sorts

variable {T : Type*}

lemma inDrawOrder_pairwise {previous : ℕ} {orders : List ℕ} (h : inDrawOrder previous orders = true) :
    (previous :: orders).Pairwise (· ≤ ·) := by
  induction orders generalizing previous with
  | nil => simp
  | cons order orders ih =>
    obtain ⟨hle, hrest⟩ : previous ≤ order ∧ inDrawOrder order orders = true := by
      simpa [inDrawOrder] using h
    have hsorted := ih hrest
    refine Pairwise.cons (fun x hx => ?_) hsorted
    rcases mem_cons.mp hx with rfl | hx
    · exact hle
    · exact hle.trans (rel_of_pairwise_cons hsorted hx)

variable {items : List T} {R : T → T → Prop}

lemma pairwise_key_of_sorted {κ : Type*} [LinearOrder κ] {key : T → κ}
    (h : (items.map key).Pairwise (· ≤ ·)) (hR : items.Pairwise R) :
    items.Pairwise (fun x y => key x < key y ∨ key x = key y ∧ R x y) := by
  refine ((pairwise_map.mp h).and hR).imp ?_
  rintro x y ⟨hle, hr⟩
  rcases hle.lt_or_eq with hlt | heq
  · exact .inl hlt
  · exact .inr ⟨heq, hr⟩

lemma le_foldl_max (orders : List ℕ) : ∀ k ∈ orders, k ≤ orders.foldl max 0 := by
  induction orders using reverseRecOn with
  | nil => simp
  | append_singleton orders x ih =>
    intro k hk
    rw [foldl_append, foldl_cons, foldl_nil]
    rcases mem_append.mp hk with hk | hk
    · exact (ih k hk).trans (le_max_left _ _)
    · exact mem_singleton.mp hk ▸ le_max_right _ _

lemma pairwise_of_length_lt_two (h : items.length < 2) (R : T → T → Prop) : items.Pairwise R := by
  match items with
  | [] => exact .nil
  | [x] => exact pairwise_singleton R x
  | x :: y :: items => simp at h

lemma sortByDrawOrder_perm (items : List T) (drawOrder : T → ℕ) :
    (sortByDrawOrder items drawOrder).Perm items := by
  have hkeys := (isStableOrder_orderByKeys (items.map drawOrder)).perm
  have hcount := (isStableOrder_orderByCounting (items.map drawOrder)
    (le_foldl_max _)).perm
  rw [length_map] at hkeys hcount
  simp only [sortByDrawOrder]
  split_ifs
  · exact .refl _
  · exact .refl _
  · exact gather_perm hkeys
  · exact gather_perm hcount

theorem sortByDrawOrder_sorted (drawOrder : T → ℕ) (hR : items.Pairwise R) :
    (sortByDrawOrder items drawOrder).Pairwise
      (fun x y => drawOrder x < drawOrder y ∨ drawOrder x = drawOrder y ∧ R x y) := by
  simp only [sortByDrawOrder]
  split_ifs with hshort hsorted
  · exact pairwise_of_length_lt_two hshort _
  · exact pairwise_key_of_sorted (inDrawOrder_pairwise hsorted).of_cons hR
  · exact gather_sorted (isStableOrder_orderByKeys _) hR
  · exact gather_sorted
      (isStableOrder_orderByCounting _ (le_foldl_max _)) hR

lemma sortSprites_perm (items : List T) (key : T → ℕ ×ₗ ℕ ×ₗ ℕ) :
    (sortSprites items key).Perm items := by
  have hkeys := (isStableOrder_orderByKeys (items.map key)).perm
  rw [length_map] at hkeys
  simp only [sortSprites]
  split_ifs
  · exact .refl _
  · exact .refl _
  · exact gather_perm hkeys

theorem sortSprites_sorted (key : T → ℕ ×ₗ ℕ ×ₗ ℕ) (hR : items.Pairwise R) :
    (sortSprites items key).Pairwise (fun x y => key x < key y ∨ key x = key y ∧ R x y) := by
  simp only [sortSprites]
  split_ifs with hshort hsorted
  · exact pairwise_of_length_lt_two hshort _
  · refine pairwise_key_of_sorted ?_ hR
    have hfst : (items.map key).zipIdx.map Prod.fst = items.map key := zipIdx_map_fst _ _
    rw [← hfst]
    refine pairwise_map.mpr ((pairwise_map.mp hsorted).imp (fun hle => ?_))
    exact Prod.Lex.monotone_fst _ _ hle
  · exact gather_sorted (isStableOrder_orderByKeys _) hR

end Sorts

namespace BatchIterator

variable {K P : Type*} {lists : PrimitiveKind → List (Placed K P)} {starts : PrimitiveKind → ℕ}

def drawKey (x : Placed K P) : WithTop ℕ ×ₗ ℕ := toLex ((x.order : WithTop ℕ), x.kind.rank)

structure Sorted (lists : PrimitiveKind → List (Placed K P)) : Prop where
  kind : ∀ kind, ∀ x ∈ lists kind, x.kind = kind
  order : ∀ kind, (lists kind).Pairwise (fun x y => x.order ≤ y.order)

lemma mem_all (kind : PrimitiveKind) : kind ∈ PrimitiveKind.all := by
  cases kind <;> simp [PrimitiveKind.all]

variable {kind : PrimitiveKind}

lemma Sorted.peekKey_le (h : Sorted lists) {x : Placed K P}
    (hx : x ∈ (lists kind).drop (starts kind)) : peekKey lists starts kind ≤ drawKey x := by
  cases hd : (lists kind).drop (starts kind) with
  | nil => simp [hd] at hx
  | cons head tail =>
    have hhead : (lists kind)[starts kind]? = some head := by
      rw [← head?_drop, hd, head?_cons]
    have hkind : x.kind = kind := h.kind kind x (mem_of_mem_drop hx)
    have hsorted := (h.order kind).sublist (drop_sublist (starts kind) _)
    rw [hd] at hx hsorted
    have hle : head.order ≤ x.order := by
      rcases mem_cons.mp hx with rfl | hx
      · exact le_rfl
      · exact rel_of_pairwise_cons hsorted hx
    simp only [peekKey, hhead, Option.map_some, Option.getD_some, drawKey, hkind]
    exact Prod.Lex.toLex_mono (Prod.mk_le_mk.mpr ⟨WithTop.coe_le_coe.mpr hle, le_rfl⟩)

def kindOrder (lists : PrimitiveKind → List (Placed K P)) (starts : PrimitiveKind → ℕ) :
    List PrimitiveKind :=
  PrimitiveKind.all.insertionSort (fun a b => peekKey lists starts a ≤ peekKey lists starts b)

lemma kindOrder_perm : (kindOrder lists starts).Perm PrimitiveKind.all :=
  perm_insertionSort _ _

lemma kindOrder_pairwise : (kindOrder lists starts).Pairwise
    (fun a b => peekKey lists starts a ≤ peekKey lists starts b) := by
  have : Std.Total (fun a b => peekKey lists starts a ≤ peekKey lists starts b) :=
    ⟨fun a b => le_total _ _⟩
  have : IsTrans PrimitiveKind (fun a b => peekKey lists starts a ≤ peekKey lists starts b) :=
    ⟨fun a b c hab hbc => hab.trans hbc⟩
  exact pairwise_insertionSort _ _

lemma kindOrder_eq (lists : PrimitiveKind → List (Placed K P)) (starts : PrimitiveKind → ℕ) :
    ∃ first second others, kindOrder lists starts = first :: second :: others ∧
      (∀ kind, peekKey lists starts first ≤ peekKey lists starts kind) ∧
      ∀ kind ≠ first, peekKey lists starts second ≤ peekKey lists starts kind := by
  have hmem : ∀ kind, kind ∈ kindOrder lists starts := fun kind =>
    kindOrder_perm.mem_iff.mpr (mem_all kind)
  have hlen : (kindOrder lists starts).length = 8 := kindOrder_perm.length_eq
  have hpair : (kindOrder lists starts).Pairwise _ := kindOrder_pairwise
  match hk : kindOrder lists starts with
  | [] => simp [hk] at hlen
  | [_] => simp [hk] at hlen
  | first :: second :: others =>
    rw [hk] at hmem hpair
    refine ⟨first, second, others, rfl, fun kind => ?_, fun kind hne => ?_⟩
    · rcases mem_cons.mp (hmem kind) with rfl | hkind
      · exact le_rfl
      · exact rel_of_pairwise_cons hpair hkind
    · rcases mem_cons.mp ((mem_cons.mp (hmem kind)).resolve_left hne) with rfl | hkind
      · exact le_rfl
      · exact rel_of_pairwise_cons hpair.of_cons hkind

lemma drop_eq_nil_of_peekKey {n : ℕ} (h : toLex (⊤, n) ≤ peekKey lists starts kind) :
    (lists kind).drop (starts kind) = [] := by
  cases hd : (lists kind)[starts kind]? with
  | none => exact drop_eq_nil_of_le (getElem?_eq_none_iff.mp hd)
  | some x => simp [peekKey, hd, Prod.Lex.toLex_le_toLex] at h

lemma next_spec (h : Sorted lists) : (next lists starts = none ∧
      ∀ kind, (lists kind).drop (starts kind) = []) ∨
    ∃ batch taken rest, next lists starts = some batch ∧ taken ≠ [] ∧
      batch.start = starts batch.kind ∧ batch.stop = starts batch.kind + taken.length ∧
      (lists batch.kind).drop (starts batch.kind) = taken ++ rest ∧
      (∀ x ∈ taken, x.primitive.textureId? = batch.textureId) ∧
      ∀ x ∈ taken, ∀ kind ≠ batch.kind, ∀ y ∈ (lists kind).drop (starts kind),
        drawKey x ≤ drawKey y := by
  obtain ⟨first, second, others, hk, hfirst, hsecond⟩ := kindOrder_eq lists starts
  simp only [kindOrder] at hk
  simp only [next, hk]
  cases hd : (lists first)[starts first]? with
  | none =>
    refine .inl ⟨rfl, fun kind => drop_eq_nil_of_peekKey (n := first.rank) ?_⟩
    simpa [peekKey, hd] using hfirst kind
  | some head =>
    have hdrop : (lists first).drop (starts first) = head :: (lists first).drop (starts first + 1) :=
      drop_eq_getElem?_toList_append.trans (by rw [hd]; rfl)
    let p : Placed K P → Bool := fun x => toLex ((x.order : WithTop ℕ), first.rank) <
      peekKey lists starts second ∧ x.primitive.textureId? = head.primitive.textureId?
    have htaken : ∀ x ∈ ((lists first).drop (starts first + 1)).takeWhile p,
        toLex ((x.order : WithTop ℕ), first.rank) < peekKey lists starts second ∧
          x.primitive.textureId? = head.primitive.textureId? := fun x hx =>
      of_decide_eq_true (mem_takeWhile_imp hx : p x = true)
    refine .inr ⟨_, head :: ((lists first).drop (starts first + 1)).takeWhile p,
      ((lists first).drop (starts first + 1)).dropWhile p, rfl, by simp, rfl, ?_, ?_, ?_, ?_⟩
    · simp only [length_cons, p]
      omega
    · rw [hdrop, cons_append, takeWhile_append_dropWhile]
    · intro x hx
      rcases mem_cons.mp hx with rfl | hx
      · rfl
      · exact (htaken x hx).2
    · intro x hx kind hne y hy
      refine le_trans ?_ (h.peekKey_le hy)
      rcases mem_cons.mp hx with rfl | hx
      · have hkind : x.kind = first := h.kind first x (mem_of_getElem? hd)
        have hpeek := hfirst kind
        rw [peekKey, hd] at hpeek
        simpa [drawKey, hkind] using hpeek
      · have hkind : x.kind = first :=
          h.kind first x (mem_of_mem_drop ((takeWhile_sublist _).subset hx))
        rw [drawKey, hkind]
        exact (htaken x hx).1.le.trans (hsecond kind hne)

/-- What is left to draw. -/
def remaining (lists : PrimitiveKind → List (Placed K P)) (starts : PrimitiveKind → ℕ) : ℕ :=
  (PrimitiveKind.all.map (fun kind => ((lists kind).drop (starts kind)).length)).sum

/-- What batches draw of `lists`. -/
def drawnBy (lists : PrimitiveKind → List (Placed K P)) (batches : List PrimitiveBatch) :
    List (Placed K P) :=
  batches.flatMap (fun b => ((lists b.kind).drop b.start).take (b.stop - b.start))

variable {taken rest : List (Placed K P)}

lemma remaining_update_lt (hd : (lists kind).drop (starts kind) = taken ++ rest) (hne : taken ≠ []) :
    remaining lists (Function.update starts kind (starts kind + taken.length)) <
      remaining lists starts := by
  have hrest : (lists kind).drop (starts kind + taken.length) = rest := by
    rw [← drop_drop, hd, drop_left]
  refine sum_lt_sum _ _ (fun k _ => ?_) ⟨kind, mem_all kind, ?_⟩
  · by_cases hk : k = kind
    · subst hk
      rw [Function.update_self, hrest, hd]
      simp
    · rw [Function.update_of_ne hk]
  · rw [Function.update_self, hrest, hd]
    simpa using length_pos_iff.mpr hne

/-- The whole merge: in the order of `drawKey`, each kind as it stands in its list. -/
structure Merges (lists : PrimitiveKind → List (Placed K P)) (starts : PrimitiveKind → ℕ)
    (batches : List PrimitiveBatch) : Prop where
  sorted : (drawnBy lists batches).Pairwise (fun x y => drawKey x ≤ drawKey y)
  filter : ∀ kind, (drawnBy lists batches).filter (·.kind = kind) =
    (lists kind).drop (starts kind)
  texture : ∀ b ∈ batches, ∀ x ∈ ((lists b.kind).drop b.start).take (b.stop - b.start),
    x.kind = b.kind ∧ x.primitive.textureId? = b.textureId

lemma Merges.nil (h : ∀ kind, (lists kind).drop (starts kind) = []) : Merges lists starts [] where
  sorted := Pairwise.nil
  filter kind := (h kind).symm
  texture := by simp

lemma Sorted.drawKey_pairwise (h : Sorted lists) (kind : PrimitiveKind) :
    ((lists kind).drop (starts kind)).Pairwise (fun x y => drawKey x ≤ drawKey y) := by
  refine Pairwise.imp_of_mem (fun {x y} hx hy hle => ?_)
    ((h.order kind).sublist (drop_sublist _ _))
  rw [drawKey, drawKey, h.kind kind x (mem_of_mem_drop hx), h.kind kind y (mem_of_mem_drop hy)]
  exact Prod.Lex.toLex_mono (Prod.mk_le_mk.mpr ⟨WithTop.coe_le_coe.mpr hle, le_rfl⟩)

lemma Merges.cons (h : Sorted lists) {batch : PrimitiveBatch} {bs : List PrimitiveBatch}
    (hstart : batch.start = starts batch.kind)
    (hstop : batch.stop = starts batch.kind + taken.length)
    (hd : (lists batch.kind).drop (starts batch.kind) = taken ++ rest)
    (htexture : ∀ x ∈ taken, x.primitive.textureId? = batch.textureId)
    (hkey : ∀ x ∈ taken, ∀ kind ≠ batch.kind, ∀ y ∈ (lists kind).drop (starts kind),
      drawKey x ≤ drawKey y) (hm : Merges lists (Function.update starts batch.kind batch.stop) bs) :
    Merges lists starts (batch :: bs) := by
  have htake : ((lists batch.kind).drop batch.start).take (batch.stop - batch.start) = taken := by
    rw [hstart, hstop, hd, Nat.add_sub_cancel_left, take_left]
  have hrest : (lists batch.kind).drop batch.stop = rest := by
    rw [hstop, ← drop_drop, hd, drop_left]
  have hkind : ∀ x ∈ taken, x.kind = batch.kind := fun x hx =>
    h.kind _ x (mem_of_mem_drop (hd ▸ mem_append_left rest hx))
  have hdrawn : drawnBy lists (batch :: bs) = taken ++ drawnBy lists bs := by
    rw [drawnBy, flatMap_cons, htake, ← drawnBy]
  have hpair : ((lists batch.kind).drop (starts batch.kind)).Pairwise _ :=
    h.drawKey_pairwise batch.kind
  rw [hd, pairwise_append] at hpair
  refine ⟨?_, fun kind => ?_, ?_⟩
  · rw [hdrawn, pairwise_append]
    refine ⟨hpair.1, hm.sorted, fun x hx y hy => ?_⟩
    have hy' : y ∈ (lists y.kind).drop (Function.update starts batch.kind batch.stop y.kind) := by
      rw [← hm.filter]
      exact mem_filter.mpr ⟨hy, by simp⟩
    by_cases hyk : y.kind = batch.kind
    · rw [hyk, Function.update_self, hrest] at hy'
      exact hpair.2.2 x hx y hy'
    · rw [Function.update_of_ne hyk] at hy'
      exact hkey x hx _ hyk y hy'
  · rw [hdrawn, filter_append, hm.filter]
    by_cases hk : kind = batch.kind
    · subst hk
      rw [Function.update_self, hrest, hd,
        filter_eq_self.mpr (fun x hx => by simpa using hkind x hx)]
    · rw [Function.update_of_ne hk, filter_eq_nil_iff.mpr, nil_append]
      intro x hx
      simpa [hkind x hx] using Ne.symm hk
  · intro b hb x hx
    rcases mem_cons.mp hb with rfl | hb
    · rw [htake] at hx
      exact ⟨hkind x hx, htexture x hx⟩
    · exact hm.texture b hb x hx

lemma batches_merges (h : Sorted lists) {fuel : ℕ} (hfuel : remaining lists starts ≤ fuel) :
    Merges lists starts (batches lists fuel starts) := by
  induction fuel generalizing starts with
  | zero =>
    refine Merges.nil (fun kind => length_eq_zero_iff.mp ?_)
    have hsum : (PrimitiveKind.all.map
        (fun kind => ((lists kind).drop (starts kind)).length)).sum = 0 := Nat.le_zero.mp hfuel
    exact sum_eq_zero_iff.mp hsum _ (mem_map.mpr ⟨kind, mem_all kind, rfl⟩)
  | succ fuel ih =>
    rcases next_spec h with ⟨hnext, hnil⟩ |
      ⟨batch, taken, rest, hnext, hne, hstart, hstop, hd, htexture, hkey⟩
    · rw [batches, hnext]
      exact Merges.nil hnil
    · have hlt := remaining_update_lt hd hne
      rw [← hstop] at hlt
      rw [batches, hnext]
      exact Merges.cons h hstart hstop hd htexture hkey (ih (by omega))

end BatchIterator

section Drawing

variable {K P : Type*}

def Placed.tileKey (x : Placed K P) : ℕ ×ₗ ℕ :=
  match x.primitive.shape.tile? with
  | some tile => toLex (tile.textureId.index, tile.tileId)
  | none => toLex (0, 0)

/-- What a finished scene is drawn by: draw order, kind, texture and tile, and place. -/
def Placed.paintKey (x : Placed K P) : ℕ ×ₗ ℕ ×ₗ (ℕ ×ₗ ℕ) ×ₗ ℕ :=
  toLex (x.order, toLex (x.kind.rank, toLex (x.tileKey, x.place)))

lemma Placed.spriteKey_eq (x : Placed K P) : x.spriteKey = toLex (x.order, x.tileKey) := by
  unfold Placed.spriteKey Primitive.spriteKey Placed.tileKey
  cases x.primitive.shape.tile? <;> rfl

lemma PrimitiveKind.rank_inj {a b : PrimitiveKind} (h : a.rank = b.rank) : a = b := by
  cases a <;> cases b <;> first | rfl | cases h

variable {x : Placed K P}

lemma Placed.tileKey_of_not_isSprite (h : x.kind.isSprite = false) : x.tileKey = toLex (0, 0) := by
  unfold Placed.tileKey
  rcases hs : x.primitive.shape with _ | _ | _ | _ | _ | _ | _ | _ <;>
    simp_all [Placed.kind, Primitive.kind, Shape.kind, Shape.tile?, PrimitiveKind.isSprite]

lemma paintKey_lt_of_kind {y : Placed K P} (hk : x.kind = y.kind)
    (h : x.order < y.order ∨ x.order = y.order ∧
      (x.tileKey < y.tileKey ∨ x.tileKey = y.tileKey ∧ x.place < y.place)) :
    x.paintKey < y.paintKey := by
  simp only [Placed.paintKey, Prod.Lex.toLex_lt_toLex, hk, lt_irrefl, true_and, false_or]
  exact h

variable {s : Scene K P}

namespace Scene

lemma finish_perm (s : Scene K P) (kind : PrimitiveKind) :
    (s.finish.primitives kind).Perm (s.primitives kind) := by
  simp only [Scene.finish]
  split
  · exact sortSprites_perm _ _
  · exact sortByDrawOrder_perm _ _

lemma finish_sorted (hkind : ∀ kind, ∀ x ∈ s.primitives kind, x.kind = kind)
    (hplace : ∀ kind, (s.primitives kind).Pairwise (fun x y => x.place < y.place))
    (kind : PrimitiveKind) :
    (s.finish.primitives kind).Pairwise (fun x y => x.paintKey < y.paintKey) := by
  have hmem : ∀ x ∈ s.finish.primitives kind, x.kind = kind := fun x hx =>
    hkind kind x ((finish_perm s kind).mem_iff.mp hx)
  cases hs : kind.isSprite with
  | true =>
    have heq : s.finish.primitives kind = sortSprites (s.primitives kind) (·.spriteKey) := by
      simp [Scene.finish, hs]
    have hsorted := sortSprites_sorted (·.spriteKey) (hplace kind)
    rw [← heq] at hsorted
    refine hsorted.imp_of_mem (fun {x y} hx hy h => ?_)
    refine paintKey_lt_of_kind ((hmem x hx).trans (hmem y hy).symm) ?_
    simp only [Placed.spriteKey_eq, Prod.Lex.toLex_lt_toLex, toLex_inj, Prod.mk.injEq] at h
    tauto
  | false =>
    have heq : s.finish.primitives kind = sortByDrawOrder (s.primitives kind) (·.order) := by
      simp [Scene.finish, hs]
    have hsorted := sortByDrawOrder_sorted (·.order) (hplace kind)
    rw [← heq] at hsorted
    refine hsorted.imp_of_mem (fun {x y} hx hy h => ?_)
    refine paintKey_lt_of_kind ((hmem x hx).trans (hmem y hy).symm) ?_
    rw [Placed.tileKey_of_not_isSprite (x := x) (by rw [hmem x hx, hs]),
      Placed.tileKey_of_not_isSprite (x := y) (by rw [hmem y hy, hs])]
    simpa using h

structure Draws (s : Scene K P) (placed : List (Placed K P)) : Prop where
  perm : s.drawing.Perm placed
  sorted : s.drawing.Pairwise (fun x y => x.paintKey < y.paintKey)
  texture : ∀ b ∈ s.batches, ∀ x ∈ s.drawn b, x.kind = b.kind ∧ x.primitive.textureId? = b.textureId

lemma perm_of_filter_kind {l l' : List (Placed K P)}
    (h : ∀ kind, (l.filter (·.kind = kind)).Perm (l'.filter (·.kind = kind))) : l.Perm l' := by
  classical
  refine perm_iff_count.mpr (fun x => ?_)
  have hcount := (h x.kind).count_eq x
  rwa [count_filter (by simp), count_filter (by simp)] at hcount

/-- A finished scene draws each of its primitives once, in the order of their keys. -/
theorem finish_draws {placed : List (Placed K P)}
    (hkinds : ∀ kind, s.primitives kind = placed.filter (·.kind = kind))
    (hplace : placed.Pairwise (fun x y => x.place < y.place)) : s.finish.Draws placed := by
  have hkind : ∀ kind, ∀ x ∈ s.primitives kind, x.kind = kind := fun kind x hx => by
    rw [hkinds, mem_filter] at hx
    simpa using hx.2
  have hsorted := finish_sorted hkind (fun kind => hkinds kind ▸ hplace.filter _)
  have hlists : BatchIterator.Sorted s.finish.primitives := by
    refine ⟨fun kind x hx => hkind kind x ((finish_perm s kind).mem_iff.mp hx), fun kind => ?_⟩
    refine (hsorted kind).imp (fun {x y} h => ?_)
    exact Prod.Lex.monotone_fst _ _ h.le
  have hm : BatchIterator.Merges s.finish.primitives (fun _ => 0) s.finish.batches :=
    BatchIterator.batches_merges hlists (by simp [BatchIterator.remaining])
  have hfilter : ∀ kind, s.finish.drawing.filter (·.kind = kind) = s.finish.primitives kind :=
    hm.filter
  refine ⟨?_, ?_, hm.texture⟩
  · refine perm_of_filter_kind (fun kind => ?_)
    rw [hfilter, ← hkinds]
    exact finish_perm s kind
  · have hdraw : s.finish.drawing.Pairwise _ := hm.sorted
    refine pairwise_iff_getElem.mpr (fun i j hi hj hij => ?_)
    have hkey := pairwise_iff_getElem.mp hdraw i j hi hj hij
    generalize hx : s.finish.drawing[i] = x at hkey
    generalize hy : s.finish.drawing[j] = y at hkey
    by_cases hk : x.kind = y.kind
    · have hkind := hsorted x.kind
      rw [← hfilter, pairwise_filter] at hkind
      have := pairwise_iff_getElem.mp hkind i j hi hj hij
      rw [hx, hy] at this
      exact this (by simp) (by simp [hk])
    · have hrank : x.kind.rank ≠ y.kind.rank := fun h => hk (PrimitiveKind.rank_inj h)
      simp only [BatchIterator.drawKey, Prod.Lex.toLex_le_toLex, Nat.cast_lt, Nat.cast_inj] at hkey
      simp only [Placed.paintKey, Prod.Lex.toLex_lt_toLex]
      rcases hkey with hlt | ⟨heq, hle⟩
      · exact .inl hlt
      · exact .inr ⟨heq, .inl (lt_of_le_of_ne hle hrank)⟩

end Scene

end Drawing

end GpuiFast
