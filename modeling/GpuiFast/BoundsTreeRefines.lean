import GpuiFast.BoundsTree

namespace GpuiFast

open List

variable {K : Type*} [Field K] [LinearOrder K] [FloorRing K]

namespace ChangedBounds

variable {i : ℕ}

variable {first last : ℕ} {c : ChangedBounds K}

lemma getLsbD_run {w : ℕ} (hl : last < w) (hi : i < w) :
    ((BitVec.allOnes w >>> (w - 1 - last)) &&& (BitVec.allOnes w <<< first)).getLsbD i =
      decide (first ≤ i ∧ i ≤ last) := by
  rw [Bool.eq_iff_iff]
  simp only [BitVec.getLsbD_and, BitVec.getLsbD_ushiftRight, BitVec.getLsbD_shiftLeft,
    BitVec.getLsbD_allOnes, Bool.and_eq_true, Bool.not_eq_true', decide_eq_true_eq,
    decide_eq_false_iff_not]
  omega

lemma getLsbD_columns (hl : last < CHANGED_CELLS) (hi : i < CHANGED_CELLS) :
    (columns first last).getLsbD i = decide (first ≤ i ∧ i ≤ last) :=
  getLsbD_run hl hi

lemma ne_zero_of_getLsbD {x : BitVec CHANGED_CELLS} (h : x.getLsbD i = true) : x ≠ 0 := by
  rintro rfl
  simp at h

def Marked (c : ChangedBounds K) : Prop :=
  c.unmarked = false → ∀ b ∈ c.bounds, ∃ left right top bottom,
    cells b = some (left, right, top, bottom) ∧
      ∀ row : Fin CHANGED_CELLS, top ≤ row → row ≤ bottom →
        ∀ column, left ≤ column → column ≤ right → (c.rows row).getLsbD column = true

lemma marked_empty : (empty : ChangedBounds K).Marked := by
  intro _ b hb
  simp [empty] at hb

lemma cells_lt {b : Bounds K} {left right top bottom : ℕ}
    (h : cells b = some (left, right, top, bottom)) :
    left < CHANGED_CELLS ∧ right < CHANGED_CELLS ∧ top < CHANGED_CELLS ∧ bottom < CHANGED_CELLS := by
  have hpos : 0 < CHANGED_CELLS := by decide
  unfold cells at h
  split_ifs at h
  simp only [Option.some.injEq, Prod.mk.injEq] at h
  obtain ⟨rfl, rfl, rfl, rfl⟩ := h
  exact ⟨cellAt_lt _ hpos, cellAt_lt _ hpos, cellAt_lt _ hpos, cellAt_lt _ hpos⟩

lemma Marked.push (h : c.Marked) (b : Bounds K) : (c.push b).Marked := by
  unfold ChangedBounds.push
  split
  · next left right top bottom hcells =>
    intro hun b' hb'
    simp only [mem_append, mem_singleton] at hb'
    obtain hb' | rfl := hb'
    · obtain ⟨l, r, t, bo, hc, hbits⟩ := h hun b' hb'
      refine ⟨l, r, t, bo, hc, fun row ht hbo column hl hr => ?_⟩
      have hbit := hbits row ht hbo column hl hr
      simp only
      split
      · rw [BitVec.getLsbD_or, hbit, Bool.true_or]
      · exact hbit
    · refine ⟨left, right, top, bottom, hcells, fun row ht hbo column hl hr => ?_⟩
      obtain ⟨-, hright, -, -⟩ := cells_lt hcells
      simp only [ht, hbo, and_self, if_true, BitVec.getLsbD_or,
        getLsbD_columns hright (hr.trans_lt hright), hl, hr, decide_true, Bool.or_true]
  · intro hun
    simp at hun

lemma bounds_push (c : ChangedBounds K) (b : Bounds K) : (c.push b).bounds = c.bounds ++ [b] := by
  unfold push
  split <;> rfl

lemma not_intersects_of_mightMeet [IsStrictOrderedRing K] (h : c.Marked) {q : Bounds K}
    (hq : c.mightMeet q = false) : ∀ b ∈ c.bounds, b.intersects q = false := by
  intro b hb
  unfold mightMeet at hq
  have hne : c.bounds.isEmpty = false := by
    cases hbs : c.bounds
    · simp [hbs] at hb
    · rfl
  simp only [hne, Bool.false_eq_true, if_false] at hq
  split_ifs at hq with hun
  split at hq
  · next left right top bottom hcells =>
    obtain ⟨l, r, t, bo, hc, hbits⟩ := h (by simpa using hun) b hb
    by_contra hi
    rw [Bool.not_eq_false, Bounds.intersects_iff] at hi
    obtain ⟨-, hr63, -, hbo63⟩ := cells_lt hc
    obtain ⟨-, hright, -, -⟩ := cells_lt hcells
    unfold cells at hc hcells
    split_ifs at hc with hb'
    split_ifs at hcells with hq'
    simp only [Option.some.injEq, Prod.mk.injEq] at hc hcells
    -- The later of the two first rows and columns is spanned by both bounds.
    have hcol : max l left ≤ min r right := by
      obtain ⟨rfl, rfl, -, -⟩ := hc
      obtain ⟨rfl, rfl, -, -⟩ := hcells
      exact max_le (le_min (cellAt_mono hb'.1 _) (cellAt_mono hi.1.1.le _))
        (le_min (cellAt_mono hi.1.2.le _) (cellAt_mono hq'.1 _))
    have hrow : max t top ≤ min bo bottom := by
      obtain ⟨-, -, rfl, rfl⟩ := hc
      obtain ⟨-, -, rfl, rfl⟩ := hcells
      exact max_le (le_min (cellAt_mono hb'.2 _) (cellAt_mono hi.2.1.le _))
        (le_min (cellAt_mono hi.2.2.le _) (cellAt_mono hq'.2 _))
    have hlt : max t top < CHANGED_CELLS := by omega
    have hbit := hbits ⟨max t top, hlt⟩ (by simp) (by simp only; omega) (max l left) (by simp)
      (by omega)
    have hcols : (columns left right).getLsbD (max l left) = true := by
      rw [getLsbD_columns hright (by omega)]
      exact decide_eq_true ⟨by omega, by omega⟩
    have hrowq := any_eq_false.mp hq ⟨max t top, hlt⟩ (mem_finRange _)
    have hand : (c.rows ⟨max t top, hlt⟩ &&& columns left right) ≠ 0 :=
      ne_zero_of_getLsbD (i := max l left) (by rw [BitVec.getLsbD_and, hbit, hcols]; rfl)
    apply hrowq
    simp only [Bool.and_eq_true, decide_eq_true_eq, bne_iff_ne]
    exact ⟨⟨by omega, by omega⟩, hand⟩
  · cases hq

end ChangedBounds

namespace BoundsTree

/-- Every ordering of `l` is one more than the greatest among the entries before it
that its bounds intersect. -/
def Ordered (l : List (Bounds K × ℕ)) : Prop :=
  ∀ n e, l[n]? = some e → e.2 = maxOver (·.intersects e.1) (l.take n) + 1

omit [FloorRing K] in
lemma ordered_nil : Ordered ([] : List (Bounds K × ℕ)) := by
  intro n e he
  simp at he

variable {b : Bounds K} {o : ℕ} {t : BoundsTree K}

variable {l : List (Bounds K × ℕ)}

omit [FloorRing K] in
lemma Ordered.concat (h : Ordered l) (ho : o = maxOver (·.intersects b) l + 1) :
    Ordered (l ++ [(b, o)]) := by
  intro n e he
  obtain hlt | rfl | hgt := lt_trichotomy n l.length
  · rw [getElem?_append_left hlt] at he
    rw [take_append_of_le_length hlt.le]
    exact h n e he
  · simp only [getElem?_concat_length, Option.some.injEq] at he
    subst he
    simpa using ho
  · rw [getElem?_eq_none (by simp; omega)] at he
    cases he

/-- Every entry that differs from the one in its position in `previous` has both its
forms among the changed bounds. -/
def ChangesNoted (t : BoundsTree K) : Prop :=
  ∀ (j : ℕ) e, t.recorded[j]? = some e → t.previous[j]? = some e ∨
    (e.1 ∈ t.changed.bounds ∧ ∀ e', t.previous[j]? = some e' → e'.1 ∈ t.changed.bounds)

/-- `greatest` is an entry of `l` of the greatest ordering. -/
def Greatest (greatest : Option (Bounds K × ℕ)) (l : List (Bounds K × ℕ)) : Prop :=
  match greatest with
  | none => l = []
  | some e => e ∈ l ∧ ∀ e' ∈ l, e'.2 ≤ e.2

/-- What holds between two operations. -/
structure Inv (t : BoundsTree K) : Prop where
  recorded : Ordered t.recorded
  previous : Ordered t.previous
  replayed : t.replaying = true → t.grid.Holds [] ∧ t.max = none ∧ t.changed.Marked ∧ t.ChangesNoted
  built : t.replaying = false → t.grid.Holds t.recorded ∧ Greatest t.max t.recorded

lemma inv_default : (default : BoundsTree K).Inv where
  recorded := ordered_nil
  previous := ordered_nil
  replayed h := by cases h
  built _ := ⟨Grid.holds_resize _ _ _ _, rfl⟩

lemma Inv.clear (h : t.Inv) : t.clear.Inv where
  recorded := ordered_nil
  previous := h.recorded
  replayed _ := ⟨t.grid.holds_clear, rfl, ChangedBounds.marked_empty, fun j e he => by
    simp [BoundsTree.clear] at he⟩
  built hr := by cases hr

omit [Field K] [LinearOrder K] [FloorRing K] in
lemma Greatest.raiseMax {greatest : Option (Bounds K × ℕ)} (h : Greatest greatest l)
    (e : Bounds K × ℕ) : Greatest (raiseMax greatest e) (l ++ [e]) := by
  cases greatest with
  | none =>
    obtain rfl : l = [] := h
    simp [BoundsTree.raiseMax, Greatest]
  | some g =>
    obtain ⟨hg, hle⟩ := h
    unfold BoundsTree.raiseMax
    split_ifs with hlt
    · simp only [Option.all_some, decide_eq_true_eq] at hlt
      refine ⟨by simp, fun e' he' => ?_⟩
      simp only [mem_append, mem_singleton] at he'
      obtain he' | rfl := he'
      · exact (hle e' he').trans hlt.le
      · exact le_rfl
    · simp only [Option.all_some, decide_eq_true_eq, not_lt] at hlt
      refine ⟨by simp [hg], fun e' he' => ?_⟩
      simp only [mem_append, mem_singleton] at he'
      obtain he' | rfl := he'
      · exact hle e' he'
      · exact hlt

omit [Field K] [LinearOrder K] [FloorRing K] in
lemma greatest_foldl (l : List (Bounds K × ℕ)) : Greatest (l.foldl raiseMax none) l := by
  induction l using reverseRecOn with
  | nil => exact (rfl : ([] : List (Bounds K × ℕ)) = [])
  | append_singleton l e ih =>
    rw [foldl_append]
    exact ih.raiseMax e

lemma holds_foldl_add {g : Grid K} (h : g.Holds []) (l : List (Bounds K × ℕ)) :
    (l.foldl (fun g e => g.add e.1 e.2) g).Holds l := by
  induction l using reverseRecOn with
  | nil => exact h
  | append_singleton l e ih =>
    rw [foldl_append]
    exact ih.add e.1 e.2

lemma findMaxOrdering_eq [IsStrictOrderedRing K] (hgrid : t.grid.Holds t.recorded)
    (hmax : Greatest t.max t.recorded) (query : Bounds K) :
    t.findMaxOrdering query = maxOver (·.intersects query) t.recorded := by
  have hsearch : (if Grid.hasArea query then t.grid.maxIntersecting query
      else maxOver (·.intersects query) t.recorded) = maxOver (·.intersects query) t.recorded := by
    split_ifs with harea
    · exact Grid.maxIntersecting_eq hgrid harea
    · rfl
  unfold findMaxOrdering
  simp only [hsearch]
  split
  · next b o hsome =>
    rw [hsome] at hmax
    split_ifs with hi
    · apply le_antisymm
      · exact le_maxOver (e := (b, o)) hmax.1 (by rwa [Bounds.intersects_comm])
      · exact maxOver_le_iff.mpr fun e he _ => hmax.2 e he
    · rfl
  · rfl

lemma Inv.insertBuilt [IsStrictOrderedRing K] (h : t.Inv) (hr : t.replaying = false) (b : Bounds K) :
    (t.insertBuilt b).2 = maxOver (·.intersects b) t.recorded + 1 ∧ (t.insertBuilt b).1.Inv ∧
      (t.insertBuilt b).1.recorded = t.recorded ++ [(b, (t.insertBuilt b).2)] := by
  obtain ⟨hgrid, hmax⟩ := h.built hr
  have hord : (t.insertBuilt b).2 = maxOver (·.intersects b) t.recorded + 1 :=
    congrArg (· + 1) (findMaxOrdering_eq hgrid hmax b)
  refine ⟨hord, ⟨h.recorded.concat hord, h.previous, fun hr' => ?_, fun _ => ?_⟩, rfl⟩
  · rw [show (t.insertBuilt b).1.replaying = t.replaying from rfl, hr] at hr'
    cases hr'
  · refine ⟨Grid.Holds.add ?_ b _, hmax.raiseMax _⟩
    split
    · split
      · exact holds_foldl_add (Grid.holds_resize _ _ _ _) _
      · exact hgrid
    · exact hgrid

lemma Inv.buildFromRecorded (hrec : Ordered t.recorded) (hprev : Ordered t.previous)
    (hgrid : t.grid.Holds []) (hmax : t.max = none) (hr : t.replaying = false) :
    t.buildFromRecorded.Inv where
  recorded := hrec
  previous := hprev
  replayed hr' := by
    rw [show t.buildFromRecorded.replaying = t.replaying from rfl, hr] at hr'
    cases hr'
  built _ := by
    refine ⟨holds_foldl_add ?_ _, ?_⟩
    · split
      · exact Grid.holds_resize _ _ _ _
      · exact hgrid
    · simp only [BoundsTree.buildFromRecorded, hmax]
      exact greatest_foldl _

/-- What `replay` leaves alone. -/
structure Kept (t t' : BoundsTree K) : Prop where
  grid : t'.grid = t.grid
  max : t'.max = t.max
  recorded : t'.recorded = t.recorded
  previous : t'.previous = t.previous
  replaying : t'.replaying = t.replaying

/-- What `replay` owes when it returns an ordering for `b`: the ordering is the naive
one, and the changes stay noted with `b` recorded. -/
structure Replayed (t t' : BoundsTree K) (b : Bounds K) (o : ℕ) : Prop where
  order : o = maxOver (·.intersects b) t.recorded + 1
  marked : t'.changed.Marked
  noted : ChangesNoted { t' with recorded := t.recorded ++ [(b, o)] }

omit [Field K] [LinearOrder K] [FloorRing K] in
lemma changesNoted_concat {t' : BoundsTree K} (h : t.ChangesNoted)
    (hprev : t'.previous = t.previous) (hsub : ∀ c ∈ t.changed.bounds, c ∈ t'.changed.bounds)
    (hnew : t.previous[t.recorded.length]? = some (b, o) ∨ (b ∈ t'.changed.bounds ∧
      ∀ e', t.previous[t.recorded.length]? = some e' → e'.1 ∈ t'.changed.bounds)) :
    ChangesNoted { t' with recorded := t.recorded ++ [(b, o)] } := by
  intro j e he
  simp only [hprev] at he ⊢
  obtain hlt | rfl | hgt := lt_trichotomy j t.recorded.length
  · rw [getElem?_append_left hlt] at he
    exact (h j e he).imp id fun hc => ⟨hsub _ hc.1, fun e' he' => hsub _ (hc.2 e' he')⟩
  · simp only [getElem?_concat_length, Option.some.injEq] at he
    subst he
    exact hnew
  · rw [getElem?_eq_none (by simp; omega)] at he
    cases he

lemma replaySearch_kept (t : BoundsTree K) (b : Bounds K) : Kept t (t.replaySearch b).1 := by
  unfold replaySearch
  split
  · exact ⟨rfl, rfl, rfl, rfl, rfl⟩
  · exact ⟨rfl, rfl, rfl, rfl, rfl⟩

lemma replaySearch_spec (hmarked : t.changed.Marked) (hnoted : t.ChangesNoted)
    (h : (t.replaySearch b).2 = some o) : Replayed t (t.replaySearch b).1 b o := by
  unfold replaySearch at h ⊢
  split at h
  · cases h
  · simp only [Option.some.injEq] at h
    refine ⟨h.symm, ?_, changesNoted_concat hnoted rfl ?_ ?_⟩
    · simp only
      split
      · split_ifs
        · exact (hmarked.push _).push _
        · exact hmarked.push _
        · exact hmarked
      · exact hmarked.push _
    · intro c hc
      simp only
      split
      · split_ifs
        · simp [ChangedBounds.bounds_push, hc]
        · simp [ChangedBounds.bounds_push, hc]
        · exact hc
      · simp [ChangedBounds.bounds_push, hc]
    · simp only
      split
      · next pb po hp =>
        split_ifs with hne hord
        · exact .inr ⟨by simp [ChangedBounds.bounds_push], by
            rintro e' he'
            rw [hp, Option.some.injEq] at he'
            simp [ChangedBounds.bounds_push, ← he']⟩
        · rw [not_not] at hne
          exact .inr ⟨by simp [ChangedBounds.bounds_push], by
            rintro e' he'
            rw [hp, Option.some.injEq] at he'
            simp [ChangedBounds.bounds_push, ← he', hne]⟩
        · rw [not_not] at hne hord
          exact .inl (by rw [hp, hne, hord, h])
      · next hp => exact .inr ⟨by simp [ChangedBounds.bounds_push], by simp [hp]⟩

lemma previous_ordering_eq (h : t.Inv) (hnoted : t.ChangesNoted)
    (hp : t.previous[t.recorded.length]? = some (b, o))
    (hmeet : ∀ c ∈ t.changed.bounds, c.intersects b = false) :
    o = maxOver (·.intersects b) t.recorded + 1 := by
  have hprev : o = maxOver (·.intersects b) (t.previous.take t.recorded.length) + 1 :=
    h.previous _ _ hp
  rw [hprev]
  have hlt := (List.getElem?_eq_some_iff.mp hp).1
  congr 1
  apply maxOver_eq_of_agree
  · simp [hlt.le]
  · intro j e e' he he'
    rw [getElem?_take] at he
    split_ifs at he with hj
    obtain heq | ⟨hnew, hold⟩ := hnoted j e' he'
    · exact .inl (by rw [heq] at he; exact (Option.some.inj he).symm)
    · exact .inr ⟨hmeet _ (hold e he), hmeet _ hnew⟩

lemma replay_kept (t : BoundsTree K) (b : Bounds K) : Kept t (t.replay b).1 := by
  unfold replay
  split
  · split_ifs
    · split
      · exact ⟨rfl, rfl, rfl, rfl, rfl⟩
      · next budget _ =>
        simp only
        split_ifs
        · have hk := replaySearch_kept { t with replaySearchBudget := budget } b
          exact ⟨hk.grid, hk.max, hk.recorded, hk.previous, hk.replaying⟩
        · exact ⟨rfl, rfl, rfl, rfl, rfl⟩
    · exact ⟨rfl, rfl, rfl, rfl, rfl⟩
    · exact replaySearch_kept t b
  · exact replaySearch_kept t b

lemma replay_spec [IsStrictOrderedRing K] (h : t.Inv) (hmarked : t.changed.Marked)
    (hnoted : t.ChangesNoted) (hr : (t.replay b).2 = some o) : Replayed t (t.replay b).1 b o := by
  -- The ordering taken over from last frame, once nothing changed is met.
  have hsame : ∀ (budget o' : ℕ), t.previous[t.recorded.length]? = some (b, o') →
      (∀ c ∈ t.changed.bounds, c.intersects b = false) →
      Replayed t { t with replaySearchBudget := budget } b o' := fun budget o' hp hmeet =>
    ⟨previous_ordering_eq h hnoted hp hmeet, hmarked,
      changesNoted_concat hnoted rfl (fun _ hc => hc) (.inl hp)⟩
  unfold replay at hr ⊢
  split at hr
  · next pb po hp =>
    split_ifs at hr ⊢ with heq hmight
    · split at hr
      · cases hr
      · next budget _ =>
        simp only at hr ⊢
        split_ifs at hr ⊢ with hany
        · have hs := replaySearch_spec (t := { t with replaySearchBudget := budget }) hmarked hnoted hr
          exact ⟨hs.order, hs.marked, hs.noted⟩
        · rw [Option.some.injEq] at hr
          subst heq hr
          exact hsame _ _ hp (by simpa using hany)
    · rw [Option.some.injEq] at hr
      subst heq hr
      exact hsame t.replaySearchBudget _ hp
        (ChangedBounds.not_intersects_of_mightMeet hmarked (by simpa using hmight))
    · exact replaySearch_spec hmarked hnoted hr
  · exact replaySearch_spec hmarked hnoted hr

/-- One insert: the ordering returned is the naive one, and the tree stays as it has
to be. -/
theorem Inv.insert [IsStrictOrderedRing K] (h : t.Inv) (b : Bounds K) :
    (t.insert b).2 = maxOver (·.intersects b) t.recorded + 1 ∧ (t.insert b).1.Inv ∧
      (t.insert b).1.recorded = t.recorded ++ [(b, (t.insert b).2)] := by
  unfold BoundsTree.insert
  split_ifs with hr
  · obtain ⟨hgrid, hmax, hmarked, hnoted⟩ := h.replayed hr
    have hk := replay_kept t b
    have hspec := fun o => replay_spec (o := o) h hmarked hnoted (b := b)
    split
    · next t' o heq =>
      rw [heq] at hspec
      replace hk : Kept t t' := by rwa [heq] at hk
      have hs : Replayed t t' b o := hspec o rfl
      refine ⟨hs.order, ⟨?_, hk.previous ▸ h.previous, fun _ => ⟨hk.grid ▸ hgrid, hk.max ▸ hmax,
        hs.marked, ?_⟩, fun hb => ?_⟩, by rw [hk.recorded]⟩
      · rw [show t'.recorded ++ [(b, o)] = t.recorded ++ [(b, o)] by rw [hk.recorded]]
        exact h.recorded.concat hs.order
      · rw [show t'.recorded ++ [(b, o)] = t.recorded ++ [(b, o)] by rw [hk.recorded]]
        exact hs.noted
      · rw [show t'.replaying = true from hk.replaying.trans hr] at hb
        cases hb
    · next t' heq =>
      replace hk : Kept t t' := by rwa [heq] at hk
      have hbuilt := Inv.buildFromRecorded (t := { t' with replaying := false })
        (by rw [hk.recorded]; exact h.recorded) (by rw [hk.previous]; exact h.previous)
        (by rw [hk.grid]; exact hgrid) (by rw [hk.max]; exact hmax) rfl
      have hins := hbuilt.insertBuilt rfl b
      have hrec : (BoundsTree.buildFromRecorded { t' with replaying := false }).recorded = t.recorded :=
        hk.recorded
      rw [hrec] at hins
      exact hins
  · exact h.insertBuilt (by simpa using hr) b

end BoundsTree

inductive BoundsOp (K : Type*)
  | insert (bounds : Bounds K)
  | clear

def BoundsTree.run (t : BoundsTree K) : List (BoundsOp K) → List ℕ
  | [] => []
  | .insert b :: ops => (t.insert b).2 :: BoundsTree.run (t.insert b).1 ops
  | .clear :: ops => BoundsTree.run t.clear ops

/-- The ordering by its definition, from the bounds `inserted` since the last clear. -/
def Naive.order (inserted : List (Bounds K × ℕ)) (b : Bounds K) : ℕ :=
  1 + maxOver (fun other => other.intersects b) inserted

def Naive.run (inserted : List (Bounds K × ℕ)) : List (BoundsOp K) → List ℕ
  | [] => []
  | .insert b :: ops => Naive.order inserted b :: Naive.run (inserted ++ [(b, Naive.order inserted b)]) ops
  | .clear :: ops => Naive.run [] ops

lemma BoundsTree.run_eq [IsStrictOrderedRing K] (ops : List (BoundsOp K)) (t : BoundsTree K)
    (h : t.Inv) : t.run ops = Naive.run t.recorded ops := by
  induction ops generalizing t with
  | nil => rfl
  | cons op ops ih =>
    cases op with
    | insert b =>
      obtain ⟨hord, hinv, hrec⟩ := h.insert b
      have hnaive : (t.insert b).2 = Naive.order t.recorded b := by
        rw [hord, Naive.order, Nat.add_comm]
      rw [BoundsTree.run, Naive.run, ih _ hinv, hrec, hnaive]
    | clear => exact ih _ h.clear

/-- Over every run from an empty tree, each insert returns one more than the greatest
ordering among the bounds inserted since the last clear that intersect the new ones. -/
theorem BoundsTree.run_default_eq_naive [IsStrictOrderedRing K] (ops : List (BoundsOp K)) :
    (BoundsTree.default : BoundsTree K).run ops = Naive.run [] ops :=
  BoundsTree.run_eq ops _ BoundsTree.inv_default

/-- Two frames: the second repeats the first up to its last bounds. -/
theorem BoundsTree.run_default_eq_naive_frames :
    let a : Bounds ℚ := ⟨⟨0, 0⟩, ⟨10, 10⟩⟩
    let b : Bounds ℚ := ⟨⟨5, 5⟩, ⟨100, 10⟩⟩
    let c : Bounds ℚ := ⟨⟨70, 70⟩, ⟨10, 10⟩⟩
    let ops : List (BoundsOp ℚ) :=
      [.insert a, .insert b, .insert c, .clear, .insert a, .insert b, .insert b]
    BoundsTree.default.run ops = Naive.run [] ops ∧ Naive.run [] ops = [1, 2, 1, 1, 2, 3] :=
  ⟨BoundsTree.run_default_eq_naive _, by with_unfolding_all decide⟩

end GpuiFast
