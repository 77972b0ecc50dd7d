import GpuiFast.PathCacheHolds

namespace GpuiFast

open List Option

open Recency

/-- A draw of `key` after `history` hits. -/
def Hits (weight : PathKey → ℕ) (limit shapes : ℕ) (history : List PathKey) (key : PathKey) :
    Prop :=
  if weight key ≤ limit then
    let others := ((since history key).filter (weight · ≤ limit)).toFinset
    key ∈ history ∧ others.card < shapes ∧ ∑ other ∈ others, weight other ≤ limit - weight key
  else key ∈ history ∧ ∀ other ∈ since history key, weight other ≤ limit

instance (weight : PathKey → ℕ) (limit shapes : ℕ) (history : List PathKey) (key : PathKey) :
    Decidable (Hits weight limit shapes history key) := by
  unfold Hits
  infer_instance

section Light

variable {α : Type*} [DecidableEq α] {light : α → Bool} {history : List α} {a : α}

lemma since_filter (h : light a = true) :
    since (history.filter light) a = (since history a).filter light := by
  have hreverse : ∀ uses : List α, (uses.filter light).takeWhile (· ≠ a) =
      (uses.takeWhile (· ≠ a)).filter light := by
    intro uses
    induction uses with
    | nil => rfl
    | cons b uses ih =>
      by_cases hba : b = a
      · simp [hba, h]
      · cases hlight : light b <;> simpa [hba, hlight] using ih
  rw [since, since, ← filter_reverse, hreverse]

lemma mem_takeFits_stack {weight : α → ℕ} {limit count : ℕ} (h : light a = true)
    (hweight : weight a ≤ limit) :
    a ∈ takeFits weight limit count (stack (history.filter light)) ↔
      a ∈ history ∧ (((since history a).filter light).toFinset).card < count ∧
        ∑ other ∈ ((since history a).filter light).toFinset, weight other ≤ limit - weight a := by
  have hnodup := nodup_stack (history.filter light)
  have habove : (above (stack (history.filter light)) a).Nodup :=
    hnodup.sublist (takeWhile_sublist _)
  rw [mem_takeFits hnodup, mem_stack, mem_filter, ← since_filter h, ← toFinset_above_stack,
    toFinset_card_of_nodup habove, sum_toFinset weight habove]
  simp only [h, and_true]
  refine and_congr_right fun _ => and_congr_right fun _ => ?_
  omega

end Light

namespace KeptPaths

variable {P : Type*} {weight : PathKey → ℕ} {kept : KeptPaths P} {history : List PathKey}
  {capacity : P → ℕ} {key : PathKey} {path : P}

/-- The cache is what drawing `history` makes it. -/
structure Follows (weight : PathKey → ℕ) (history : List PathKey) (kept : KeptPaths P) :
    Prop where
  shapesKept : ∃ entries, Holds weight kept entries ∧ entries.map Prod.fst =
    takeFits weight kept.limit kept.shapes (stack (history.filter (weight · ≤ kept.limit)))
  heavy : kept.heavy.map Prod.fst = (history.filter (kept.limit < weight ·)).getLast?

lemma follows_new (limit shapes : ℕ) : Follows weight [] (new limit shapes : KeptPaths P) :=
  ⟨⟨[], holds_new limit shapes, rfl⟩, rfl⟩

lemma getLast?_heavy {limit : ℕ} (hheavy : limit < weight key) :
    (history.filter (limit < weight ·)).getLast? = some key ↔
      key ∈ history ∧ ∀ other ∈ since history key, weight other ≤ limit := by
  induction history using reverseRecOn with
  | nil => simp
  | append_singleton history other ih =>
    by_cases heq : other = key
    · simp [heq, hheavy, since]
    · have hsince : since (history ++ [other]) key = other :: since history key := by
        simp [since, heq]
      rw [hsince, filter_append]
      by_cases hother : limit < weight other
      · simp [hother, heq, Nat.not_le.mpr hother]
      · have hnone : [other].filter (limit < weight ·) = [] := by simp [hother]
        rw [hnone, append_nil, ih]
        simp [Ne.symm heq, Nat.not_lt.mp hother]

lemma Follows.draw_light (h : Follows weight history kept) (hlight : weight key ≤ kept.limit)
    (hweight : pathWeight capacity key path = weight key) (hshapes : 0 < kept.shapes) :
    ∃ kept' hit, kept.draw capacity key path = some (kept', hit) ∧
      Follows weight (history ++ [key]) kept' ∧ SameSettings kept kept' ∧
      (hit = true ↔ Hits weight kept.limit kept.shapes history key) := by
  obtain ⟨⟨entries, hholds, hkeys⟩, hheavy⟩ := h
  have hlightBool : decide (weight key ≤ kept.limit) = true := decide_eq_true hlight
  have hstack : stack ((history ++ [key]).filter (weight · ≤ kept.limit)) =
      touch (stack (history.filter (weight · ≤ kept.limit))) key := by
    simp [filter_append, hlight]
  have hheavy' : ((history ++ [key]).filter (kept.limit < weight ·)).getLast? =
      (history.filter (kept.limit < weight ·)).getLast? := by
    simp [filter_append, Nat.not_lt.mpr hlight]
  have hhits : Hits weight kept.limit kept.shapes history key ↔ key ∈ entries.map Prod.fst := by
    rw [Hits, if_pos hlight, hkeys]
    exact (@mem_takeFits_stack _ _ (fun other => weight other ≤ kept.limit) history key weight
      kept.limit kept.shapes hlightBool hlight).symm
  by_cases hmem : key ∈ entries.map Prod.fst
  · obtain ⟨entry, hentry, rfl⟩ := mem_map.mp hmem
    obtain ⟨front, back, rfl⟩ := append_of_mem hentry
    obtain ⟨kept', found, hget, hholds', hsame⟩ := hholds.get_kept
    refine ⟨kept', true, ?_, ⟨⟨_, hholds', ?_⟩, ?_⟩, hsame, by simp [hhits]⟩
    · rw [draw, hget, bind_some]
    · rw [hsame.1, hsame.2.1, hstack, takeFits_touch_of_mem (hkeys ▸ hmem), ← hkeys]
      have hkeysNodup := hholds.keys
      rw [map_append, map_cons, nodup_append] at hkeysNodup
      have hfront : entry.1 ∉ front.map Prod.fst :=
        fun hin => hkeysNodup.2.2 entry.1 hin entry.1 mem_cons_self rfl
      simp only [map_append, map_cons, touch_append hfront]
    · rw [hsame.1, hsame.2.2, hheavy', hheavy]
  · have hindex : kept.index.get? key = none := by
      cases hplace : kept.index.get? key with
      | none => rfl
      | some place => exact absurd (mem_map_of_mem ((hholds.index key place).mp hplace)) hmem
    have hget : kept.get key = some (kept, none) := by
      rw [get, hindex]
      simp only
      split
      · rename_i heavy path' hslot
        rw [if_neg]
        rintro rfl
        have hlast := mem_of_getLast? (by rw [← hheavy, hslot]; rfl)
        have hover := (mem_filter.mp hlast).2
        simp only [decide_eq_true_eq] at hover
        omega
      · rfl
    obtain ⟨kept', entries', hinsert, hholds', hsame, hkeys'⟩ :=
      hholds.insert_light hmem hweight hlight hshapes
    refine ⟨kept', false, ?_, ⟨⟨entries', hholds', ?_⟩, ?_⟩, hsame, by simpa [hhits] using hmem⟩
    · rw [draw, hget, bind_some, hinsert]
      rfl
    · rw [hsame.1, hsame.2.1, hkeys', hstack, hkeys,
        takeFits_touch_of_notMem hlight hshapes (hkeys ▸ hmem)]
    · rw [hsame.1, hsame.2.2, hheavy', hheavy]

lemma Follows.draw_heavy (h : Follows weight history kept) (hover : kept.limit < weight key)
    (hweight : pathWeight capacity key path = weight key) :
    ∃ kept' hit, kept.draw capacity key path = some (kept', hit) ∧
      Follows weight (history ++ [key]) kept' ∧
      (kept'.limit = kept.limit ∧ kept'.shapes = kept.shapes) ∧
      (hit = true ↔ Hits weight kept.limit kept.shapes history key) := by
  obtain ⟨⟨entries, hholds, hkeys⟩, hheavy⟩ := h
  have hlight : (history ++ [key]).filter (weight · ≤ kept.limit) =
      history.filter (weight · ≤ kept.limit) := by
    simp [filter_append, Nat.not_le.mpr hover]
  have hlast : ((history ++ [key]).filter (kept.limit < weight ·)).getLast? = some key := by
    rw [filter_append]
    simp [hover]
  have hhits : Hits weight kept.limit kept.shapes history key ↔
      kept.heavy.map Prod.fst = some key := by
    rw [Hits, if_neg (Nat.not_le.mpr hover), hheavy, getLast?_heavy hover]
  have hindex : kept.index.get? key = none := by
    cases hplace : kept.index.get? key with
    | none => rfl
    | some place =>
      have hmem := mem_map_of_mem (f := Prod.fst) ((hholds.index key place).mp hplace)
      rw [hkeys] at hmem
      have hstack := takeFits_isPrefix.subset hmem
      rw [mem_stack] at hstack
      have hle := (mem_filter.mp hstack).2
      simp only [decide_eq_true_eq] at hle
      omega
  by_cases hsame : kept.heavy.map Prod.fst = some key
  · obtain ⟨⟨heavy, found⟩, hslot, rfl⟩ := map_eq_some_iff.mp hsame
    refine ⟨kept, true, ?_, ⟨⟨entries, hholds, ?_⟩, ?_⟩, ⟨rfl, rfl⟩, by simpa [hhits] using hsame⟩
    · simp [draw, get, hindex, hslot]
    · rw [hlight, hkeys]
    · rw [hlast, hsame]
  · have hget : kept.get key = some (kept, none) := by
      rw [get, hindex]
      simp only
      split
      · rename_i heavy found hslot
        rw [if_neg]
        rintro rfl
        exact hsame (by rw [hslot]; rfl)
      · rfl
    refine ⟨{ kept with heavy := some (key, path) }, false, ?_, ⟨⟨entries, ?_, ?_⟩, ?_⟩, ⟨rfl, rfl⟩,
      by simpa [hhits] using hsame⟩
    · rw [draw, hget, bind_some]
      simp only [insert, hweight, hover, if_true, map_some]
    · exact ⟨⟨hholds.chain.linked, hholds.chain.newest, hholds.chain.oldest, hholds.chain.nodup⟩,
        hholds.keys, hholds.index, hholds.bytes, hholds.vacantNodup, hholds.vacant⟩
    · rw [hlight, hkeys]
    · rw [hlast]
      rfl

lemma Follows.draw (h : Follows weight history kept)
    (hweight : pathWeight capacity key path = weight key) (hshapes : 0 < kept.shapes) :
    ∃ kept' hit, kept.draw capacity key path = some (kept', hit) ∧
      Follows weight (history ++ [key]) kept' ∧
      (kept'.limit = kept.limit ∧ kept'.shapes = kept.shapes) ∧
      (hit = true ↔ Hits weight kept.limit kept.shapes history key) := by
  rcases Nat.lt_or_ge kept.limit (weight key) with hover | hlight
  · exact h.draw_heavy hover hweight
  · obtain ⟨kept', hit, hdraw, hfollows, hsame, hhit⟩ := h.draw_light hlight hweight hshapes
    exact ⟨kept', hit, hdraw, hfollows, ⟨hsame.1, hsame.2.1⟩, hhit⟩

lemma Follows.drawAll (h : Follows weight history kept) (hshapes : 0 < kept.shapes)
    {draws : List (PathKey × P)}
    (hweight : ∀ shape ∈ draws, pathWeight capacity shape.1 shape.2 = weight shape.1) :
    ∃ kept', kept.drawAll capacity draws = some kept' ∧
      Follows weight (history ++ draws.map Prod.fst) kept' ∧
      kept'.limit = kept.limit ∧ kept'.shapes = kept.shapes := by
  induction draws generalizing history kept with
  | nil => exact ⟨kept, rfl, by simpa using h, rfl, rfl⟩
  | cons shape draws ih =>
    obtain ⟨kept₁, hit, hdraw, hfollows, ⟨hlimit, hcount⟩, -⟩ :=
      h.draw (hweight shape mem_cons_self) hshapes
    obtain ⟨kept', hdraws, hfollows', hlimit', hcount'⟩ :=
      ih hfollows (hcount ▸ hshapes) (fun shape hshape => hweight shape (mem_cons_of_mem _ hshape))
    refine ⟨kept', ?_, ?_, hlimit'.trans hlimit, hcount'.trans hcount⟩
    · rw [KeptPaths.drawAll, hdraw, bind_some, hdraws]
    · rw [map_cons, ← singleton_append, ← append_assoc]
      exact hfollows'

/-- After any draws, a draw hits exactly when it should. -/
theorem draw_hits_iff (capacity : P → ℕ) (weight : PathKey → ℕ) (limit shapes : ℕ)
    (hshapes : 1 ≤ shapes) (draws : List (PathKey × P)) (key : PathKey) (path : P)
    (hweight : ∀ shape ∈ draws ++ [(key, path)],
      pathWeight capacity shape.1 shape.2 = weight shape.1) :
    ∃ kept kept' hit, drawAll capacity (new limit shapes) draws = some kept ∧
      kept.draw capacity key path = some (kept', hit) ∧
      (hit = true ↔ Hits weight limit shapes (draws.map Prod.fst) key) := by
  obtain ⟨kept, hdraws, hfollows, hlimit, hcount⟩ :=
    (follows_new (P := P) limit shapes).drawAll hshapes
      (fun shape hshape => hweight shape (mem_append_left _ hshape))
  obtain ⟨kept', hit, hdraw, -, -, hhit⟩ := hfollows.draw
    (hweight (key, path) (by simp)) (hcount ▸ hshapes)
  rw [nil_append, hlimit, hcount] at hhit
  exact ⟨kept, kept', hit, hdraws, hdraw, hhit⟩

/-- Two shapes and a heavy one; the first is still kept when the second fits beside it. -/
theorem draw_hits_beside_heavy :
    ∃ kept kept' hit, drawAll (P := ℕ) id (new 120 2) [([1], 1), ([2, 3], 2), ([4, 5, 6, 7], 4)] =
        some kept ∧
      kept.draw id [1] 1 = some (kept', hit) ∧ hit = true := by
  obtain ⟨kept, kept', hit, hdraws, hdraw, hhit⟩ :=
    draw_hits_iff (P := ℕ) id (fun key => 36 * key.length) 120 2 (by decide)
      [([1], 1), ([2, 3], 2), ([4, 5, 6, 7], 4)] [1] 1 (by simp [pathWeight])
  exact ⟨kept, kept', hit, hdraws, hdraw, hhit.mpr (by decide)⟩

end KeptPaths

end GpuiFast
