import GpuiFast.SplicePaint

namespace GpuiFast.Splice

open List Option RetainedView PaintOutput

variable {α : Type*}

section Gaps

variable (v : RetainedView α) (start : PaintIndex)

variable (views : List (NestedView α)) (first : ℕ)

lemma nestedRecords_get (rank : ℕ) :
    (views[rank]?).isSome → (v.nestedRecords start first views)[((views.take rank).map
      (fun view => view.inside.length + 1)).sum]? =
      views[rank]?.map (fun view => v.recordOf start view (first + rank)) := by
  induction views generalizing first rank with
  | nil => simp
  | cons view views ih =>
    intro hrank
    cases rank with
    | zero => simp [nestedRecords]
    | succ rank =>
      have hrest := ih (first + 1) rank (by simpa using hrank)
      rw [Nat.add_right_comm, Nat.add_assoc] at hrest
      rw [getElem?_cons_succ, ← hrest]
      simp only [nestedRecords, take_succ_cons, map_cons, sum_cons, cons_append]
      rw [Nat.add_right_comm, getElem?_cons_succ, getElem?_append_right (by omega),
        Nat.add_sub_cancel_left]

lemma nestedRecords_length :
    (v.nestedRecords start first views).length =
      (views.map (fun view => view.inside.length + 1)).sum := by
  induction views generalizing first with
  | nil => rfl
  | cons view views ih =>
    simp only [nestedRecords, cons_append, length_cons, length_append, ih, map_cons, sum_cons]
    omega

variable {rank : ℕ} {view : NestedView α}

lemma records_get (h : v.views[rank]? = some view) :
    (v.records start)[v.recordIndex rank]? = some (v.recordOf start view rank) := by
  have hget := nestedRecords_get v start v.views 0 rank (by simp [h])
  rw [h, map_some, Nat.zero_add] at hget
  rw [RetainedView.records, recordIndex, Nat.add_comm 1, getElem?_cons_succ, hget]

lemma recordIndex_succ (h : v.views[rank]? = some view) :
    v.recordIndex (rank + 1) = v.recordIndex rank + view.inside.length + 1 := by
  simp only [recordIndex, take_add_one, h, toList_some, map_append,
    map_cons, map_nil, sum_append, sum_cons, sum_nil]
  omega

lemma recordIndex_length :
    v.recordIndex v.views.length = (v.nestedRecords start 0 v.views).length + 1 := by
  rw [recordIndex, take_length, nestedRecords_length]
  omega

lemma recordIndex_lt {rank' : ℕ} (h : rank < rank') (hlength : rank < v.views.length) :
    v.recordIndex rank < v.recordIndex rank' := by
  induction rank', h using Nat.le_induction with
  | base =>
    rw [recordIndex_succ v (getElem?_eq_getElem hlength)]
    omega
  | succ rank' hle ih =>
    refine ih.trans_le ?_
    cases hview : v.views[rank']? with
    | none =>
      have hout := getElem?_eq_none_iff.mp hview
      rw [recordIndex, recordIndex, take_of_length_le hout,
        take_of_length_le (by omega)]
    | some view =>
      have hsucc := recordIndex_succ v hview
      omega

lemma eq_length_of_recordIndex_le (hrank : rank ≤ v.views.length)
    (h : v.recordIndex v.views.length ≤ v.recordIndex rank) : rank = v.views.length := by
  by_contra hne
  have hlt := recordIndex_lt v (lt_of_le_of_ne hrank hne) (by omega)
  omega

def dirtyRanks (rank : ℕ) : List ℕ := ((List.range v.views.length).drop rank).filter v.isDirty

lemma dirtyRanks_length : dirtyRanks v v.views.length = [] := by
  rw [dirtyRanks, drop_of_length_le (by simp), filter_nil]

lemma dirtyRanks_cons (h : v.views[rank]? = some view) :
    dirtyRanks v rank =
      if view.dirty then rank :: dirtyRanks v (rank + 1) else dirtyRanks v (rank + 1) := by
  obtain ⟨hlt, hview⟩ := List.getElem?_eq_some_iff.mp h
  have hdrop := drop_eq_getElem_cons (l := List.range v.views.length) (i := rank) (by simpa)
  rw [dirtyRanks, hdrop, getElem_range, filter_cons]
  simp [RetainedView.isDirty, h, dirtyRanks]

lemma gapsFrom_eq {records : List RetainedSubtree} {previous : ℕ}
    (hrecords : ∀ i, i < (v.records start).length →
      records[previous + i]? = (v.records start)[i]?) :
    ∀ (fuel rank : ℕ) (gaps : List ℕ), rank ≤ v.views.length →
      v.recordIndex v.views.length ≤ v.recordIndex rank + fuel →
      gapsFrom records fuel (previous + v.recordIndex rank)
        (previous + (v.nestedRecords start 0 v.views).length) = some gaps →
      gaps = (dirtyRanks v rank).map (fun rank => previous + v.recordIndex rank) := by
  have hlast := recordIndex_length v start
  intro fuel
  induction fuel with
  | zero =>
    intro rank gaps hrank hfuel hgaps
    simp only [gapsFrom, some.injEq] at hgaps
    rw [← hgaps, eq_length_of_recordIndex_le v hrank hfuel, dirtyRanks_length, map_nil]
  | succ fuel ih =>
    intro rank gaps hrank hfuel hgaps
    rw [gapsFrom] at hgaps
    split at hgaps
    · rename_i hend
      simp only [some.injEq] at hgaps
      rw [← hgaps, eq_length_of_recordIndex_le v hrank (by omega), dirtyRanks_length,
        map_nil]
    · rename_i hend
      have hlt : rank < v.views.length := by
        by_contra hge
        rw [show rank = v.views.length by omega] at hend
        omega
      have hview := getElem?_eq_getElem hlt
      have hsucc := recordIndex_succ v hview
      have hget := records_get v start hview
      have hbound := (List.getElem?_eq_some_iff.mp hget).1
      rw [hrecords _ hbound, hget] at hgaps
      have hnext : previous + v.recordIndex rank +
          (v.recordOf start v.views[rank] rank).nested + 1 =
            previous + v.recordIndex (rank + 1) := by
        rw [hsucc]
        simp only [recordOf]
        omega
      simp only [hnext] at hgaps
      rw [dirtyRanks_cons v hview]
      have hrest := fun gaps => ih (rank + 1) gaps (by omega) (by omega)
      by_cases hdirty : v.views[rank].dirty
      · simp only [recordOf, hdirty, if_true] at hgaps
        split at hgaps
        · cases hgaps
        · obtain ⟨rest, hsome, rfl⟩ := map_eq_some_iff.mp hgaps
          rw [hrest rest hsome, hdirty, if_pos rfl, map_cons]
      · simp only [recordOf, hdirty] at hgaps
        rw [if_neg hdirty]
        exact hrest gaps hgaps

def gapOf (painted : ℕ → PaintOutput α) (start : PaintIndex) (pieces : List (Piece α))
    (rank : ℕ) : Gap α :=
  let begun := startOf v.old rank start pieces
  ⟨begun, begun.after (v.old rank), painted rank⟩

variable {earlier later : List RetainedSubtree} {gaps : List ℕ}

lemma records_within {i : ℕ} (hi : i < (v.records start).length) :
    (earlier ++ v.records start ++ later)[earlier.length + i]? = (v.records start)[i]? := by
  rw [List.append_assoc, getElem?_append_right (by omega), Nat.add_sub_cancel_left,
    getElem?_append_left hi]

lemma records_own :
    (earlier ++ v.records start ++ later)[earlier.length]? =
      some ⟨(v.nestedRecords start 0 v.views).length, true, true, start,
        start.after (paintPieces v.old v.pieces)⟩ :=
  records_within v start (i := 0) (by simp [RetainedView.records])

lemma spliceGaps_eq
    (hgaps : spliceGaps (earlier ++ v.records start ++ later) earlier.length = some gaps) :
    gaps = (dirtyRanks v 0).map (fun rank => earlier.length + v.recordIndex rank) := by
  have hlast := recordIndex_length v start
  have hfirst : v.recordIndex 0 = 1 := rfl
  have hwithin := fun i => @records_within _ v start earlier later i
  rw [spliceGaps, records_own] at hgaps
  simp only at hgaps
  split at hgaps
  · cases hgaps
  · exact gapsFrom_eq v start hwithin _ 0 gaps (Nat.zero_le _) (by omega) hgaps

lemma splicePaint_eq
    (hgaps : spliceGaps (earlier ++ v.records start ++ later) earlier.length = some gaps)
    (rendered next : PaintOutput α) (painted : ℕ → PaintOutput α) :
    splicePaint rendered (earlier ++ v.records start ++ later) earlier.length gaps painted next =
      spliceStretches rendered (start.after (paintPieces v.old v.pieces)) start
        ((dirtyRanks v 0).map (gapOf v (fun rank => painted (earlier.length + v.recordIndex rank))
          start v.pieces)) next := by
  have hgap : ∀ rank ∈ dirtyRanks v 0,
      (earlier ++ v.records start ++ later)[earlier.length + v.recordIndex rank]?.map
        (fun gap => (⟨gap.start, gap.stop, painted (earlier.length + v.recordIndex rank)⟩ : Gap α)) =
      some (gapOf v (fun rank => painted (earlier.length + v.recordIndex rank)) start v.pieces
        rank) := by
    intro rank hrank
    have hlt : rank < v.views.length := by
      have hmem := mem_of_mem_filter hrank
      simpa using hmem
    have hview := getElem?_eq_getElem hlt
    have hget := records_get v start hview
    rw [records_within v start (List.getElem?_eq_some_iff.mp hget).1, hget]
    simp [gapOf, recordOf, RetainedView.old, hview]
  rw [splicePaint, records_own, spliceGaps_eq v start hgaps, filterMap_map, ← filterMap_eq_map]
  exact congrArg (fun gaps => spliceStretches rendered _ start gaps next)
    (filterMap_congr hgap)

end Gaps

section InOrder

variable (a : PaintOutput α) {start : PaintIndex}

variable (b : PaintOutput α)

lemma append_assoc (c : PaintOutput α) : (a.append b).append c = a.append (b.append c) := by
  funext array
  exact List.append_assoc _ _ _

lemma append_empty : a.append PaintOutput.empty = a := by
  funext array
  exact append_nil _

lemma index_append : (a.append b).index = a.index.after b := by
  funext array
  exact length_append

lemma after_append (start : PaintIndex) (a b : PaintOutput α) :
    start.after (a.append b) = (start.after a).after b := by
  funext array
  simp only [PaintIndex.after, append, length_append]
  omega

def stretch (rendered : PaintOutput α) (start stop : PaintIndex) : PaintOutput α :=
  fun array => slice (rendered array) (start array) (stop array)

lemma stretch_self {rendered : PaintOutput α} : stretch rendered start start = empty := by
  funext array
  exact slice_of_le le_rfl

lemma stretch_append {front output back : PaintOutput α} {cursor : PaintIndex}
    (h : ∀ array, cursor array ≤ front.index array) :
    stretch ((front.append output).append back) cursor (front.index.after output) =
      (stretch ((front.append output).append back) cursor front.index).append output := by
  funext array
  have hlength : (front array).length + (output array).length ≤
      ((front array ++ output array) ++ back array).length := by
    simp
  have hsplit := slice_append_slice (h array) (Nat.le_add_right _ (output array).length) hlength
  have houtput := slice_stretch (front array) (output array) (back array)
  simp only [PaintOutput.index] at hsplit
  simp only [stretch, PaintIndex.after, append, PaintOutput.index]
  rw [← hsplit, houtput]

lemma reusePaint_eq (rendered next : PaintOutput α) {stop : PaintIndex}
    (hstart : ∀ array, start array ≤ stop array)
    (hstop : ∀ array, stop array ≤ (rendered array).length) :
    reusePaint rendered start stop next = some (next.append (stretch rendered start stop)) := by
  have hall : PaintArray.sliced.all (fun array =>
      start array ≤ stop array ∧ stop array ≤ (rendered array).length) = true := by
    simpa using fun array _ => ⟨hstart array, hstop array⟩
  rw [reusePaint, if_pos hall]
  congr 1
  funext array
  rw [if_neg (fun h => absurd h.2 (Nat.not_lt.mpr (hstop array)))]
  rfl

variable (v : RetainedView α) (painted : ℕ → PaintOutput α)

def outputs (rank : ℕ) : PaintOutput α := if v.isDirty rank then painted rank else v.old rank

def paintedGaps (start : PaintIndex) (pieces : List (Piece α)) : List (Gap α) :=
  ((pieces.filterMap Piece.rank?).filter v.isDirty).map (gapOf v painted start pieces)

lemma paintedGaps_view {rank : ℕ} {pieces : List (Piece α)}
    (h : rank ∉ pieces.filterMap Piece.rank?) :
    paintedGaps v painted start (.view rank :: pieces) =
      (if v.isDirty rank then [⟨start, start.after (v.old rank), painted rank⟩] else []) ++
        paintedGaps v painted (start.after (v.old rank)) pieces := by
  have hrest : ((pieces.filterMap Piece.rank?).filter v.isDirty).map
      (gapOf v painted start (.view rank :: pieces)) =
        paintedGaps v painted (start.after (v.old rank)) pieces := by
    refine map_congr_left fun rank' hrank' => ?_
    have hne : rank ≠ rank' := by
      rintro rfl
      exact h (mem_of_mem_filter hrank')
    simp only [gapOf, startOf, if_neg hne]
  simp only [paintedGaps, filterMap_cons, Piece.rank?, filter_cons] at hrest ⊢
  split
  · simp [hrest, gapOf, startOf]
  · simp [hrest]

lemma spliceStretches_paintedGaps (back : PaintOutput α) (pieces : List (Piece α)) :
    ∀ (front next : PaintOutput α) (cursor : PaintIndex),
      (pieces.filterMap Piece.rank?).Nodup → (∀ array, cursor array ≤ front.index array) →
      let rendered := (front.append (paintPieces v.old pieces)).append back
      spliceStretches rendered (front.index.after (paintPieces v.old pieces)) cursor
        (paintedGaps v painted front.index pieces) next =
      some ((next.append (stretch rendered cursor front.index)).append
        (paintPieces (outputs v painted) pieces)) := by
  induction pieces with
  | nil =>
    intro front next cursor _ hcursor rendered
    have hreuse := reusePaint_eq rendered next hcursor (fun array => by
      simp [rendered, append, PaintOutput.index])
    simp only [paintPieces, append_empty]
    rw [← hreuse]
    rfl
  | cons piece pieces ih =>
    intro front next cursor hnodup hcursor
    -- An output that is copied only lengthens the stretch to copy.
    have hcopy : ∀ output : PaintOutput α, (pieces.filterMap Piece.rank?).Nodup →
        let rendered := (front.append (output.append (paintPieces v.old pieces))).append back
        spliceStretches rendered (front.index.after (output.append (paintPieces v.old pieces)))
          cursor (paintedGaps v painted (front.index.after output) pieces) next =
        some ((next.append (stretch rendered cursor front.index)).append
          (output.append (paintPieces (outputs v painted) pieces))) := by
      intro output hnodup
      have hrest := ih (front.append output) next cursor hnodup
        (fun array => (hcursor array).trans (by simp [append, PaintOutput.index]))
      simp only [index_append, append_assoc] at hrest ⊢
      rw [after_append, hrest, ← append_assoc front, stretch_append hcursor, append_assoc,
        append_assoc front]
    cases piece with
    | own output => exact hcopy output hnodup
    | view rank =>
      obtain ⟨hnotin, hnodup⟩ := nodup_cons.mp hnodup
      rw [paintedGaps_view v painted hnotin]
      by_cases hdirty : v.isDirty rank
      · have hreuse := reusePaint_eq ((front.append (paintPieces v.old
            (.view rank :: pieces))).append back) next hcursor (fun array => by
          simp [append, PaintOutput.index])
        have hrest := ih (front.append (v.old rank)) ((next.append (stretch
          ((front.append (paintPieces v.old (.view rank :: pieces))).append back) cursor
          front.index)).append (painted rank)) (front.append (v.old rank)).index hnodup
          (fun array => le_rfl)
        simp only [stretch_self, append_empty] at hrest
        simp only [index_append, append_assoc] at hrest
        simp only [hdirty, if_true, singleton_append, spliceStretches, hreuse]
        simp only [paintPieces, append_assoc, after_append, outputs, hdirty, if_true] at hrest ⊢
        exact hrest
      · have hclean := hcopy (v.old rank) hnodup
        simpa [paintPieces, outputs, hdirty] using hclean

lemma ranks_nodup : (v.pieces.filterMap Piece.rank?).Nodup :=
  v.once.nodup_iff.mpr nodup_range

lemma dirtyRanks_pairwise : (dirtyRanks v 0).Pairwise (· < ·) :=
  pairwise_lt_range.filter _

lemma dirtyRanks_perm : (dirtyRanks v 0).Perm ((v.pieces.filterMap Piece.rank?).filter v.isDirty) :=
  (v.once.filter _).symm

lemma splices_of_paintsInOrder (h : v.PaintsInOrder) (front back next : PaintOutput α) :
    spliceStretches ((front.append (paintPieces v.old v.pieces)).append back)
      (front.index.after (paintPieces v.old v.pieces)) front.index
      ((dirtyRanks v 0).map (gapOf v painted front.index v.pieces)) next =
    some (next.append (v.paint painted)) := by
  have hsame : dirtyRanks v 0 = (v.pieces.filterMap Piece.rank?).filter v.isDirty :=
    (dirtyRanks_perm v).eq_of_pairwise (fun a b _ _ hab hba => absurd hba (Nat.lt_asymm hab))
      (dirtyRanks_pairwise v) h
  have hsplice := spliceStretches_paintedGaps v painted back v.pieces front next front.index
    (ranks_nodup v) (fun _ => le_rfl)
  simp only [stretch_self, append_empty] at hsplice
  rw [hsame]
  exact hsplice

end InOrder

section OutOfOrder

variable {rendered next out : PaintOutput α} {stop : PaintIndex}

lemma reusePaint_scene {start : PaintIndex} (h : reusePaint rendered start stop next = some out) :
    start .scene ≤ stop .scene ∧
      ∃ copied, out .scene = next .scene ++ copied ∧ copied.length = stop .scene - start .scene := by
  unfold reusePaint at h
  split at h
  · rename_i hall
    have hscene : start .scene ≤ stop .scene ∧ stop .scene ≤ (rendered .scene).length := by
      simpa using all_eq_true.mp hall .scene (by decide)
    rw [some.injEq] at h
    refine ⟨hscene.1, slice (rendered .scene) (start .scene) (stop .scene), ?_, ?_⟩
    · simp [← h]
    · rw [slice, length_drop, length_take, min_eq_left hscene.2]
  · cases h

variable {cursor : PaintIndex} (outputs : ℕ → PaintOutput α) {pieces : List (Piece α)}

lemma spliceStretches_scene {gaps : List (Gap α)}
    (h : spliceStretches rendered stop cursor gaps next = some out) :
    ∃ added, out .scene = next .scene ++ added := by
  induction gaps generalizing cursor next with
  | nil =>
    obtain ⟨-, copied, hcopied, -⟩ := reusePaint_scene h
    exact ⟨copied, hcopied⟩
  | cons gap gaps ih =>
    rw [spliceStretches] at h
    split at h
    · cases h
    · rename_i reused hreused
      obtain ⟨-, copied, hcopied, -⟩ := reusePaint_scene hreused
      obtain ⟨added, hadded⟩ := ih h
      refine ⟨copied ++ gap.painted .scene ++ added, ?_⟩
      simp only [hadded, append, hcopied, List.append_assoc]

lemma spliceStretches_scene_before {early late : List (Gap α)} {gap : Gap α}
    (hearly : ∀ gap ∈ early, gap.painted .scene = [] ∧ gap.start .scene ≤ gap.stop .scene)
    (h : spliceStretches rendered stop cursor (early ++ gap :: late) next = some out) :
    ∃ copied added, out .scene = next .scene ++ copied ++ gap.painted .scene ++ added ∧
      copied.length + cursor .scene ≤ gap.start .scene := by
  induction early generalizing cursor next with
  | nil =>
    rw [nil_append, spliceStretches] at h
    split at h
    · cases h
    · rename_i reused hreused
      obtain ⟨hle, copied, hcopied, hlength⟩ := reusePaint_scene hreused
      obtain ⟨added, hadded⟩ := spliceStretches_scene h
      refine ⟨copied, added, ?_, by omega⟩
      rw [hadded, append, hcopied]
  | cons first early ih =>
    rw [cons_append, spliceStretches] at h
    split at h
    · cases h
    · rename_i reused hreused
      obtain ⟨hle, copied, hcopied, hlength⟩ := reusePaint_scene hreused
      obtain ⟨hempty, hforward⟩ := hearly first mem_cons_self
      obtain ⟨more, added, hadded, hmore⟩ :=
        ih (fun gap hgap => hearly gap (mem_cons_of_mem _ hgap)) h
      refine ⟨copied ++ more, added, ?_, ?_⟩
      · simp only [hadded, append, hcopied, hempty, append_nil, List.append_assoc]
      · rw [length_append]
        omega

lemma paintPieces_append (early late : List (Piece α)) :
    paintPieces outputs (early ++ late) =
      (paintPieces outputs early).append (paintPieces outputs late) := by
  induction early with
  | nil =>
    funext array
    rfl
  | cons piece early ih => cases piece <;> simp only [cons_append, paintPieces, ih, append_assoc]

lemma paintPieces_scene_le {new old : ℕ → PaintOutput α} (h : ∀ rank ∈ pieces.filterMap Piece.rank?,
      (new rank .scene).length ≤ (old rank .scene).length) :
    (paintPieces new pieces .scene).length ≤ (paintPieces old pieces .scene).length := by
  induction pieces with
  | nil => exact le_rfl
  | cons piece pieces ih =>
    cases piece with
    | own output =>
      have hrest := ih h
      simp only [paintPieces, append, length_append]
      omega
    | view rank =>
      have hrest := ih (fun rank' hrank' => h rank' (mem_cons_of_mem _ hrank'))
      have hrank := h rank mem_cons_self
      simp only [paintPieces, append, length_append]
      omega

lemma exists_inversion {isDirty : ℕ → Bool} (hnodup : (pieces.filterMap Piece.rank?).Nodup)
    (h : ¬ ((pieces.filterMap Piece.rank?).filter isDirty).Pairwise (· < ·)) :
    ∃ early high late low, pieces = early ++ .view high :: late ∧
      low ∈ late.filterMap Piece.rank? ∧ isDirty high ∧ isDirty low ∧ low < high := by
  induction pieces with
  | nil => simp at h
  | cons piece pieces ih =>
    cases piece with
    | own output =>
      obtain ⟨early, high, late, low, hpieces, hlow⟩ := ih hnodup h
      exact ⟨.own output :: early, high, late, low, by rw [hpieces, cons_append], hlow⟩
    | view rank =>
      obtain ⟨hnotin, hrest⟩ := nodup_cons.mp hnodup
      by_cases hlater : ((pieces.filterMap Piece.rank?).filter isDirty).Pairwise (· < ·)
      · simp only [filterMap_cons, Piece.rank?, filter_cons] at h
        split at h
        · rename_i hdirty
          rw [pairwise_cons] at h
          obtain ⟨low, hlow, hle⟩ : ∃ low ∈ (pieces.filterMap Piece.rank?).filter isDirty,
              ¬ rank < low := by
            by_contra hnone
            push Not at hnone
            exact h ⟨hnone, hlater⟩
          obtain ⟨hmem, hlowDirty⟩ := mem_filter.mp hlow
          have hne : low ≠ rank := fun heq => hnotin (heq ▸ hmem)
          exact ⟨[], rank, pieces, low, rfl, hmem, hdirty, hlowDirty, by omega⟩
        · exact absurd hlater h
      · obtain ⟨early, high, late, low, hpieces, hlow⟩ := ih hrest hlater
        exact ⟨.view rank :: early, high, late, low, by rw [hpieces, cons_append], hlow⟩

lemma startOf_le (rank : ℕ) (start : PaintIndex) (pieces : List (Piece α)) (array : PaintArray) :
    startOf outputs rank start pieces array ≤
      start array + (paintPieces outputs pieces array).length := by
  induction pieces generalizing start with
  | nil => exact Nat.le_add_right _ _
  | cons piece pieces ih =>
    cases piece with
    | own output =>
      refine (ih (start.after output)).trans ?_
      simp only [PaintIndex.after, paintPieces, append, length_append]
      omega
    | view rank' =>
      rw [startOf]
      split
      · exact Nat.le_add_right _ _
      · refine (ih (start.after (outputs rank'))).trans ?_
        simp only [PaintIndex.after, paintPieces, append, length_append]
        omega

lemma getElem?_replicate_within {front back : List α} {a : α} {n : ℕ} (h : front.length ≤ n) :
    (front ++ List.replicate (n + 1) a ++ back)[n]? = some a := by
  rw [List.append_assoc, getElem?_append_right h, getElem?_append_left (by simp),
    getElem?_replicate, if_pos (by omega)]

/-- Two views painted again, each leaving more scene than the whole view did last frame, and the
others leaving nothing. -/
def twoPainted (n low high : ℕ) (a b : α) (rank : ℕ) : PaintOutput α
  | .scene =>
    if rank = low then List.replicate n a else if rank = high then List.replicate n b else []
  | _ => []

lemma isDirty_lt {v : RetainedView α} {rank : ℕ} (h : v.isDirty rank) : rank < v.views.length := by
  by_contra hge
  rw [RetainedView.isDirty, getElem?_eq_none (Nat.not_lt.mp hge)] at h
  cases h

lemma paintsInOrder_of_splices [Nontrivial α] (v : RetainedView α) (front back next : PaintOutput α)
    (h : ∀ painted, spliceStretches ((front.append (paintPieces v.old v.pieces)).append back)
      (front.index.after (paintPieces v.old v.pieces)) front.index
      ((dirtyRanks v 0).map (gapOf v painted front.index v.pieces)) next =
        some (next.append (v.paint painted))) : v.PaintsInOrder := by
  by_contra hnot
  obtain ⟨a, b, hab⟩ := exists_pair_ne α
  obtain ⟨early, high, late, low, hpieces, hlow, hhighDirty, hlowDirty, hlt⟩ :=
    exists_inversion (ranks_nodup v) hnot
  let n := (paintPieces v.old v.pieces .scene).length
  let painted := twoPainted (n + 1) low high a b
  -- The splice paints the lower rank first: nothing it copies before it is longer than the view.
  have hspliced : (v.paint painted .scene)[n]? = some a := by
    have hmem : low ∈ dirtyRanks v 0 := by
      refine mem_filter.mpr ⟨?_, hlowDirty⟩
      simpa using isDirty_lt hlowDirty
    obtain ⟨before, later, hranks⟩ := append_of_mem hmem
    have hbefore : ∀ rank ∈ before, rank < low := by
      have hsorted := dirtyRanks_pairwise v
      rw [hranks, pairwise_append] at hsorted
      exact fun rank hrank => hsorted.2.2 rank hrank low mem_cons_self
    have hsplice := h painted
    rw [hranks, map_append, map_cons] at hsplice
    obtain ⟨copied, added, hout, hlength⟩ := spliceStretches_scene_before (by
      intro gap hgap
      obtain ⟨rank, hrank, rfl⟩ := mem_map.mp hgap
      have hrankLow := hbefore rank hrank
      refine ⟨?_, Nat.le_add_right _ _⟩
      simp only [gapOf, painted, twoPainted, if_neg (show rank ≠ low by omega),
        if_neg (show rank ≠ high by omega)]) hsplice
    have hstart := startOf_le v.old low front.index v.pieces .scene
    simp only [append, List.append_assoc] at hout
    have hscene := append_cancel_left hout
    rw [hscene, ← List.append_assoc]
    simp only [gapOf, painted, twoPainted, if_true] at hlength ⊢
    exact getElem?_replicate_within (by omega)
  -- From scratch the higher rank is painted first.
  have hscratch : (v.paint painted .scene)[n]? = some b := by
    have hnodup := ranks_nodup v
    rw [hpieces, filterMap_append, filterMap_cons] at hnodup
    have hapart := (nodup_append.mp hnodup).2.2
    have hearly : (paintPieces (outputs v painted) early .scene).length ≤ n := by
      have hle : (paintPieces (outputs v painted) early .scene).length ≤
          (paintPieces v.old early .scene).length := by
        refine paintPieces_scene_le fun rank hrank => ?_
        have hneHigh := hapart rank hrank high mem_cons_self
        have hneLow := hapart rank hrank low (mem_cons_of_mem _ hlow)
        rw [outputs]
        split
        · simp [painted, twoPainted, hneLow, hneHigh]
        · exact le_rfl
      refine hle.trans ?_
      simp only [n]
      rw [hpieces, paintPieces_append, append, length_append]
      exact Nat.le_add_right _ _
    have hpaint : v.paint painted = paintPieces (outputs v painted) v.pieces := rfl
    have hhigh : outputs v painted high .scene = List.replicate (n + 1) b := by
      simp [outputs, hhighDirty, painted, twoPainted, (show high ≠ low by omega)]
    rw [hpaint, hpieces, paintPieces_append, append, paintPieces, append,
      hhigh, ← List.append_assoc]
    exact getElem?_replicate_within hearly
  rw [hspliced] at hscratch
  exact hab (some.inj hscratch)

end OutOfOrder

/-- Splicing leaves what painting the view again would, whatever its dirty views paint. Last frame
painted `before`, the view and `after`; its records are `earlier`, the view's and `later`. -/
def SplicesAsPainted (v : RetainedView α) (before after next : PaintOutput α)
    (earlier later : List RetainedSubtree) (gaps : List ℕ) : Prop :=
  ∀ painted : ℕ → PaintOutput α,
    splicePaint ((before.append (paintPieces v.old v.pieces)).append after)
      (earlier ++ v.records before.index ++ later) earlier.length gaps painted next =
    some (next.append (v.paint (fun rank => painted (earlier.length + v.recordIndex rank))))

lemma exists_painted (v : RetainedView α) (first : ℕ) (painted : ℕ → PaintOutput α) :
    ∃ byRecord : ℕ → PaintOutput α,
      ∀ rank, v.isDirty rank → byRecord (first + v.recordIndex rank) = painted rank := by
  have hinj : Set.InjOn (fun rank => first + v.recordIndex rank) {rank | v.isDirty rank} := by
    intro rank hrank rank' hrank' heq
    rcases Nat.lt_trichotomy rank rank' with hlt | rfl | hlt
    · have := recordIndex_lt v hlt (isDirty_lt hrank)
      simp only at heq
      omega
    · rfl
    · have := recordIndex_lt v hlt (isDirty_lt hrank')
      simp only at heq
      omega
  exact ⟨fun index => painted (Function.invFunOn (fun rank => first + v.recordIndex rank)
    {rank | v.isDirty rank} index), fun rank hrank => congrArg painted
      (hinj.leftInvOn_invFunOn hrank)⟩

/-- A splice paints what the view would from scratch, without slicing backwards, exactly when the
dirty views are painted in the order they were prepainted. -/
theorem splicesAsPainted_iff [Nontrivial α] (v : RetainedView α) (before after next : PaintOutput α)
    (earlier later : List RetainedSubtree) (gaps : List ℕ)
    (hgaps : spliceGaps (earlier ++ v.records before.index ++ later) earlier.length = some gaps) :
    SplicesAsPainted v before after next earlier later gaps ↔ v.PaintsInOrder := by
  constructor
  · intro h
    refine paintsInOrder_of_splices v before after next fun painted => ?_
    obtain ⟨byRecord, hbyRecord⟩ := exists_painted v earlier.length painted
    have hsplice := h byRecord
    rw [splicePaint_eq v before.index hgaps] at hsplice
    have hgapsSame : (dirtyRanks v 0).map (gapOf v painted before.index v.pieces) =
        (dirtyRanks v 0).map (gapOf v (fun rank => byRecord (earlier.length + v.recordIndex rank))
          before.index v.pieces) := by
      refine map_congr_left fun rank hrank => ?_
      simp only [gapOf, hbyRecord rank (mem_filter.mp hrank).2]
    have houtputs : v.paint painted =
        v.paint (fun rank => byRecord (earlier.length + v.recordIndex rank)) := by
      refine congrArg (fun outputs => paintPieces outputs v.pieces) (funext fun rank => ?_)
      split
      · rename_i hdirty
        exact (hbyRecord rank hdirty).symm
      · rfl
    rw [hgapsSame, houtputs, hsplice]
  · intro h painted
    rw [splicePaint_eq v before.index hgaps]
    exact splices_of_paintsInOrder v _ h before after next

def sceneOnly (scene : List ℕ) : PaintOutput ℕ
  | .scene => scene
  | _ => []

def dirtyPair : RetainedView ℕ where
  views := [⟨[], true, true, sceneOnly [1]⟩, ⟨[], true, true, sceneOnly [2]⟩]
  pieces := [.view 0, .own (sceneOnly [3]), .view 1]
  once := by decide

theorem splicesAsPainted_dirtyPair :
    SplicesAsPainted dirtyPair (sceneOnly [0]) (sceneOnly [4]) (sceneOnly []) [] [] [1, 2] :=
  (splicesAsPainted_iff dirtyPair (sceneOnly [0]) (sceneOnly [4]) (sceneOnly []) [] [] [1, 2]
    (by decide)).mpr (by decide)

def reversedPair : RetainedView ℕ where
  views := [⟨[], true, true, sceneOnly [1]⟩, ⟨[], true, true, sceneOnly [2]⟩]
  pieces := [.view 1, .view 0]
  once := by decide

/-- The splice copies the second view's old paint before it paints the first, and then slices
from the first view's end back to the second's start. -/
theorem splicePaint_reversedPair :
    spliceGaps (reversedPair.records (fun _ => 0)) 0 = some [1, 2] ∧
      splicePaint (paintPieces reversedPair.old reversedPair.pieces)
        (reversedPair.records (fun _ => 0)) 0 [1, 2] (fun index => sceneOnly [10 * index])
        (sceneOnly []) = none := by
  decide

end GpuiFast.Splice
