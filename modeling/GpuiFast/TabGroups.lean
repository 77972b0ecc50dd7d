import GpuiFast.TabStopCycle

/-! Groups of one parent are told apart by their tab indices only. The stops of groups of one index are
ordered by their places within their own groups, as if the groups were one. -/

namespace GpuiFast

open List Option

def nested : ℕ → List TabStopOperation → Bool
  | depth, [] => depth == 0
  | depth, .insert _ :: ops => nested depth ops
  | depth, .group _ :: ops => nested (depth + 1) ops
  | 0, .groupEnd :: _ => false
  | depth + 1, .groupEnd :: ops => nested depth ops

def insertedStops (ops : List TabStopOperation) : List FocusHandle :=
  ((placed [] 0 ops).map Prod.snd).filter FocusHandle.tabStop

def stopPaths (ops : List TabStopOperation) : List (List ℤ) :=
  ((placed [] 0 ops).filter (fun p => p.2.tabStop)).map (fun p => p.1.path)

def siblingGroups (before inFirst between inSecond after : List TabStopOperation) (first second : ℤ) :
    List TabStopOperation :=
  before ++ .group first :: inFirst ++ .groupEnd :: between ++
    .group second :: inSecond ++ .groupEnd :: after

lemma dropLast_append_of_length {path groups : List ℤ} {depth : ℕ} (h : groups.length = depth + 1) :
    (path ++ groups).dropLast = path ++ groups.dropLast ∧ groups.dropLast.length = depth := by
  have hne : groups ≠ [] := ne_nil_of_length_eq_add_one h
  refine ⟨dropLast_append_of_ne_nil hne, ?_⟩
  rw [length_dropLast, h]
  rfl

lemma groupPath_nested {depth : ℕ} {ops : List TabStopOperation} (h : nested depth ops)
    (path : List ℤ) {groups : List ℤ} (hgroups : groups.length = depth) :
    groupPath (path ++ groups) ops = path := by
  induction ops generalizing depth groups with
  | nil =>
    have hdepth : depth = 0 := by simpa [nested] using h
    rw [groupPath, eq_nil_of_length_eq_zero (hgroups.trans hdepth), append_nil]
  | cons op ops ih =>
    cases op with
    | insert handle => exact ih h hgroups
    | group tabIndex =>
      rw [groupPath, append_assoc]
      exact ih h (by rw [length_append, hgroups]; rfl)
    | groupEnd =>
      cases depth with
      | zero => cases h
      | succ depth =>
        obtain ⟨hdrop, hlength⟩ := @dropLast_append_of_length path groups depth hgroups
        rw [groupPath, hdrop]
        exact ih h hlength

lemma placed_nested {depth : ℕ} {ops : List TabStopOperation} (h : nested depth ops)
    (path : List ℤ) (index start : ℕ) {groups : List ℤ} (hgroups : groups.length = depth) :
    placed (path ++ groups) (index + start) ops = (placed groups start ops).map
      (fun p => (.of (path ++ p.1.path) (index + p.1.index), p.2)) := by
  induction ops generalizing depth groups start with
  | nil => rfl
  | cons op ops ih =>
    cases op with
    | insert handle =>
      rw [placed, placed, map_cons, ← ih h (start + 1) hgroups, append_assoc]
      rfl
    | group tabIndex =>
      rw [placed, placed, append_assoc]
      exact ih h (start + 1) (by rw [length_append, hgroups]; rfl)
    | groupEnd =>
      cases depth with
      | zero => cases h
      | succ depth =>
        obtain ⟨hdrop, hlength⟩ := @dropLast_append_of_length path groups depth hgroups
        rw [placed, placed, hdrop]
        exact ih h (start + 1) hlength

lemma placed_inside {ops : List TabStopOperation} (h : nested 0 ops) (path : List ℤ) (index : ℕ) :
    placed path index ops = (placed [] 0 ops).map
      (fun p => (.of (path ++ p.1.path) (index + p.1.index), p.2)) := by
  have hplaced := @placed_nested 0 ops h path index 0 [] rfl
  rwa [append_nil] at hplaced

lemma groupPath_inside {ops : List TabStopOperation} (h : nested 0 ops) (path : List ℤ) :
    groupPath path ops = path := by
  have hpath := @groupPath_nested 0 ops h path [] rfl
  rwa [append_nil] at hpath

namespace TabStopKey

lemma of_lt_of {path path' : List ℤ} {index index' : ℕ} :
    of path index < of path' index' ↔ path < path' ∨ path = path' ∧ index < index' :=
  Prod.Lex.toLex_lt_toLex

end TabStopKey

lemma append_lt_append_left {path groups groups' : List ℤ} :
    path ++ groups < path ++ groups' ↔ groups < groups' := by
  induction path with
  | nil => rfl
  | cons tabIndex path ih =>
    rw [cons_append, cons_append, cons_lt_cons_iff, ih]
    simp

lemma inGroups_lt {path groups groups' : List ℤ} {first second : ℤ} {index index' : ℕ} :
    TabStopKey.of (path ++ first :: groups) index < .of (path ++ second :: groups') index' ↔
      first < second ∨ first = second ∧ (groups < groups' ∨ groups = groups' ∧ index < index') := by
  rw [TabStopKey.of_lt_of, append_lt_append_left, cons_lt_cons_iff,
    append_cancel_left_eq, List.cons.injEq]
  tauto

def ComeBefore (order handles handles' : List FocusHandle) : Prop :=
  ∀ a ∈ handles, ∀ b ∈ handles', [a, b].Sublist order

lemma pair_sublist_of_pairwise {α : Type*} {r : α → α → Prop} {l : List α} (h : l.Pairwise r)
    (hasymm : ∀ a b, r a b → ¬ r b a) {a b : α} (ha : a ∈ l) (hb : b ∈ l) (hab : r a b) :
    [a, b].Sublist l := by
  induction l with
  | nil => cases ha
  | cons c l ih =>
    obtain ⟨hc, hl⟩ := pairwise_cons.mp h
    rcases mem_cons.mp ha with rfl | ha'
    · rcases mem_cons.mp hb with rfl | hb'
      · exact absurd hab (hasymm _ _ hab)
      · exact (singleton_sublist.mpr hb').cons_cons a
    · rcases mem_cons.mp hb with rfl | hb'
      · exact absurd hab (hasymm _ _ (hc a ha'))
      · exact (ih hl ha' hb').cons c

namespace TabStopMap

variable {ops : List TabStopOperation}

lemma tabStops_pair (hdistinct : DistinctHandles ops) {p q : TabStopKey × FocusHandle}
    (hp : p ∈ placed [] 0 ops) (hq : q ∈ placed [] 0 ops) (hpstop : p.2.tabStop = true)
    (hqstop : q.2.tabStop = true) : [p.2, q.2].Sublist (tabStops ops) ↔ p.1 < q.1 := by
  have hof : ∀ p ∈ placed [] 0 ops, ∀ q ∈ placed [] 0 ops, p.2 = q.2 → p = q :=
    fun p hp q hq heq => inj_on_of_nodup_map hdistinct hp hq (congrArg FocusHandle.id heq)
  constructor
  · intro hsub
    have hsub' : [p.2, q.2].Sublist ((tabOrder ops).map Prod.snd) :=
      hsub.trans filter_sublist
    obtain ⟨pair, hpair, hmap⟩ := sublist_map_iff.mp hsub'
    obtain ⟨p', rest, rfl, hp', hrest⟩ := map_eq_cons_iff.mp hmap.symm
    obtain ⟨q', rest', rfl, hq', hnil⟩ := map_eq_cons_iff.mp hrest
    obtain rfl := map_eq_nil_iff.mp hnil
    have hmem : ∀ x ∈ [p', q'], x ∈ placed [] 0 ops :=
      fun x hx => mem_tabOrder.mp (hpair.subset hx)
    rw [hof p hp p' (hmem p' (by simp)) hp'.symm, hof q hq q' (hmem q' (by simp)) hq'.symm]
    have hpairwise : [p', q'].Pairwise (fun a b => a.1 < b.1) := (tabOrder_strict ops).sublist hpair
    exact rel_of_pairwise_cons hpairwise (by simp)
  · intro hlt
    have hpair := pair_sublist_of_pairwise (tabOrder_strict ops) (fun _ _ h => lt_asymm h)
      (mem_tabOrder.mpr hp) (mem_tabOrder.mpr hq) hlt
    have hfilter := (hpair.map Prod.snd).filter FocusHandle.tabStop
    rwa [map_cons, map_cons, map_nil, filter_cons_of_pos hpstop,
      filter_cons_of_pos hqstop, filter_nil] at hfilter

lemma placed_siblings {before inFirst between inSecond after : List TabStopOperation}
    {first second : ℤ} (hfirst : nested 0 inFirst) (hbetween : nested 0 between)
    (hsecond : nested 0 inSecond) :
    ∃ path index index', index + inFirst.length < index' ∧
      (∀ p ∈ placed [] 0 inFirst, (.of (path ++ first :: p.1.path) (index + p.1.index), p.2) ∈
        placed [] 0 (siblingGroups before inFirst between inSecond after first second)) ∧
      ∀ p ∈ placed [] 0 inSecond, (.of (path ++ second :: p.1.path) (index' + p.1.index), p.2) ∈
        placed [] 0 (siblingGroups before inFirst between inSecond after first second) := by
  have hgroup : ∀ (path : List ℤ) (index : ℕ) (tabIndex : ℤ) {ops : List TabStopOperation},
      nested 0 ops → ∀ p ∈ placed [] 0 ops, (.of (path ++ tabIndex :: p.1.path)
        (index + 1 + p.1.index), p.2) ∈ placed path index (.group tabIndex :: ops) := by
    intro path index tabIndex ops hnested p hp
    rw [placed, placed_inside hnested]
    refine List.mem_map.mpr ⟨p, hp, ?_⟩
    rw [append_assoc]
    rfl
  -- the first group is ended when the second begins
  have hpath : groupPath (groupPath [] before)
      (.group first :: inFirst ++ .groupEnd :: between) = groupPath [] before := by
    rw [groupPath_append, groupPath, groupPath_inside hfirst, groupPath, dropLast_concat,
      groupPath_inside hbetween]
  refine ⟨groupPath [] before, before.length + 1,
    before.length + (inFirst.length + 1 + (between.length + 1)) + 1, by omega, fun p hp => ?_,
    fun p hp => ?_⟩
  · rw [siblingGroups, append_assoc, append_assoc, append_assoc, placed_append,
      placed_append]
    refine mem_append_right _ (mem_append_left _ ?_)
    have hmem := hgroup (groupPath [] before) before.length first hfirst p hp
    rwa [Nat.zero_add]
  · rw [siblingGroups, append_assoc before, append_assoc, append_assoc,
      placed_append, placed_append, hpath, placed_append _ _ (.group second :: inSecond)]
    refine mem_append_right _ (mem_append_right _ (mem_append_left _ ?_))
    have hmem := hgroup (groupPath [] before)
      (before.length + (inFirst.length + 1 + (between.length + 1))) second hsecond p hp
    rwa [Nat.zero_add, length_append, length_cons, length_cons]

lemma Holds.traverse_none {map : TabStopMap} (h : map.Holds ops)
    (hheight : map.order.height < STACK_CAPACITY) :
    traverse map.next (tabStops ops).length none = some (tabStops ops) := by
  have hround := h.goesRound_next hheight
  cases hstops : tabStops ops with
  | nil => rfl
  | cons stop stops =>
    rw [hstops] at hround
    have hfirst : (stop :: stops)[0]? = some stop := rfl
    have hrest := hround.traverse hfirst (Nat.le_succ stops.length)
    rw [length_cons, traverse, h.next_none hheight, hstops]
    simp only [head?_cons, bind_eq_bind, bind_some]
    rw [hrest, rotate_cons_succ, rotate_zero, take_left' rfl]
    rfl

lemma mem_insertedStops {a : FocusHandle} :
    a ∈ insertedStops ops ↔ ∃ p ∈ placed [] 0 ops, p.2.tabStop = true ∧ p.2 = a := by
  rw [insertedStops, mem_filter, List.mem_map]
  constructor
  · rintro ⟨⟨p, hp, rfl⟩, hstop⟩
    exact ⟨p, hp, hstop, rfl⟩
  · rintro ⟨p, hp, hstop, rfl⟩
    exact ⟨⟨p, hp, rfl⟩, hstop⟩

lemma mem_stopPaths {path : List ℤ} :
    path ∈ stopPaths ops ↔ ∃ p ∈ placed [] 0 ops, p.2.tabStop = true ∧ p.1.path = path := by
  rw [stopPaths, List.mem_map]
  constructor
  · rintro ⟨p, hp, rfl⟩
    exact ⟨p, (mem_filter.mp hp).1, (mem_filter.mp hp).2, rfl⟩
  · rintro ⟨p, hp, hstop, rfl⟩
    exact ⟨p, mem_filter.mpr ⟨hp, hstop⟩, rfl⟩

lemma comeBefore_iff {inFirst inSecond : List TabStopOperation} (hdistinct : DistinctHandles ops)
    (keyOf keyOf' : TabStopKey → TabStopKey)
    (hfirst : ∀ p ∈ placed [] 0 inFirst, (keyOf p.1, p.2) ∈ placed [] 0 ops)
    (hsecond : ∀ p ∈ placed [] 0 inSecond, (keyOf' p.1, p.2) ∈ placed [] 0 ops) :
    ComeBefore (tabStops ops) (insertedStops inFirst) (insertedStops inSecond) ↔
      ∀ p ∈ placed [] 0 inFirst, p.2.tabStop = true → ∀ q ∈ placed [] 0 inSecond,
        q.2.tabStop = true → keyOf p.1 < keyOf' q.1 := by
  constructor
  · intro h p hp hpstop q hq hqstop
    have hsub := h p.2 (mem_insertedStops.mpr ⟨p, hp, hpstop, rfl⟩) q.2
      (mem_insertedStops.mpr ⟨q, hq, hqstop, rfl⟩)
    exact (@tabStops_pair ops hdistinct (keyOf p.1, p.2) (keyOf' q.1, q.2) (hfirst p hp)
      (hsecond q hq) hpstop hqstop).mp hsub
  · intro h a ha b hb
    obtain ⟨p, hp, hpstop, rfl⟩ := mem_insertedStops.mp ha
    obtain ⟨q, hq, hqstop, rfl⟩ := mem_insertedStops.mp hb
    exact (@tabStops_pair ops hdistinct (keyOf p.1, p.2) (keyOf' q.1, q.2) (hfirst p hp)
      (hsecond q hq) hpstop hqstop).mpr (h p hp hpstop q hq hqstop)

lemma index_lt_length {p : TabStopKey × FocusHandle} (hp : p ∈ placed [] 0 ops) :
    p.1.index < ops.length := by
  obtain ⟨i, hi, hop⟩ := placed_operation hp
  have hlt := (List.getElem?_eq_some_iff.mp hop).1
  omega

/-- Two groups of one parent: the tab key comes to all stops of one before all stops of the other if
their indices differ, or the stops of neither are among those of the other by their places within
the groups. -/
theorem siblingGroups_apart_iff (before inFirst between inSecond after : List TabStopOperation)
    (first second : ℤ) (hfirst : nested 0 inFirst) (hbetween : nested 0 between)
    (hsecond : nested 0 inSecond)
    (hdistinct : DistinctHandles (siblingGroups before inFirst between inSecond after first second))
    (hroom : HaveRoom (siblingGroups before inFirst between inSecond after first second)) :
    ∃ map order,
      new.replay (siblingGroups before inFirst between inSecond after first second) = some map ∧
      order.Perm (insertedStops (siblingGroups before inFirst between inSecond after first second)) ∧
      traverse map.next order.length none = some order ∧
      ((ComeBefore order (insertedStops inFirst) (insertedStops inSecond) ∨
          ComeBefore order (insertedStops inSecond) (insertedStops inFirst)) ↔
        first ≠ second ∨ (∀ path ∈ stopPaths inFirst, ∀ path' ∈ stopPaths inSecond, path ≤ path') ∨
          ∀ path ∈ stopPaths inFirst, ∀ path' ∈ stopPaths inSecond, path' < path) := by
  obtain ⟨map, hreplay, h⟩ := holds_replay hdistinct hroom
  have hheight : map.order.height < STACK_CAPACITY := by
    refine hroom (siblingGroups before inFirst between inSecond after first second).length map ?_
    rwa [take_length]
  obtain ⟨path, index, index', hindex, hmem, hmem'⟩ :=
    @placed_siblings before inFirst between inSecond after first second hfirst hbetween hsecond
  refine ⟨map, tabStops _, hreplay, ?_, h.traverse_none hheight, ?_⟩
  · exact ((mergeSort_perm ..).map _).filter _
  have hbefore := comeBefore_iff hdistinct
    (fun key => .of (path ++ first :: key.path) (index + key.index))
    (fun key => .of (path ++ second :: key.path) (index' + key.index)) hmem hmem'
  have hafter := comeBefore_iff hdistinct
    (fun key => .of (path ++ second :: key.path) (index' + key.index))
    (fun key => .of (path ++ first :: key.path) (index + key.index)) hmem' hmem
  -- the first group's operations come first, so of two stops of one place its own is first
  have hlt : ∀ p ∈ placed [] 0 inFirst, ∀ q : TabStopKey,
      index + p.1.index < index' + q.index := by
    intro p hp q
    have := index_lt_length hp
    omega
  rw [hbefore, hafter]
  simp only [inGroups_lt]
  constructor
  · intro hor
    by_cases heq : first = second
    · refine .inr (hor.imp (fun h path hpath path' hpath' => ?_)
        (fun h path hpath path' hpath' => ?_))
      · obtain ⟨p, hp, hpstop, rfl⟩ := mem_stopPaths.mp hpath
        obtain ⟨q, hq, hqstop, rfl⟩ := mem_stopPaths.mp hpath'
        rcases h p hp hpstop q hq hqstop with hfs | ⟨-, hle | ⟨hle, -⟩⟩
        · exact absurd heq hfs.ne
        · exact hle.le
        · exact hle.le
      · obtain ⟨p, hp, hpstop, rfl⟩ := mem_stopPaths.mp hpath
        obtain ⟨q, hq, hqstop, rfl⟩ := mem_stopPaths.mp hpath'
        rcases h q hq hqstop p hp hpstop with hfs | ⟨-, hle | ⟨-, hind⟩⟩
        · exact absurd heq.symm hfs.ne
        · exact hle
        · exact absurd hind (hlt p hp q.1).asymm
    · exact .inl heq
  · intro hor
    by_cases hfs : first = second
    · rcases hor.resolve_left (fun hne => hne hfs) with hle | hlt'
      · refine .inl (fun p hp hpstop q hq hqstop => .inr ⟨hfs, ?_⟩)
        have hpq := hle _ (mem_stopPaths.mpr ⟨p, hp, hpstop, rfl⟩) _
          (mem_stopPaths.mpr ⟨q, hq, hqstop, rfl⟩)
        exact (lt_or_eq_of_le hpq).imp_right (fun h => ⟨h, hlt p hp q.1⟩)
      · refine .inr (fun q hq hqstop p hp hpstop => .inr ⟨hfs.symm, .inl ?_⟩)
        exact hlt' _ (mem_stopPaths.mpr ⟨p, hp, hpstop, rfl⟩) _
          (mem_stopPaths.mpr ⟨q, hq, hqstop, rfl⟩)
    · rcases lt_or_gt_of_ne hfs with hfs | hfs
      · exact .inl (fun p _ _ q _ _ => .inl hfs)
      · exact .inr (fun p _ _ q _ _ => .inl hfs)

def pairOfStops (id : ℕ) : List TabStopOperation := [.insert ⟨id, 0, true⟩, .insert ⟨id + 1, 1, true⟩]

def equalGroups : List TabStopOperation := siblingGroups [] (pairOfStops 1) [] (pairOfStops 3) [] 0 0

lemma haveRoom_equalGroups : HaveRoom equalGroups := by
  have hheights : ∀ count < 9,
      (new.replay (equalGroups.take count)).map (fun map => map.order.height) = some 0 := by
    with_unfolding_all decide
  intro count map hmap
  have hcount : min count 8 < 9 := by omega
  have hheight := hheights (min count 8) hcount
  have htake : equalGroups.take (min count 8) = equalGroups.take count := by
    rw [← take_take]
    rfl
  rw [htake, hmap] at hheight
  rw [show map.order.height = 0 from some.inj hheight]
  decide

theorem siblingGroups_apart_iff_equalGroups :
    ∃ map order, new.replay equalGroups = some map ∧
      traverse map.next order.length none = some order ∧
      ¬ (ComeBefore order (insertedStops (pairOfStops 1)) (insertedStops (pairOfStops 3)) ∨
        ComeBefore order (insertedStops (pairOfStops 3)) (insertedStops (pairOfStops 1))) := by
  obtain ⟨map, order, hreplay, -, htraverse, hiff⟩ :=
    siblingGroups_apart_iff [] (pairOfStops 1) [] (pairOfStops 3) [] 0 0 (by decide) (by decide)
      (by decide) (by decide) haveRoom_equalGroups
  refine ⟨map, order, hreplay, htraverse, fun h => ?_⟩
  exact absurd (hiff.mp h) (by decide)

/-- The tab key goes from one group to the other and back. -/
theorem equalGroups_interleave :
    ∃ map, new.replay equalGroups = some map ∧
      traverse map.next 4 none = some [⟨1, 0, true⟩, ⟨3, 0, true⟩, ⟨2, 1, true⟩, ⟨4, 1, true⟩] ∧
      insertedStops (pairOfStops 1) = [⟨1, 0, true⟩, ⟨2, 1, true⟩] ∧
      insertedStops (pairOfStops 3) = [⟨3, 0, true⟩, ⟨4, 1, true⟩] := by
  have hwalk : (new.replay equalGroups).bind (fun map => traverse map.next 4 none) =
      some [⟨1, 0, true⟩, ⟨3, 0, true⟩, ⟨2, 1, true⟩, ⟨4, 1, true⟩] := by
    with_unfolding_all decide
  obtain ⟨map, hreplay, htraverse⟩ := bind_eq_some_iff.mp hwalk
  exact ⟨map, hreplay, htraverse, by decide, by decide⟩

end TabStopMap

end GpuiFast
