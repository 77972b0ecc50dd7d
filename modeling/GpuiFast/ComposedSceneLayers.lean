import GpuiFast.ComposedSceneReplay
import GpuiFast.CompositionUndo

namespace GpuiFast

open List Option

namespace CompositionTree

variable {S : Type*} [DecidableEq S]

inductive Built : CompositionTree S → Prop
  | new : Built .new
  | insert {tree : CompositionTree S} (id : S) (kind : CompositionSurfaceKind)
      (parent : Option S) : Built tree → tree.surfaces.get? id = none →
      Built (tree.insert id kind parent).1
  | remove {tree : CompositionTree S} (surface : S) : Built tree → Built (tree.remove surface).1
  | placeRelative {tree : CompositionTree S} (surface sibling : S) (above : Bool) :
      Built tree → Built (tree.placeRelative surface sibling above).1
  | reparent {tree : CompositionTree S} {change : CompositionTree S × Except String Unit}
      (surface : S) (parent : Option S) : Built tree →
      tree.reparent surface parent = some change → Built change.1

lemma Built.forest {tree : CompositionTree S} (h : tree.Built) : tree.Forest := by
  induction h with
  | new => exact forest_new
  | @insert tree id kind parent _ hid ih =>
    by_cases hparent : ∀ q, parent = some q → q ∈ tree.nodes
    · obtain ⟨added, hok, -, hforest, -⟩ :=
        insert_adds ih (not_mem_nodes.mpr hid) hparent kind
      rw [hok]
      exact hforest
    · obtain ⟨q, rfl, hq⟩ : ∃ q, parent = some q ∧ q ∉ tree.nodes := by
        simpa using hparent
      rw [insert_error hq]
      exact ih
  | @remove tree surface _ ih =>
    by_cases hmem : surface ∈ tree.nodes
    · obtain ⟨removed, l₁, l₂, hok, hsplit, hnodes, hparent, -, hchildren, hnone⟩ :=
        remove_ok ih hmem
      rw [hok]
      change IsForest _ _ _
      rw [hnodes]
      exact IsForest.remove ih hmem hsplit hparent hchildren hnone
    · rw [remove_error hmem]
      exact ih
  | placeRelative surface sibling above _ ih => exact placeRelative_forest ih _ _ _
  | @reparent tree change surface parent _ hchange ih =>
    rcases reparent_cases ih surface parent with ⟨error, herror⟩ | ⟨hmem, hparent, hunder, hok⟩
    · rw [herror, some.injEq] at hchange
      rw [← hchange]
      exact ih
    · obtain ⟨moved, hmove, hnodes, hparents, -, without, hwithout, hchildren⟩ :=
        moveUnder_ok ih hmem hparent
      rw [hok, hmove, some.injEq] at hchange
      rw [← hchange]
      change IsForest _ _ _
      rw [hnodes, hparents, hchildren]
      exact IsForest.move ih hmem hparent hunder hwithout

end CompositionTree

namespace ClippedScene

variable {K P F : Type*} [Field K] [LinearOrder K] [FloorRing K]

inductive Painted (sprite : RoundedShape K → P) : ClippedScene K P F → Prop
  | default : Painted sprite .default
  | clear {scene : ClippedScene K P F} : Painted sprite scene → Painted sprite scene.clear
  | apply {scene scene' : ClippedScene K P F} (op : StreamOperation K P) : Painted sprite scene →
      scene.apply op = .ok scene' → Painted sprite scene'
  | pushFrame {scene : ClippedScene K P F} (key : ℕ) (frame : F) : Painted sprite scene →
      Painted sprite { scene with frames := scene.frames ++ [.layer key frame] }
  | finish {scene scene' : ClippedScene K P F} : Painted sprite scene →
      scene.finish sprite = .ok scene' → Painted sprite scene'

variable {scene : ClippedScene K P F} {sprite : RoundedShape K → P}

variable {scene' : ClippedScene K P F}

lemma apply_operations {op : StreamOperation K P} (h : scene.apply op = .ok scene') :
    scene'.paintOperations = scene.paintOperations ∨
      kept op ∧ scene'.paintOperations = scene.paintOperations ++ [op] := by
  cases op with
  | recorded op =>
    cases op with
    | insertPrimitive primitive =>
      obtain rfl := Except.ok.inj h
      rw [insertPrimitive]
      split
      · exact .inl rfl
      · rename_i hclipped
        exact .inr ⟨by simpa [kept, SceneOp.recorded] using hclipped, rfl⟩
    | pushLayer bounds =>
      obtain rfl := Except.ok.inj h
      exact .inr ⟨rfl, rfl⟩
    | popLayer =>
      obtain rfl := Except.ok.inj h
      exact .inr ⟨rfl, rfl⟩
  | fastRoundedClip clip =>
    cases clip with
    | start shape =>
      obtain rfl := Except.ok.inj h
      exact .inr ⟨rfl, rfl⟩
    | finish =>
      rw [ClippedScene.apply, record] at h
      split at h
      · simp at h
      · obtain rfl := Except.ok.inj h
        exact .inr ⟨rfl, rfl⟩

lemma finish_operations (h : scene.finish sprite = .ok scene') :
    scene'.paintOperations = scene.paintOperations := by
  rw [finish] at h
  split at h
  · simp at h
  · rename_i compiled hcompile
    obtain rfl := Except.ok.inj h
    rw [compile] at hcompile
    split at hcompile
    · obtain rfl := Except.ok.inj hcompile
      rfl
    · dsimp only at hcompile
      split at hcompile
      · simp at hcompile
      · obtain rfl := Except.ok.inj hcompile
        rfl
      · simp at hcompile

lemma Painted.applyAll {ops : List (StreamOperation K P)} :
    ∀ {scene scene' : ClippedScene K P F}, Painted sprite scene →
      ops.foldlM ClippedScene.apply scene = .ok scene' → Painted sprite scene' := by
  induction ops with
  | nil =>
    intro scene scene' h happly
    obtain rfl : scene = scene' := Except.ok.inj happly
    exact h
  | cons op ops ih =>
    intro scene scene' h happly
    rw [foldlM_cons] at happly
    cases hop : scene.apply op with
    | error error =>
      rw [hop] at happly
      cases show (.error error : Except String (ClippedScene K P F)) = .ok scene' from happly
    | ok applied =>
      rw [hop] at happly
      exact ih (h.apply op hop) happly

lemma Painted.kept (h : scene.Painted sprite) : ∀ op ∈ scene.paintOperations, kept op := by
  induction h with
  | default => simp [ClippedScene.default]
  | clear _ _ => simp [ClippedScene.clear]
  | apply op _ happly ih =>
    rcases apply_operations happly with hsame | ⟨hkept, happend⟩
    · rw [hsame]
      exact ih
    · rw [happend]
      intro other hother
      rcases mem_append.mp hother with hbefore | hlast
      · exact ih other hbefore
      · obtain rfl := mem_singleton.mp hlast
        exact hkept
  | pushFrame key frame _ ih => exact ih
  | finish _ hfinish ih =>
    rw [finish_operations hfinish]
    exact ih

end ClippedScene

namespace SurfaceStarts

variable {S : Type*}

def paintedOn (starts : SurfaceStarts S) (index : ℕ) : Option S :=
  (starts.filter (·.2 ≤ index)).getLast?.map Prod.fst

def Tiles : ℕ → List (S × ℕ × ℕ) → ℕ → Prop
  | start, [], stop => start = stop
  | start, (_, first, last) :: ranges, stop => first = start ∧ first < last ∧ Tiles last ranges stop

lemma paintedOn_cons (surface : S) (start : ℕ) (starts : SurfaceStarts S) (index : ℕ)
    (hstart : start ≤ index) :
    paintedOn ((surface, start) :: starts) index = (paintedOn starts index).or (some surface) := by
  rw [paintedOn, filter_cons_of_pos (by simpa using hstart), paintedOn]
  cases h : (starts.filter (·.2 ≤ index)).getLast? with
  | none => simp [getLast?_eq_none_iff.mp h]
  | some entry => simp [getLast?_cons, h]

variable {starts : SurfaceStarts S} {index : ℕ}

lemma mem_of_paintedOn {surface : S} (h : starts.paintedOn index = some surface) :
    ∃ entry ∈ starts, entry.1 = surface := by
  obtain ⟨entry, hlast, hsurface⟩ := map_eq_some_iff.mp h
  exact ⟨entry, mem_of_mem_filter (mem_of_getLast? hlast), hsurface⟩

variable {ranges : List (S × ℕ × ℕ)} {start stop : ℕ}

lemma Tiles.le (h : Tiles start ranges stop) : start ≤ stop := by
  induction ranges generalizing start with
  | nil => exact Nat.le_of_eq h
  | cons range ranges ih =>
    obtain ⟨rfl, hlt, hrest⟩ := h
    exact hlt.le.trans (ih hrest)

lemma Tiles.mem (h : Tiles start ranges stop) {range : S × ℕ × ℕ} (hrange : range ∈ ranges) :
    start ≤ range.2.1 ∧ range.2.1 < range.2.2 ∧ range.2.2 ≤ stop := by
  induction ranges generalizing start with
  | nil => simp at hrange
  | cons first ranges ih =>
    obtain ⟨rfl, hlt, hrest⟩ := h
    rcases mem_cons.mp hrange with rfl | hrange
    · exact ⟨le_rfl, hlt, hrest.le⟩
    · obtain ⟨hle, hin⟩ := ih hrest hrange
      exact ⟨hlt.le.trans hle, hin⟩

lemma Tiles.pairwise (h : Tiles start ranges stop) :
    ranges.Pairwise (fun range range' => range.2.2 ≤ range'.2.1) := by
  induction ranges generalizing start with
  | nil => exact .nil
  | cons range ranges ih =>
    obtain ⟨-, -, hrest⟩ := h
    exact .cons (fun range' hrange' => (hrest.mem hrange').1) (ih hrest)

lemma Tiles.covers (h : Tiles start ranges stop) (hstart : start ≤ index) (hstop : index < stop) :
    ∃ range ∈ ranges, range.2.1 ≤ index ∧ index < range.2.2 := by
  induction ranges generalizing start with
  | nil =>
    have heq : start = stop := h
    omega
  | cons range ranges ih =>
    obtain ⟨surface, first, last⟩ := range
    obtain ⟨rfl, hlt, hrest⟩ := h
    by_cases hin : index < last
    · exact ⟨(surface, first, last), mem_cons_self, hstart, hin⟩
    · obtain ⟨range', hrange', hin'⟩ := ih hrest (not_lt.mp hin)
      exact ⟨range', mem_cons_of_mem _ hrange', hin'⟩

/-- Starts that are in the order of the scene: each is at or before the next, and the last at or
before the end. -/
def InOrder (starts : SurfaceStarts S) (sceneLen : ℕ) : Prop :=
  (starts.map Prod.snd ++ [sceneLen]).Pairwise (· ≤ ·)

lemma composedRanges_ok {sceneLen : ℕ} :
    ∀ {surface : S} {start : ℕ}, InOrder ((surface, start) :: starts) sceneLen →
      ∃ ranges, composedRanges ((surface, start) :: starts) sceneLen = some ranges ∧
        Tiles start ranges sceneLen ∧
        ∀ range ∈ ranges, ∀ index, range.2.1 ≤ index → index < range.2.2 →
          paintedOn ((surface, start) :: starts) index = some range.1 := by
  induction starts with
  | nil =>
    intro surface start horder
    have hle : start ≤ sceneLen := by simpa [InOrder] using horder
    have hmonotonic : ¬ (sceneLen < start ∨ sceneLen < sceneLen) := by omega
    simp only [composedRanges, head?_nil, map_none, getD_none, hmonotonic, if_false, map_some]
    by_cases hlt : start < sceneLen
    · refine ⟨[(surface, start, sceneLen)], by simp [hlt], ⟨rfl, hlt, rfl⟩, ?_⟩
      intro range hrange index hfirst _
      obtain rfl := mem_singleton.mp hrange
      rw [paintedOn_cons _ _ _ _ hfirst]
      rfl
    · exact ⟨[], by simp [hlt], show start = sceneLen by omega, by simp⟩
  | cons next starts ih =>
    intro surface start horder
    obtain ⟨nextSurface, nextStart⟩ := next
    obtain ⟨hfirst, horder'⟩ := pairwise_cons.mp horder
    have hle : start ≤ nextStart := hfirst nextStart (by simp)
    have hend : nextStart ≤ sceneLen :=
      (pairwise_cons.mp horder').1 sceneLen (by simp)
    obtain ⟨ranges, hranges, htiles, hpainted⟩ := ih horder'
    have hlater : ∀ range ∈ ranges, ∀ index, range.2.1 ≤ index → index < range.2.2 →
        paintedOn ((surface, start) :: (nextSurface, nextStart) :: starts) index =
          some range.1 := by
      intro range hrange index hlow hhigh
      have hstart : start ≤ index := by
        have := (htiles.mem hrange).1
        omega
      rw [paintedOn_cons _ _ _ _ hstart, hpainted range hrange index hlow hhigh]
      rfl
    have hmonotonic : ¬ (nextStart < start ∨ sceneLen < nextStart) := by omega
    rw [composedRanges, hranges]
    simp only [head?_cons, map_some, getD_some, hmonotonic, if_false]
    by_cases hlt : start < nextStart
    · refine ⟨(surface, start, nextStart) :: ranges, by simp [hlt], ⟨rfl, hlt, htiles⟩, ?_⟩
      intro range hrange index hlow hhigh
      rcases mem_cons.mp hrange with rfl | hrange
      · -- no later switch is at or before this operation
        have hnone : paintedOn ((nextSurface, nextStart) :: starts) index = none := by
          rw [paintedOn, filter_eq_nil_iff.mpr]
          · rfl
          · intro entry hentry
            have hmem : nextStart ≤ entry.2 := by
              rcases mem_cons.mp hentry with rfl | hentry
              · exact le_rfl
              · exact (pairwise_cons.mp horder').1 _
                  (mem_append_left _ (mem_map_of_mem hentry))
            simpa using hhigh.trans_le hmem
        rw [paintedOn_cons _ _ _ _ hlow, hnone]
        rfl
      · exact hlater range hrange index hlow hhigh
    · obtain rfl : start = nextStart := by omega
      exact ⟨ranges, by simp, htiles, hlater⟩

end SurfaceStarts

section Layers

variable {S : Type*} [DecidableEq S]

variable {starts : SurfaceStarts S}

variable {tree : CompositionTree S} {sceneLen : ℕ} {surfaces : List S} {ranges : List (S × ℕ × ℕ)}

lemma rangesBySurface_ok :
    ∀ {ranges : List (S × ℕ × ℕ)}, (∀ entry ∈ starts, tree.kind entry.1 = some .gpui) →
      starts.composedRanges sceneLen = some ranges →
      ∀ before : KeyMap S (List (ℕ × ℕ)), ∃ after,
        rangesBySurface tree sceneLen starts before = .ok after ∧
        ∀ surface, (after.get? surface).getD [] = (before.get? surface).getD [] ++
          (ranges.filter (·.1 = surface)).map Prod.snd := by
  induction starts with
  | nil =>
    intro ranges _ hranges before
    obtain rfl : [] = ranges := some.inj hranges
    exact ⟨before, rfl, fun surface => by simp⟩
  | cons entry starts ih =>
    intro ranges hgpui hranges before
    obtain ⟨surface, start⟩ := entry
    rw [SurfaceStarts.composedRanges] at hranges
    split at hranges
    · simp at hranges
    · rename_i hmonotonic
      obtain ⟨later, hlater, rfl⟩ := map_eq_some_iff.mp hranges
      rw [rangesBySurface, show tree.kind surface = some .gpui from
        hgpui (surface, start) mem_cons_self]
      dsimp only
      rw [if_neg hmonotonic]
      set stop := (starts.head?.map Prod.snd).getD sceneLen
      obtain ⟨after, hafter, hget⟩ :=
        ih (fun entry hentry => hgpui entry (mem_cons_of_mem _ hentry)) hlater
          (if start < stop then
            before.insert surface ((before.get? surface).getD [] ++ [(start, stop)])
          else before)
      refine ⟨after, hafter, fun other => ?_⟩
      rw [hget]
      by_cases hlt : start < stop
      · rw [if_pos hlt, if_pos hlt, KeyMap.get?_insert]
        by_cases hother : other = surface
        · subst hother
          simp
        · simp [hother, Ne.symm hother]
      · rw [if_neg hlt, if_neg hlt]

lemma layersInOrder_ok :
    ∀ ranges : KeyMap S (List (ℕ × ℕ)), surfaces.Nodup → (∀ s ∈ surfaces, s ∈ tree.nodes) →
      layersInOrder tree surfaces ranges =
        .ok ((surfaces.filter (fun s => tree.kind s = some .gpui)).map
          (fun s => ⟨s, (ranges.get? s).getD []⟩)) := by
  induction surfaces with
  | nil => exact fun _ _ _ => rfl
  | cons surface surfaces ih =>
    intro ranges hnodup hnodes
    obtain ⟨hnot, hnodup'⟩ := nodup_cons.mp hnodup
    have hnodes' : ∀ s ∈ surfaces, s ∈ tree.nodes :=
      fun s hs => hnodes s (mem_cons_of_mem _ hs)
    obtain ⟨kind, hkind⟩ := CompositionTree.kind_isSome_iff.mpr (hnodes surface mem_cons_self)
    rw [layersInOrder, hkind]
    cases kind with
    | gpui =>
      dsimp only
      rw [ih _ hnodup' hnodes', filter_cons_of_pos (by simp [hkind]), map_cons]
      change Except.ok _ = Except.ok _
      congr 2
      refine map_congr_left (fun s hs => ?_)
      have hne : s ≠ surface := by
        rintro rfl
        exact hnot (mem_of_mem_filter hs)
      have hget : (ranges.filter (fun s _ => s ≠ surface)).get? s = ranges.get? s := by
        rw [KeyMap.get?_filter]
        cases ranges.get? s <;> simp [hne]
      rw [hget]
    | native => rw [ih ranges hnodup' hnodes', filter_cons_of_neg (by simp [hkind])]
    | externalGpu => rw [ih ranges hnodup' hnodes', filter_cons_of_neg (by simp [hkind])]

namespace OpenScopes

variable {K P : Type*}

def openAt (ops : List (StreamOperation K P)) (index : ℕ) : OpenScopes K :=
  (after none (ops.take index)).getD none

def stretch (ops : List (StreamOperation K P)) (start stop : ℕ) : List (StreamOperation K P) :=
  (ops.take stop).drop start

variable {start stop : ℕ} {ops : List (StreamOperation K P)}

lemma take_append_stretch (ops : List (StreamOperation K P)) (h : start ≤ stop) :
    ops.take start ++ stretch ops start stop = ops.take stop := by
  rw [stretch]
  conv_rhs => rw [← take_append_drop start (ops.take stop)]
  rw [take_take, min_eq_left h]

lemma stretch_append (ops : List (StreamOperation K P)) {middle : ℕ} (hstart : start ≤ middle)
    (hstop : middle ≤ stop) :
    stretch ops start middle ++ stretch ops middle stop = stretch ops start stop := by
  refine append_cancel_left (?_ : ops.take start ++ _ = ops.take start ++ _)
  rw [← append_assoc, take_append_stretch ops hstart, take_append_stretch ops hstop,
    take_append_stretch ops (hstart.trans hstop)]

lemma after_take (h : Balanced ops) (index : ℕ) :
    after none (ops.take index) = some (openAt ops index) := by
  have hsplit : after none (ops.take index ++ ops.drop index) = some none := by
    rw [take_append_drop]
    exact h
  rw [after_append] at hsplit
  obtain ⟨active, hactive, -⟩ := bind_eq_some_iff.mp hsplit
  rw [openAt, hactive, getD_some]

lemma after_stretch (h : Balanced ops) (hle : start ≤ stop) :
    (openAt ops start).after (stretch ops start stop) = some (openAt ops stop) := by
  have hstop := after_take h stop
  rw [← take_append_stretch ops hle, after_append, after_take h start, bind_some] at hstop
  exact hstop

lemma insideAt_tiles {S : Type*} (h : Balanced ops) {ranges : List (S × ℕ × ℕ)}
    (htiles : SurfaceStarts.Tiles start ranges stop) (hstop : stop ≤ ops.length) :
    insideAt (openAt ops start) start (stretch ops start stop) =
      ranges.flatMap (fun range =>
        insideAt (openAt ops range.2.1) range.2.1 (stretch ops range.2.1 range.2.2)) := by
  induction ranges generalizing start with
  | nil =>
    obtain rfl : start = stop := htiles
    simp [stretch, insideAt]
  | cons range ranges ih =>
    obtain ⟨surface, first, last⟩ := range
    obtain ⟨rfl, hlt, hrest⟩ := htiles
    have hlength : first + (stretch ops first last).length = last := by
      have := hrest.le
      simp only [stretch, length_drop, length_take]
      omega
    rw [← stretch_append ops hlt.le hrest.le, insideAt_append first (after_stretch h hlt.le),
      hlength, ih hrest, flatMap_cons]

end OpenScopes

def painted {K P : Type*} (starts : SurfaceStarts S) (surface : S)
    (ops : List (StreamOperation K P)) : List (Primitive K P × OpenScopes K) :=
  ((OpenScopes.insideAt .none 0 ops).filter (fun entry =>
    starts.paintedOn entry.1 = some surface)).map Prod.snd

lemma flatMap_ite {α β : Type*} (p : α → Bool) (f : α → List β) (l : List α) :
    l.flatMap (fun x => if p x then f x else []) = (l.filter p).flatMap f := by
  induction l with
  | nil => rfl
  | cons x l ih =>
    rw [flatMap_cons, ih]
    cases hx : p x <;> simp [hx]

lemma painted_eq {K P : Type*} {ops : List (StreamOperation K P)} (h : OpenScopes.Balanced ops)
    (htiles : SurfaceStarts.Tiles 0 ranges ops.length)
    (hpainted : ∀ range ∈ ranges, ∀ index, range.2.1 ≤ index → index < range.2.2 →
      starts.paintedOn index = some range.1) (surface : S) :
    painted starts surface ops =
      ((ranges.filter (·.1 = surface)).map Prod.snd).flatMap (fun range =>
        OpenScopes.inside (OpenScopes.openAt ops range.1)
          (OpenScopes.stretch ops range.1 range.2)) := by
  have hall := OpenScopes.insideAt_tiles h htiles le_rfl
  rw [OpenScopes.stretch, take_length, drop_zero] at hall
  have hstretch : ∀ range ∈ ranges,
      (OpenScopes.insideAt (OpenScopes.openAt ops range.2.1) range.2.1
        (OpenScopes.stretch ops range.2.1 range.2.2)).filter
          (fun entry => starts.paintedOn entry.1 = some surface) =
        if range.1 = surface then
          OpenScopes.insideAt (OpenScopes.openAt ops range.2.1) range.2.1
            (OpenScopes.stretch ops range.2.1 range.2.2)
        else [] := by
    intro range hrange
    have hin : ∀ entry ∈ OpenScopes.insideAt (OpenScopes.openAt ops range.2.1) range.2.1
        (OpenScopes.stretch ops range.2.1 range.2.2),
        starts.paintedOn entry.1 = some range.1 := by
      intro entry hentry
      obtain ⟨hlow, hhigh⟩ := OpenScopes.place_insideAt hentry
      obtain ⟨-, hlt, hle⟩ := htiles.mem hrange
      refine hpainted range hrange entry.1 hlow ?_
      simp only [OpenScopes.stretch, length_drop, length_take] at hhigh
      omega
    by_cases hsurface : range.1 = surface
    · rw [if_pos hsurface, filter_eq_self]
      intro entry hentry
      simp [hin entry hentry, hsurface]
    · rw [if_neg hsurface, filter_eq_nil_iff]
      intro entry hentry
      simp [hin entry hentry, hsurface]
  have hnone : OpenScopes.openAt ops 0 = .none := by simp [OpenScopes.openAt, OpenScopes.after]
  calc painted starts surface ops
      = ranges.flatMap (fun range => if decide (range.1 = surface) then
          OpenScopes.inside (OpenScopes.openAt ops range.2.1)
            (OpenScopes.stretch ops range.2.1 range.2.2)
        else []) := by
        rw [painted, ← hnone, hall, filter_flatMap, map_flatMap]
        refine flatMap_congr (fun range hrange => ?_)
        rw [hstretch range hrange]
        by_cases hsurface : range.1 = surface
        · simp [hsurface, OpenScopes.map_insideAt]
        · simp [hsurface]
    _ = _ := by rw [flatMap_ite, flatMap_map]

variable {K P F : Type*} [Field K] [LinearOrder K] [FloorRing K]

lemma replayRanges_ok {source : ClippedScene K P F}
    (hkept : ∀ op ∈ source.paintOperations, ClippedScene.kept op)
    (hbalanced : OpenScopes.Balanced source.paintOperations) {ranges : List (ℕ × ℕ)}
    (hranges : ∀ range ∈ ranges, range.1 ≤ range.2 ∧ range.2 ≤ source.paintOperations.length) :
    ∀ {scene : ClippedScene K P F}, scene.HasOpen .none →
      ∃ scene', ranges.foldlM (fun scene range => scene.replayBalanced range source) scene =
          .ok scene' ∧ scene'.HasOpen .none ∧
        OpenScopes.inside .none scene'.paintOperations =
          OpenScopes.inside .none scene.paintOperations ++ ranges.flatMap (fun range =>
            OpenScopes.inside (OpenScopes.openAt source.paintOperations range.1)
              (OpenScopes.stretch source.paintOperations range.1 range.2)) := by
  induction ranges with
  | nil => exact fun h => ⟨_, rfl, h, by simp⟩
  | cons range ranges ih =>
    intro scene h
    obtain ⟨hle, hstop⟩ := hranges range mem_cons_self
    obtain ⟨replayed, hreplay, hreplayed, hinside⟩ := ClippedScene.replayBalanced_ok h hkept hle
      hstop (OpenScopes.after_take hbalanced range.1) (OpenScopes.after_stretch hbalanced hle)
    obtain ⟨scene', hrest, hscene', hinside'⟩ :=
      ih (fun range hrange => hranges range (mem_cons_of_mem _ hrange)) hreplayed
    refine ⟨scene', ?_, hscene', ?_⟩
    · rw [foldlM_cons, hreplay]
      exact hrest
    · rw [hinside', hinside, append_assoc, flatMap_cons]
      rfl

/-- The ranges of the layers are disjoint and cover the scene, each operation in a range of the
surface it is painted on. -/
structure SplitsScene (starts : SurfaceStarts S) (sceneLen : ℕ) (layers : List (ComposedSceneLayer S)) :
    Prop where
  disjoint : (layers.flatMap (·.ranges)).Pairwise (fun range range' =>
    range.2 ≤ range'.1 ∨ range'.2 ≤ range.1)
  within : ∀ layer ∈ layers, ∀ range ∈ layer.ranges, range.1 < range.2 ∧ range.2 ≤ sceneLen ∧
    ∀ index, range.1 ≤ index → index < range.2 → starts.paintedOn index = some layer.surface
  covers : ∀ index < sceneLen, ∃ layer ∈ layers, starts.paintedOn index = some layer.surface ∧
    ∃ range ∈ layer.ranges, range.1 ≤ index ∧ index < range.2

lemma splitsScene_of_tiles (htiles : SurfaceStarts.Tiles 0 ranges sceneLen)
    (hpainted : ∀ range ∈ ranges, ∀ index, range.2.1 ≤ index → index < range.2.2 →
      starts.paintedOn index = some range.1) (hnodup : surfaces.Nodup)
    (hsurfaces : ∀ range ∈ ranges, range.1 ∈ surfaces) :
    SplitsScene starts sceneLen
      (surfaces.map (fun s => ⟨s, (ranges.filter (·.1 = s)).map Prod.snd⟩)) := by
  have hordered := htiles.pairwise
  constructor
  case disjoint =>
    rw [flatMap_map, pairwise_flatMap]
    constructor
    · intro s _
      rw [pairwise_map]
      exact (hordered.filter _).imp .inl
    · refine Pairwise.imp (fun {s s'} hne => ?_) hnodup
      intro range hrange range' hrange'
      obtain ⟨entry, hentry, rfl⟩ := mem_map.mp hrange
      obtain ⟨entry', hentry', rfl⟩ := mem_map.mp hrange'
      obtain ⟨hmem, hs⟩ := mem_filter.mp hentry
      obtain ⟨hmem', hs'⟩ := mem_filter.mp hentry'
      have hdistinct : entry ≠ entry' := by
        rintro rfl
        exact hne ((of_decide_eq_true hs).symm.trans (of_decide_eq_true hs'))
      have hsymm : Std.Symm (fun entry entry' : S × ℕ × ℕ =>
          entry.2.2 ≤ entry'.2.1 ∨ entry'.2.2 ≤ entry.2.1) := ⟨fun _ _ h => h.symm⟩
      have hall : ranges.Pairwise (fun entry entry' =>
          entry.2.2 ≤ entry'.2.1 ∨ entry'.2.2 ≤ entry.2.1) := hordered.imp .inl
      exact hall.forall hmem hmem' hdistinct
  case within =>
    intro layer hlayer range hrange
    obtain ⟨s, -, rfl⟩ := mem_map.mp hlayer
    obtain ⟨entry, hentry, rfl⟩ := mem_map.mp hrange
    obtain ⟨hmem, hs⟩ := mem_filter.mp hentry
    obtain ⟨-, hlt, hle⟩ := htiles.mem hmem
    refine ⟨hlt, hle, fun index hlow hhigh => ?_⟩
    rw [hpainted entry hmem index hlow hhigh, of_decide_eq_true hs]
  case covers =>
    intro index hindex
    obtain ⟨entry, hentry, hlow, hhigh⟩ := htiles.covers (Nat.zero_le index) hindex
    refine ⟨_, mem_map_of_mem (hsurfaces entry hentry),
      hpainted entry hentry index hlow hhigh, entry.2, ?_, hlow, hhigh⟩
    exact mem_map_of_mem (mem_filter.mpr ⟨hentry, by simp⟩)

/-- Starts in order that begin at the beginning of the scene and name GPUI surfaces of the tree split
the scene. Each layer's scene is balanced and holds the primitives painted on its surface in order,
inside the layers and the rounded clips they were painted in. -/
theorem layerScenes_keep {tree : CompositionTree S} (htree : tree.Built)
    {sprite : RoundedShape K → P} {source : ClippedScene K P F} (hsource : source.Painted sprite)
    (hbalanced : OpenScopes.Balanced source.paintOperations) {starts : SurfaceStarts S}
    (horder : starts.InOrder source.paintOperations.length)
    (hfirst : starts.head?.map Prod.snd = some 0)
    (hgpui : ∀ entry ∈ starts, tree.kind entry.1 = some .gpui) :
    ∃ layers, composedSceneLayers tree starts source.paintOperations.length = some (.ok layers) ∧
      SplitsScene starts source.paintOperations.length layers ∧
      ∀ layer ∈ layers, ∃ scene, layerScene sprite source layer = .ok scene ∧
        OpenScopes.Balanced scene.paintOperations ∧
        OpenScopes.inside .none scene.paintOperations =
          painted starts layer.surface source.paintOperations := by
  obtain ⟨⟨surface, start⟩, later, rfl⟩ : ∃ entry later, starts = entry :: later := by
    cases starts with
    | nil => simp at hfirst
    | cons entry later => exact ⟨entry, later, rfl⟩
  obtain rfl : start = 0 := by simpa using hfirst
  set starts := (surface, 0) :: later with hstarts
  obtain ⟨ranges, hranges, htiles, hpainted⟩ := SurfaceStarts.composedRanges_ok horder
  obtain ⟨bySurface, hbySurface, hget⟩ := rangesBySurface_ok hgpui hranges .empty
  obtain ⟨surfaces, hflattened, hnodup, hmem, -, -⟩ := CompositionTree.flattened_spec htree.forest
  have hget' : ∀ s, (bySurface.get? s).getD [] = (ranges.filter (·.1 = s)).map Prod.snd := by
    intro s
    rw [hget, KeyMap.get?_empty]
    rfl
  have hlayers := layersInOrder_ok bySurface hnodup (fun s hs => (hmem s).mp hs)
  simp only [hget'] at hlayers
  refine ⟨(surfaces.filter (fun s => tree.kind s = some .gpui)).map
    (fun s => ⟨s, (ranges.filter (·.1 = s)).map Prod.snd⟩), ?_, ?_, ?_⟩
  · rw [composedSceneLayers, hbySurface]
    dsimp only
    rw [hflattened, map_some, hlayers]
  · refine splitsScene_of_tiles htiles hpainted (hnodup.filter _) ?_
    intro range hrange
    obtain ⟨-, hlt, -⟩ := htiles.mem hrange
    obtain ⟨entry, hentry, hsurface⟩ :=
      SurfaceStarts.mem_of_paintedOn (hpainted range hrange _ le_rfl hlt)
    have hkind : tree.kind range.1 = some .gpui := hsurface ▸ hgpui entry hentry
    refine mem_filter.mpr ⟨(hmem _).mpr ?_, by simpa using hkind⟩
    exact CompositionTree.kind_isSome_iff.mp ⟨_, hkind⟩
  · intro layer hlayer
    obtain ⟨s, -, rfl⟩ := mem_map.mp hlayer
    have hbounds : ∀ range ∈ (ranges.filter (·.1 = s)).map Prod.snd,
        range.1 ≤ range.2 ∧ range.2 ≤ source.paintOperations.length := by
      intro range hrange
      obtain ⟨entry, hentry, rfl⟩ := mem_map.mp hrange
      obtain ⟨-, hlt, hle⟩ := htiles.mem (mem_of_mem_filter hentry)
      exact ⟨hlt.le, hle⟩
    obtain ⟨replayed, hreplay, hopen, hinside⟩ := replayRanges_ok hsource.kept hbalanced hbounds
      (ClippedScene.hasOpen_default (K := K) (P := P) (F := F))
    obtain ⟨scene, hfinish, hsame⟩ := ClippedScene.finish_ok hopen.after sprite
    refine ⟨scene, ?_, ?_, ?_⟩
    · rw [layerScene, hreplay]
      exact hfinish
    · rw [hsame]
      exact hopen.after
    · rw [hsame, hinside, painted_eq hbalanced htiles hpainted]
      rfl

end Layers

/-- A quad inside of a layer and a clip, painted on the base surface, and another one painted on the
overlay surface before the clip ends. -/
theorem layerScenes_keep_switched :
    let quad : Primitive ℚ Unit := ⟨.quad, ⟨⟨0, 0⟩, ⟨1, 1⟩⟩, ⟨⟨0, 0⟩, ⟨1, 1⟩⟩, ()⟩
    let tree := ((CompositionTree.new.insert 0 .gpui none).1.insert 1 .gpui none).1
    let starts : SurfaceStarts ℕ := [(0, 0), (1, 3), (0, 5)]
    ∃ source : ClippedScene ℚ Unit Unit,
      source.paintOperations =
        [.recorded (.pushLayer ⟨⟨0, 0⟩, ⟨2, 2⟩⟩),
          .fastRoundedClip (.start ⟨⟨⟨0, 0⟩, ⟨1, 1⟩⟩, []⟩), .recorded (.insertPrimitive quad),
          .recorded (.insertPrimitive quad), .fastRoundedClip .finish, .recorded .popLayer] ∧
      ∃ layers, composedSceneLayers tree starts source.paintOperations.length =
          some (.ok layers) ∧
        SplitsScene starts source.paintOperations.length layers ∧
        ∀ layer ∈ layers, ∃ scene, layerScene (fun _ => ()) source layer = .ok scene ∧
          OpenScopes.Balanced scene.paintOperations ∧
          OpenScopes.inside .none scene.paintOperations =
            painted starts layer.surface source.paintOperations := by
  intro quad tree starts
  let ops : List (StreamOperation ℚ Unit) := [.recorded (.pushLayer ⟨⟨0, 0⟩, ⟨2, 2⟩⟩),
    .fastRoundedClip (.start ⟨⟨⟨0, 0⟩, ⟨1, 1⟩⟩, []⟩), .recorded (.insertPrimitive quad),
    .recorded (.insertPrimitive quad), .fastRoundedClip .finish, .recorded .popLayer]
  have hkept : ∀ op ∈ ops, ClippedScene.kept op := by with_unfolding_all decide
  have hafter : OpenScopes.none.after ops = some .none := rfl
  obtain ⟨source, hsource, hops, hopen⟩ :=
    (ClippedScene.hasOpen_default (F := Unit)).applyAll hkept hafter
  have hops : source.paintOperations = _ := hops
  have htree : tree.Built := .insert 1 .gpui none (.insert 0 .gpui none .new rfl) rfl
  have hpainted : source.Painted (fun _ => ()) := ClippedScene.Painted.default.applyAll hsource
  refine ⟨source, hops, layerScenes_keep htree hpainted hopen.after ?_ rfl (by decide)⟩
  rw [hops]
  exact (by decide : [0, 3, 5, 6].Pairwise (· ≤ ·))

end GpuiFast
