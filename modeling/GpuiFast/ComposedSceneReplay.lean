import GpuiFast.ComposedScene

namespace GpuiFast

open List Option

variable {K P F : Type*}

def StreamOperation.primitive? : StreamOperation K P → Option (Primitive K P)
  | .recorded (.insertPrimitive primitive) => some primitive
  | .recorded (.pushLayer _) | .recorded .popLayer | .fastRoundedClip _ => none

namespace OpenScopes

def step (active : OpenScopes K) : StreamOperation K P → Option (OpenScopes K)
  | .recorded (.insertPrimitive _) => some active
  | .recorded (.pushLayer bounds) => some ⟨bounds :: active.layers, active.clips⟩
  | .recorded .popLayer => active.layers.tail?.map (⟨·, active.clips⟩)
  | .fastRoundedClip (.start shape) => some ⟨active.layers, shape :: active.clips⟩
  | .fastRoundedClip .finish => active.clips.tail?.map (⟨active.layers, ·⟩)

def after (active : OpenScopes K) (ops : List (StreamOperation K P)) : Option (OpenScopes K) :=
  ops.foldlM step active

def Balanced (ops : List (StreamOperation K P)) : Prop := after none ops = some none

def insideAt (active : OpenScopes K) (place : ℕ) :
    List (StreamOperation K P) → List (ℕ × Primitive K P × OpenScopes K)
  | [] => []
  | op :: ops =>
    match active.step op with
    | .none => []
    | some next => (op.primitive?.map (place, ·, active)).toList ++ insideAt next (place + 1) ops

def inside (active : OpenScopes K) (ops : List (StreamOperation K P)) :
    List (Primitive K P × OpenScopes K) :=
  (insideAt active 0 ops).map Prod.snd

variable (active : OpenScopes K) {next : OpenScopes K} {ops : List (StreamOperation K P)}

lemma after_append (ops ops' : List (StreamOperation K P)) :
    active.after (ops ++ ops') = (active.after ops).bind (·.after ops') := by
  simp only [after, foldlM_append]
  rfl

lemma after_cons (op : StreamOperation K P) (ops : List (StreamOperation K P)) :
    active.after (op :: ops) = (active.step op).bind (·.after ops) := rfl

variable (place : ℕ) (closesLayer : String)

lemma insideAt_append {active : OpenScopes K} (h : active.after ops = some next)
    (ops' : List (StreamOperation K P)) :
    insideAt active place (ops ++ ops') =
      insideAt active place ops ++ insideAt next (place + ops.length) ops' := by
  induction ops generalizing active place with
  | nil =>
    obtain rfl : active = next := by simpa [after] using h
    simp [insideAt]
  | cons op ops ih =>
    rw [after_cons] at h
    obtain ⟨active', hstep, hrest⟩ := bind_eq_some_iff.mp h
    rw [length_cons, show place + (ops.length + 1) = place + 1 + ops.length by omega]
    simp only [cons_append, insideAt, hstep, ih (place + 1) hrest, append_assoc]

lemma map_insideAt (ops : List (StreamOperation K P)) :
    (insideAt active place ops).map Prod.snd = inside active ops := by
  rw [inside]
  generalize 0 = other
  induction ops generalizing active place other with
  | nil => rfl
  | cons op ops ih =>
    simp only [insideAt]
    cases active.step op with
    | none => rfl
    | some next =>
      dsimp only
      rw [map_append, map_append, ih next (place + 1) (other + 1)]
      cases op.primitive? <;> rfl

lemma inside_append {active : OpenScopes K} (h : active.after ops = some next)
    (ops' : List (StreamOperation K P)) :
    inside active (ops ++ ops') = inside active ops ++ inside next ops' := by
  rw [inside, insideAt_append 0 h, map_append, map_insideAt, map_insideAt]

lemma place_insideAt {active : OpenScopes K} {place : ℕ} {entry : ℕ × Primitive K P × OpenScopes K}
    (h : entry ∈ insideAt active place ops) : place ≤ entry.1 ∧ entry.1 < place + ops.length := by
  induction ops generalizing active place with
  | nil => simp [insideAt] at h
  | cons op ops ih =>
    simp only [insideAt] at h
    cases hstep : active.step op with
    | none => simp [hstep] at h
    | some next =>
      rw [hstep] at h
      rcases mem_append.mp h with hop | hops
      · cases hprimitive : op.primitive? with
        | none => simp [hprimitive] at hop
        | some primitive =>
          obtain rfl : entry = (place, primitive, active) := by simpa [hprimitive] using hop
          simp
      · have := ih hops
        simp only [length_cons]
        omega

lemma inside_of_no_primitive {active : OpenScopes K} (h : ∀ op ∈ ops, op.primitive? = .none) :
    inside active ops = [] := by
  rw [inside]
  generalize 0 = place
  induction ops generalizing active place with
  | nil => rfl
  | cons op ops ih =>
    simp only [insideAt, h op mem_cons_self]
    cases active.step op with
    | none => rfl
    | some next => simpa using ih (fun op hop => h op (mem_cons_of_mem _ hop)) (place + 1)

lemma track_ok {active : OpenScopes K} {op : StreamOperation K P} (h : active.step op = some next) :
    active.track closesLayer op = .ok next := by
  obtain ⟨layers, clips⟩ := active
  cases op with
  | recorded op =>
    cases op with
    | insertPrimitive primitive => simpa [step, track] using h
    | pushLayer bounds => simpa [step, track] using h
    | popLayer => cases layers <;> simp_all [step, track]
  | fastRoundedClip clip =>
    cases clip with
    | start shape => simpa [step, track] using h
    | finish => cases clips <;> simp_all [step, track]

lemma track_all {active : OpenScopes K} (h : active.after ops = some next) :
    ops.foldlM (track closesLayer) active = .ok next := by
  induction ops generalizing active with
  | nil =>
    obtain rfl : active = next := by simpa [after] using h
    rfl
  | cons op ops ih =>
    rw [after_cons] at h
    obtain ⟨active', hstep, hrest⟩ := bind_eq_some_iff.mp h
    rw [foldlM_cons, track_ok closesLayer hstep]
    exact ih hrest

def opening (active : OpenScopes K) : List (StreamOperation K P) :=
  active.layers.reverse.map (fun bounds => .recorded (.pushLayer bounds)) ++
    active.clips.reverse.map (fun shape => .fastRoundedClip (.start shape))

def closing (active : OpenScopes K) : List (StreamOperation K P) :=
  active.layers.map (fun _ => .recorded .popLayer) ++
    active.clips.map (fun _ => .fastRoundedClip .finish)

lemma after_opening : after none (active.opening : List (StreamOperation K P)) = some active := by
  obtain ⟨layers, clips⟩ := active
  have hlayers : after none (layers.reverse.map (fun bounds =>
      (.recorded (.pushLayer bounds) : StreamOperation K P))) = some ⟨layers, []⟩ := by
    induction layers with
    | nil => rfl
    | cons bounds layers ih =>
      rw [reverse_cons, map_append, after_append, ih]
      rfl
  have hclips : after ⟨layers, []⟩ (clips.reverse.map (fun shape =>
      (.fastRoundedClip (.start shape) : StreamOperation K P))) = some ⟨layers, clips⟩ := by
    induction clips with
    | nil => rfl
    | cons shape clips ih =>
      rw [reverse_cons, map_append, after_append, ih]
      rfl
  rw [opening, after_append, hlayers]
  exact hclips

lemma after_closing : active.after (active.closing : List (StreamOperation K P)) = some none := by
  obtain ⟨layers, clips⟩ := active
  have hclips : after ⟨[], clips⟩ (clips.map (fun _ =>
      (.fastRoundedClip .finish : StreamOperation K P))) = some none := by
    induction clips with
    | nil => rfl
    | cons shape clips ih => exact ih
  have hlayers : after ⟨layers, clips⟩ (layers.map (fun _ =>
      (.recorded .popLayer : StreamOperation K P))) = some ⟨[], clips⟩ := by
    induction layers with
    | nil => rfl
    | cons bounds layers ih => exact ih
  rw [closing, after_append, hlayers]
  exact hclips

lemma primitive?_opening :
    ∀ op ∈ (active.opening : List (StreamOperation K P)), op.primitive? = .none := by
  intro op hop
  simp only [opening, mem_append, List.mem_map] at hop
  rcases hop with ⟨bounds, -, rfl⟩ | ⟨shape, -, rfl⟩ <;> rfl

lemma primitive?_closing :
    ∀ op ∈ (active.closing : List (StreamOperation K P)), op.primitive? = .none := by
  intro op hop
  simp only [closing, mem_append, List.mem_map] at hop
  rcases hop with ⟨bounds, -, rfl⟩ | ⟨shape, -, rfl⟩ <;> rfl

lemma inside_between {active : OpenScopes K} (h : active.after ops = some next) :
    inside none (active.opening ++ ops ++ next.closing) = inside active ops := by
  have hopened : after none (active.opening ++ ops) = some next := by
    rw [after_append, after_opening, bind_some, h]
  rw [inside_append hopened, inside_append (after_opening active),
    inside_of_no_primitive (primitive?_opening active),
    inside_of_no_primitive (primitive?_closing next), nil_append, append_nil]

end OpenScopes

lemma exists_cons_of_tail? {α : Type*} {l l' : List α} (h : l.tail? = some l') :
    ∃ x, l = x :: l' := by
  cases l with
  | nil => simp at h
  | cons x l =>
    obtain rfl : l = l' := some.inj h
    exact ⟨x, rfl⟩

namespace ClippedScene

variable [Field K] [LinearOrder K] [FloorRing K]

def kept : StreamOperation K P → Bool
  | .recorded op => op.recorded
  | .fastRoundedClip _ => true

variable {op : StreamOperation K P} {scene : ClippedScene K P F} {active next : OpenScopes K}
  {ops : List (StreamOperation K P)}

omit [FloorRing K] in
lemma kept_of_primitive? (h : op.primitive? = none) : kept op := by
  cases op with
  | recorded op => cases op <;> first | rfl | simp [StreamOperation.primitive?] at h
  | fastRoundedClip clip => rfl

structure HasOpen (scene : ClippedScene K P F) (active : OpenScopes K) : Prop where
  after : OpenScopes.after .none scene.paintOperations = some active
  clips : scene.fastRoundedClip.active.length = active.clips.length

omit [Field K] [LinearOrder K] [FloorRing K] in
lemma hasOpen_default : HasOpen (default : ClippedScene K P F) .none := ⟨rfl, rfl⟩

lemma HasOpen.apply (h : scene.HasOpen active) (hkept : kept op)
    (hstep : active.step op = some next) :
    ∃ scene', scene.apply op = .ok scene' ∧
      scene'.paintOperations = scene.paintOperations ++ [op] ∧ scene'.HasOpen next := by
  have hafter : OpenScopes.after .none (scene.paintOperations ++ [op]) = some next := by
    rw [OpenScopes.after_append, h.after, bind_some, OpenScopes.after_cons, hstep]
    rfl
  cases op with
  | recorded op =>
    cases op with
    | insertPrimitive primitive =>
      have hclipped : ¬ primitive.clippedBounds.isEmpty := by
        simpa [kept, SceneOp.recorded] using hkept
      obtain rfl : active = next := by simpa [OpenScopes.step] using hstep
      refine ⟨_, rfl, ?_, ?_, ?_⟩
      · rw [insertPrimitive, if_neg hclipped]
      · rw [insertPrimitive, if_neg hclipped]
        exact hafter
      · rw [insertPrimitive, if_neg hclipped]
        exact h.clips
    | pushLayer bounds =>
      obtain rfl : _ = next := by simpa [OpenScopes.step] using hstep
      exact ⟨_, rfl, rfl, hafter, h.clips⟩
    | popLayer =>
      obtain ⟨layers, -, rfl⟩ := map_eq_some_iff.mp hstep
      exact ⟨_, rfl, rfl, hafter, h.clips⟩
  | fastRoundedClip clip =>
    cases clip with
    | start shape =>
      obtain rfl : _ = next := by simpa [OpenScopes.step] using hstep
      exact ⟨_, rfl, rfl, hafter, congrArg Nat.succ h.clips⟩
    | finish =>
      obtain ⟨clips, htail, rfl⟩ := map_eq_some_iff.mp hstep
      obtain ⟨shape, hclips⟩ := exists_cons_of_tail? htail
      have hlength := h.clips
      rw [hclips] at hlength
      obtain ⟨scope, scopes, hactive⟩ := exists_cons_of_length_eq_add_one hlength
      rw [hactive] at hlength
      refine ⟨_, by rw [ClippedScene.apply, record, endClip, hactive], rfl, hafter, ?_⟩
      simpa using hlength

lemma HasOpen.applyAll :
    ∀ {scene : ClippedScene K P F}, scene.HasOpen active → (∀ op ∈ ops, kept op) →
      active.after ops = some next →
      ∃ scene', ops.foldlM ClippedScene.apply scene = .ok scene' ∧
        scene'.paintOperations = scene.paintOperations ++ ops ∧ scene'.HasOpen next := by
  induction ops generalizing active with
  | nil =>
    intro scene h _ hafter
    obtain rfl : active = next := by simpa [OpenScopes.after] using hafter
    exact ⟨scene, rfl, by simp, h⟩
  | cons op ops ih =>
    intro scene h hkept hafter
    rw [OpenScopes.after_cons] at hafter
    obtain ⟨active', hstep, hrest⟩ := bind_eq_some_iff.mp hafter
    obtain ⟨scene', happly, hops, h'⟩ := h.apply (hkept op mem_cons_self) hstep
    obtain ⟨scene'', happly', hops', h''⟩ :=
      ih h' (fun op hop => hkept op (mem_cons_of_mem _ hop)) hrest
    refine ⟨scene'', ?_, by rw [hops', hops, append_assoc]; rfl, h''⟩
    rw [foldlM_cons, happly]
    exact happly'

lemma replayOperations_ok :
    ∀ {scene scene' : ClippedScene K P F}, active.after ops = some next →
      ops.foldlM ClippedScene.apply scene = .ok scene' →
      ops.foldlM replayOperation (scene, active) = .ok (scene', next) := by
  induction ops generalizing active with
  | nil =>
    intro scene scene' hafter happly
    obtain rfl : active = next := by simpa [OpenScopes.after] using hafter
    obtain rfl : scene = scene' := Except.ok.inj happly
    rfl
  | cons op ops ih =>
    intro scene scene' hafter happly
    rw [OpenScopes.after_cons] at hafter
    obtain ⟨active', hstep, hrest⟩ := bind_eq_some_iff.mp hafter
    rw [foldlM_cons] at happly ⊢
    rw [replayOperation, OpenScopes.track_ok _ hstep]
    dsimp only
    cases hop : scene.apply op with
    | error error =>
      rw [hop] at happly
      cases show (.error error : Except String (ClippedScene K P F)) = .ok scene' from happly
    | ok applied =>
      rw [hop] at happly
      exact ih hrest happly

lemma apply_opening (active : OpenScopes K) (scene : ClippedScene K P F) :
    active.opening.foldlM ClippedScene.apply scene =
      active.clips.reverse.foldlM (fun scene shape => scene.record (.start shape))
        (active.layers.reverse.foldl pushLayer scene) := by
  have hlayers : ∀ (layers : List (Bounds K)) (scene : ClippedScene K P F),
      (layers.map (fun bounds => .recorded (.pushLayer bounds))).foldlM ClippedScene.apply scene =
        .ok (layers.foldl pushLayer scene) := by
    intro layers
    induction layers with
    | nil => exact fun _ => rfl
    | cons bounds layers ih => exact fun scene => ih (scene.pushLayer bounds)
  rw [OpenScopes.opening, foldlM_append, hlayers]
  exact List.foldlM_map

lemma apply_closing (active : OpenScopes K) (scene : ClippedScene K P F) :
    active.closing.foldlM ClippedScene.apply scene =
      active.clips.foldlM (fun scene _ => scene.record .finish)
        (active.layers.foldl (fun scene _ => scene.popLayer) scene) := by
  have hlayers : ∀ (layers : List (Bounds K)) (scene : ClippedScene K P F),
      (layers.map (fun _ => .recorded .popLayer)).foldlM ClippedScene.apply scene =
        .ok (layers.foldl (fun scene _ => scene.popLayer) scene) := by
    intro layers
    induction layers with
    | nil => exact fun _ => rfl
    | cons bounds layers ih => exact fun scene => ih scene.popLayer
  rw [OpenScopes.closing, foldlM_append, hlayers]
  exact List.foldlM_map

omit [Field K] [LinearOrder K] [FloorRing K] in
lemma HasOpen.replayLayers (h : scene.HasOpen active) (operations : List (StreamOperation K P))
    (previous : ClippedScene K P F) :
    (scene.replayLayers operations previous).paintOperations = scene.paintOperations ∧
      (scene.replayLayers operations previous).HasOpen active := by
  rw [ClippedScene.replayLayers]
  split
  · exact ⟨rfl, h⟩
  · generalize operations.filterMap layerOf? = keys
    induction keys generalizing scene with
    | nil => exact ⟨rfl, h⟩
    | cons key keys ih =>
      rw [foldl_cons, replayLayer]
      split
      · exact ih h
      · exact @ih { scene with frames := _ } ⟨h.after, h.clips⟩

/-- A range that is replayed leaves as much open as before it, and its primitives inside what they
are inside of in the scene it is from. -/
lemma replayBalanced_ok {source : ClippedScene K P F} {range : ℕ × ℕ}
    (hscene : scene.HasOpen .none) (hkept : ∀ op ∈ source.paintOperations, kept op)
    (hrange : range.1 ≤ range.2) (hstop : range.2 ≤ source.paintOperations.length)
    (hactive : OpenScopes.after .none (source.paintOperations.take range.1) = some active)
    (hnext : active.after ((source.paintOperations.take range.2).drop range.1) = some next) :
    ∃ scene', scene.replayBalanced range source = .ok scene' ∧ scene'.HasOpen .none ∧
      OpenScopes.inside .none scene'.paintOperations =
        OpenScopes.inside .none scene.paintOperations ++
          OpenScopes.inside active ((source.paintOperations.take range.2).drop range.1) := by
  set operations := (source.paintOperations.take range.2).drop range.1 with hoperations
  obtain ⟨hops, hlayers⟩ := hscene.replayLayers operations source
  have hkeptOpening : ∀ op ∈ (active.opening : List (StreamOperation K P)), kept op :=
    fun op hop => kept_of_primitive? (OpenScopes.primitive?_opening active op hop)
  have hkeptOperations : ∀ op ∈ operations, kept op :=
    fun op hop => hkept op (mem_of_mem_take (mem_of_mem_drop hop))
  have hkeptClosing : ∀ op ∈ (next.closing : List (StreamOperation K P)), kept op :=
    fun op hop => kept_of_primitive? (OpenScopes.primitive?_closing next op hop)
  obtain ⟨opened, hopening, hops₁, hopened⟩ :=
    hlayers.applyAll hkeptOpening (OpenScopes.after_opening active)
  obtain ⟨replayed, hreplay, hops₂, hreplayed⟩ := hopened.applyAll hkeptOperations hnext
  obtain ⟨closed, hclosing, hops₃, hclosed⟩ :=
    hreplayed.applyAll hkeptClosing (OpenScopes.after_closing next)
  refine ⟨closed, ?_, hclosed, ?_⟩
  · rw [apply_opening] at hopening
    rw [apply_closing] at hclosing
    have hstart : range.1 ≤ source.paintOperations.length := hrange.trans hstop
    rw [replayBalanced, if_neg hrange.not_gt, if_neg hstart.not_gt, if_neg hstop.not_gt]
    dsimp only
    rw [OpenScopes.track_all _ hactive]
    dsimp only
    rw [← hoperations, hopening]
    dsimp only
    rw [replayOperations_ok hnext hreplay]
    exact hclosing
  · rw [hops₃, hops₂, hops₁, hops]
    rw [append_assoc, append_assoc, OpenScopes.inside_append hscene.after,
      ← append_assoc active.opening, OpenScopes.inside_between hnext]

/-- While clips are compiled, the open ones are those of the stream, and each that is not open
around itself has a scene on the stack, above the outermost one. -/
structure Compiles (compiling : Compiling K P F) (active : OpenScopes K) : Prop where
  shapes : compiling.shapes = active.clips
  redundant : compiling.redundant.length = active.clips.length
  stack : compiling.stack.length = compiling.redundant.count false + 1

lemma Compiles.operation {compiling : Compiling K P F} (h : Compiles compiling active)
    (sprite : RoundedShape K → P) (layers : List (SceneFrame K P F))
    (hstep : active.step op = some next) :
    ∃ compiling', compileOperation sprite layers compiling op = .ok compiling' ∧
      Compiles compiling' next := by
  obtain ⟨stack, shapes, redundant⟩ := compiling
  obtain ⟨hshapes, hredundant, hstack⟩ := h
  dsimp only at hshapes hredundant hstack
  subst hshapes
  cases op with
  | recorded op =>
    obtain ⟨⟨scene, frames⟩, rest, rfl⟩ := exists_cons_of_length_eq_add_one hstack
    have hclips : next.clips = active.clips := by
      cases op with
      | insertPrimitive primitive =>
        obtain rfl : active = next := by simpa [OpenScopes.step] using hstep
        rfl
      | pushLayer bounds =>
        obtain rfl : _ = next := by simpa [OpenScopes.step] using hstep
        rfl
      | popLayer =>
        obtain ⟨_, -, rfl⟩ := map_eq_some_iff.mp hstep
        rfl
    exact ⟨_, rfl, ⟨hclips.symm, by rw [hclips]; exact hredundant, hstack⟩⟩
  | fastRoundedClip clip =>
    cases clip with
    | start shape =>
      obtain rfl : _ = next := by simpa [OpenScopes.step] using hstep
      refine ⟨_, rfl, ⟨rfl, congrArg Nat.succ hredundant, ?_⟩⟩
      by_cases hmem : shape ∈ active.clips
      · simpa [hmem] using hstack
      · simp [hmem, hstack]
    | finish =>
      obtain ⟨clips, htail, rfl⟩ := map_eq_some_iff.mp hstep
      obtain ⟨shape, hclips⟩ := exists_cons_of_tail? htail
      rw [hclips] at hredundant ⊢
      obtain ⟨alreadyActive, redundant, rfl⟩ := exists_cons_of_length_eq_add_one hredundant
      have hlength : redundant.length = clips.length := by simpa using hredundant
      cases alreadyActive with
      | true => exact ⟨_, rfl, ⟨rfl, hlength, by simpa using hstack⟩⟩
      | false =>
        have hstack : stack.length = redundant.count false + 1 + 1 := by simpa using hstack
        obtain ⟨child, outer, rfl⟩ := exists_cons_of_length_eq_add_one hstack
        have houter : outer.length = redundant.count false + 1 := by simpa using hstack
        simp only [compileOperation]
        split
        · exact ⟨_, rfl, ⟨rfl, hlength, houter⟩⟩
        · obtain ⟨parent, rest, rfl⟩ := exists_cons_of_length_eq_add_one houter
          exact ⟨_, rfl, ⟨rfl, hlength, houter⟩⟩

lemma Compiles.operations (sprite : RoundedShape K → P) (layers : List (SceneFrame K P F)) :
    ∀ {compiling : Compiling K P F} {active : OpenScopes K}, Compiles compiling active →
      active.after ops = some next →
      ∃ compiling', ops.foldlM (compileOperation sprite layers) compiling = .ok compiling' ∧
        Compiles compiling' next := by
  induction ops with
  | nil =>
    intro compiling active h hafter
    obtain rfl : active = next := by simpa [OpenScopes.after] using hafter
    exact ⟨compiling, rfl, h⟩
  | cons op ops ih =>
    intro compiling active h hafter
    rw [OpenScopes.after_cons] at hafter
    obtain ⟨active', hstep, hrest⟩ := bind_eq_some_iff.mp hafter
    obtain ⟨compiling', hcompile, h'⟩ := h.operation sprite layers hstep
    rw [foldlM_cons, hcompile]
    exact ih h' hrest

lemma finish_ok (h : OpenScopes.Balanced scene.paintOperations) (sprite : RoundedShape K → P) :
    ∃ scene', scene.finish sprite = .ok scene' ∧
      scene'.paintOperations = scene.paintOperations := by
  rw [finish, compile]
  by_cases hcompiled : scene.fastRoundedClip.scopes.isEmpty || scene.fastRoundedClip.compiled
  · rw [if_pos hcompiled]
    exact ⟨_, rfl, rfl⟩
  · rw [if_neg hcompiled]
    have hstart : Compiles
        (⟨[(.default, scene.frames.filter (·.isLayer))], [], []⟩ : Compiling K P F) .none :=
      ⟨rfl, rfl, rfl⟩
    obtain ⟨⟨stack, shapes, redundant⟩, hoperations, hend⟩ := Compiles.operations sprite _ hstart h
    obtain ⟨hshapes, hredundant, hstack⟩ := hend
    dsimp only at hshapes hredundant hstack
    obtain rfl : shapes = [] := hshapes
    obtain rfl : redundant = [] := length_eq_zero_iff.mp hredundant
    obtain ⟨⟨drawn, frames⟩, rfl⟩ := length_eq_one_iff.mp hstack
    dsimp only
    rw [hoperations]
    exact ⟨_, rfl, rfl⟩

end ClippedScene

end GpuiFast
