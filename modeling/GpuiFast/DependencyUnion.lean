import GpuiFast.DependencyReads

/-! When the union of two sets recorded one after the other sees what either would have seen. The check
for writes is skipped while the write generation stands where the later set was finished, though the
earlier one would see a write made between the two. -/

namespace GpuiFast

open List Option EntityAccessLog

section

variable {α : Type*} [LinearOrder α]

variable {x : α}

lemma mem_of_containsAll {all some : List α} (h : containsAll all some = true) (hx : x ∈ some) :
    x ∈ all := by
  induction some generalizing all with
  | nil => exact absurd hx not_mem_nil
  | cons item rest ih =>
    rw [containsAll] at h
    split at h
    · rename_i index hindex
      rcases mem_cons.mp hx with rfl | hx
      · by_contra hnot
        rw [idxOf?_eq_none_iff.mpr hnot] at hindex
        exact absurd hindex (by simp)
      · exact mem_of_mem_drop (ih h hx)
    · exact absurd h (by simp)

variable {a b : List α}

lemma mem_mergeLoop : x ∈ mergeLoop a b ↔ x ∈ a ∨ x ∈ b := by
  fun_induction mergeLoop a b with
  | case1 b => simp
  | case2 a => simp
  | case3 y a z b h ih =>
    rw [mem_cons, ih]
    simp only [mem_cons]
    tauto
  | case4 y a z b h h' ih =>
    rw [mem_cons, ih]
    simp only [mem_cons]
    tauto
  | case5 y a z b h h' ih =>
    have hyz : y = z := le_antisymm (not_lt.mp h') (not_lt.mp h)
    rw [mem_cons, ih]
    simp only [mem_cons, hyz]
    tauto

lemma mem_mergeSorted : x ∈ mergeSorted a b ↔ x ∈ a ∨ x ∈ b := by
  rw [mergeSorted]
  split
  · rename_i h
    rw [Bool.or_eq_true, List.isEmpty_iff] at h
    constructor
    · exact Or.inl
    · rintro (hx | hx)
      · exact hx
      · rcases h with rfl | h
        · exact absurd hx not_mem_nil
        · exact mem_of_containsAll h hx
  · split
    · rename_i h
      rw [Bool.or_eq_true, List.isEmpty_iff] at h
      constructor
      · exact Or.inr
      · rintro (hx | hx)
        · rcases h with rfl | h
          · exact absurd hx not_mem_nil
          · exact mem_of_containsAll h hx
        · exact hx
    · exact mem_mergeLoop

end

variable {E G V : Type}

namespace RenderDependencies

def isEmpty (d : RenderDependencies E G V) : Bool :=
  d.entities.isEmpty && d.globals.isEmpty && d.states.isEmpty

end RenderDependencies

namespace ReadingApp

variable [LinearOrder E] [LinearOrder G] [DecidableEq V]

def outsideWrite (app : ReadingApp E G V) (d other : RenderDependencies E G V) : Bool :=
  app.access.writeGeneration ≠ d.writes.upTo &&
    d.entities.any (fun e => (app.access.writtenAt e).any (fun w =>
      d.writes.isForeign w && !other.writes.isOwn w))

def sees (app : ReadingApp E G V) (d other : RenderDependencies E G V) (insideNotified : Bool) :
    Bool :=
  app.access.changedSince d.entities d.updates insideNotified || app.globalsChanged d ||
    app.statesChanged d || app.outsideWrite d other

def UnionSees (app : ReadingApp E G V) (a b : RenderDependencies E G V) (insideNotified : Bool) :
    Prop :=
  (app.sees a b insideNotified || app.sees b a insideNotified) = true →
    app.dependenciesChanged (a.union b) insideNotified = true

/-- Whether a state `a` read stands at the version it was read at. -/
def unchangedIn (app : ReadingApp E G V) (a : RenderDependencies E G V) (v : V) : Bool :=
  a.states.any (fun s => s.1 = v && app.versions v = s.2)

/-- Whether an entity or a global of either set was stamped since the earlier one, or a state
changed, but for those `a` read at the version they have now. -/
def otherChange (app : ReadingApp E G V) (a b : RenderDependencies E G V) (insideNotified : Bool) :
    Bool :=
  app.access.changedSince (a.entities ++ b.entities) (min a.updates b.updates) insideNotified ||
    (a.globals ++ b.globals).any (fun g =>
      (app.globalChangedAt g).any (· > min a.generation b.generation)) ||
    app.statesChanged a ||
    b.states.any (fun s => app.versions s.1 ≠ s.2 && !app.unchangedIn a s.1)

def foreignWrite (app : ReadingApp E G V) (a b : RenderDependencies E G V) : Bool :=
  app.access.writeGeneration ≠ b.writes.upTo &&
    (a.entities ++ b.entities).any (fun e => (app.access.writtenAt e).any (fun w =>
      w > min a.writes.since b.writes.since && !a.writes.isOwn w && !b.writes.isOwn w))

/-- The union is blind to what the sets see: a write made between them while nothing was written
since, or a state that came back to the version `a` read. -/
def blind (app : ReadingApp E G V) (a b : RenderDependencies E G V) (insideNotified : Bool) : Bool :=
  !b.isEmpty && !app.otherChange a b insideNotified &&
    ((app.access.writeGeneration = b.writes.upTo && app.outsideWrite a b) ||
      (app.statesChanged b && !app.foreignWrite a b))

end ReadingApp

structure EntityAccessLog.Stamped (log : EntityAccessLog E) : Prop where
  changed : ∀ e t, log.changedAt e = some t → t ≤ log.updateGeneration
  updated : ∀ e t, log.updatedAt e = some t → t ≤ log.updateGeneration

section

variable {log : EntityAccessLog E}

variable {entities : List E} {generation : ℕ} {updates : Bool}

lemma EntityAccessLog.Stamped.changedSince_iff (h : log.Stamped) :
    log.changedSince entities generation updates = true ↔
      ∃ e ∈ entities, ((log.changedAt e).any (· > generation) ||
        (updates && (log.updatedAt e).any (· > generation))) = true := by
  rw [changedSince, Bool.and_eq_true, List.any_eq_true, decide_eq_true_eq]
  constructor
  · exact fun h => h.2
  · rintro ⟨e, he, hstamp⟩
    refine ⟨?_, e, he, hstamp⟩
    rintro rfl
    have hle : ∀ (stamps : E → Option ℕ), (∀ e t, stamps e = some t → t ≤ log.updateGeneration) →
        (stamps e).any (· > log.updateGeneration) = false := by
      intro stamps hstamps
      rw [Bool.eq_false_iff]
      intro hany
      obtain ⟨t, ht, hlt⟩ := (Option.any_eq_true _ _).mp hany
      have := hstamps e t ht
      simp only [decide_eq_true_eq] at hlt
      omega
    simp [hle _ h.changed, hle _ h.updated] at hstamp

lemma EntityAccessLog.Stamped.changedSince_mono (h : log.Stamped) {entities' : List E}
    {generation' : ℕ} (hsub : entities ⊆ entities') (hle : generation' ≤ generation)
    (hc : log.changedSince entities generation updates = true) :
    log.changedSince entities' generation' updates = true := by
  rw [h.changedSince_iff] at hc ⊢
  obtain ⟨e, he, hstamp⟩ := hc
  refine ⟨e, hsub he, ?_⟩
  have hmono : ∀ o : Option ℕ, o.any (· > generation) = true → o.any (· > generation') = true := by
    intro o ho
    obtain ⟨t, ht, hlt⟩ := (Option.any_eq_true _ _).mp ho
    refine (Option.any_eq_true _ _).mpr ⟨t, ht, ?_⟩
    simp only [decide_eq_true_eq] at hlt ⊢
    omega
  rw [Bool.or_eq_true, Bool.and_eq_true] at hstamp ⊢
  rcases hstamp with hstamp | ⟨hupdates, hstamp⟩
  · exact Or.inl (hmono _ hstamp)
  · exact Or.inr ⟨hupdates, hmono _ hstamp⟩

end

lemma firstVersion_iff [DecidableEq V] {states : List (V × UInt64)} {s : V × UInt64}
    (hnodup : (states.map Prod.fst).Nodup) : firstVersion states s.1 = some s.2 ↔ s ∈ states := by
  constructor
  · intro h
    obtain ⟨w, hw, hws⟩ := map_eq_some_iff.mp h
    have hwv : w.1 = s.1 := by simpa using find?_some hw
    have hmem := mem_of_find?_eq_some hw
    rwa [Prod.ext hwv hws] at hmem
  · intro hs
    have hsome : (states.find? (fun t => t.1 = s.1)).isSome = true := by
      rw [find?_isSome]
      exact ⟨s, hs, by simp⟩
    obtain ⟨w, hw⟩ := isSome_iff_exists.mp hsome
    have hwv : w.1 = s.1 := by simpa using find?_some hw
    have hws : w = s := inj_on_of_nodup_map hnodup (mem_of_find?_eq_some hw) hs hwv
    rw [firstVersion, hw, hws]
    rfl

namespace ReadingApp

variable [LinearOrder E] [LinearOrder G] [DecidableEq V] {app : ReadingApp E G V}
  {a b : RenderDependencies E G V} {insideNotified : Bool}

lemma union_of_isEmpty (h : b.isEmpty = true) : a.union b = a := if_pos h

lemma mem_union_states (hb : b.isEmpty = false) {s : V × UInt64} (hnodup : (a.states.map Prod.fst).Nodup) :
    s ∈ (a.union b).states ↔ s ∈ a.states ∨
      ((∀ t ∈ a.states, t.1 ≠ s.1) ∧ firstVersion b.states s.1 = some s.2) := by
  have hstates : (a.union b).states =
      if b.states.isEmpty then a.states else uniqueStates (a.states ++ b.states) := by
    rw [RenderDependencies.union, if_neg (by rw [← RenderDependencies.isEmpty, hb]; simp)]
  have hfirst := firstVersion_iff (s := s) hnodup
  rw [hstates]
  split
  · rename_i hempty
    rw [List.isEmpty_iff] at hempty
    simp [hempty, firstVersion]
  · have hspec := (uniqueStates_spec (a.states ++ b.states)).2 s.1 s.2
    rw [Prod.mk.eta] at hspec
    rw [hspec, ← hfirst, firstVersion, firstVersion, firstVersion, find?_append]
    cases hfound : a.states.find? (fun t => t.1 = s.1) with
    | none =>
      rw [find?_eq_none] at hfound
      have hnot : ∀ t ∈ a.states, t.1 ≠ s.1 := fun t ht => by simpa using hfound t ht
      simp only [none_or, map_none, reduceCtorEq, false_or]
      exact ⟨fun h => ⟨hnot, h⟩, fun h => h.2⟩
    | some w =>
      have hw : w.1 = s.1 := by simpa using find?_some hfound
      have hmem := mem_of_find?_eq_some hfound
      simp only [some_or, map_some, some.injEq]
      constructor
      · exact Or.inl
      · rintro (h | ⟨h, -⟩)
        · exact h
        · exact absurd hw (h w hmem)

lemma union_statesChanged (hb : b.isEmpty = false) (ha : (a.states.map Prod.fst).Nodup)
    (hb' : (b.states.map Prod.fst).Nodup) :
    app.statesChanged (a.union b) = true ↔ app.statesChanged a = true ∨
      b.states.any (fun s => app.versions s.1 ≠ s.2 && !app.unchangedIn a s.1) = true := by
  simp only [statesChanged, List.any_eq_true, Bool.and_eq_true, decide_eq_true_eq]
  constructor
  · rintro ⟨s, hs, hchanged⟩
    rcases (mem_union_states hb ha).mp hs with hs | ⟨hnot, hfirst⟩
    · exact Or.inl ⟨s, hs, hchanged⟩
    · refine Or.inr ⟨s, (firstVersion_iff hb').mp hfirst, hchanged, ?_⟩
      rw [Bool.not_eq_true', unchangedIn, List.any_eq_false]
      intro t ht
      simp [hnot t ht]
  · rintro (⟨s, hs, hchanged⟩ | ⟨s, hs, hchanged, hunread⟩)
    · exact ⟨s, (mem_union_states hb ha).mpr (Or.inl hs), hchanged⟩
    · rw [Bool.not_eq_true', unchangedIn, List.any_eq_false] at hunread
      by_cases hread : ∃ t ∈ a.states, t.1 = s.1
      · obtain ⟨t, ht, hts⟩ := hread
        refine ⟨t, (mem_union_states hb ha).mpr (Or.inl ht), ?_⟩
        have := hunread t ht
        simp only [hts, decide_true, Bool.true_and, decide_eq_true_eq] at this
        rwa [hts]
      · have hnot : ∀ t ∈ a.states, t.1 ≠ s.1 := fun t ht hts => hread ⟨t, ht, hts⟩
        exact ⟨s, (mem_union_states hb ha).mpr (Or.inr ⟨hnot, (firstVersion_iff hb').mpr hs⟩),
          hchanged⟩

lemma isOwn_union (w w' : Writes) (t : ℕ) : (w.union w').isOwn t = (w.isOwn t || w'.isOwn t) := by
  simp [Writes.isOwn, Writes.union]

lemma union_changed_iff (hstamped : app.access.Stamped) (hb : b.isEmpty = false)
    (hastates : (a.states.map Prod.fst).Nodup) (hbstates : (b.states.map Prod.fst).Nodup)
    (hupTo : a.writes.upTo ≤ b.writes.upTo) :
    app.dependenciesChanged (a.union b) insideNotified = true ↔
      app.otherChange a b insideNotified = true ∨ app.foreignWrite a b = true := by
  have hunion : a.union b =
      { entities := mergeSorted a.entities b.entities
        globals := mergeSorted a.globals b.globals
        states := (a.union b).states
        generation := min a.generation b.generation
        updates := min a.updates b.updates
        writes := a.writes.union b.writes } := by
    rw [RenderDependencies.union, if_neg (by rw [← RenderDependencies.isEmpty, hb]; simp)]
  have hentities : (a.union b).entities = mergeSorted a.entities b.entities := by rw [hunion]
  have hchanged : app.access.changedSince (a.union b).entities (a.union b).updates insideNotified =
      app.access.changedSince (a.entities ++ b.entities) (min a.updates b.updates)
        insideNotified := by
    rw [hunion, Bool.eq_iff_iff, hstamped.changedSince_iff, hstamped.changedSince_iff]
    simp only [mem_mergeSorted, mem_append]
  have hglobals : app.globalsChanged (a.union b) = (a.globals ++ b.globals).any (fun g =>
      (app.globalChangedAt g).any (· > min a.generation b.generation)) := by
    rw [hunion, globalsChanged, Bool.eq_iff_iff, List.any_eq_true, List.any_eq_true]
    simp only [mem_mergeSorted, mem_append]
  have hwritten : app.access.writtenSince (a.union b).entities (a.union b).writes =
      app.foreignWrite a b := by
    have hforeign : ∀ w, (a.writes.union b.writes).isForeign w =
        (decide (w > min a.writes.since b.writes.since) && !a.writes.isOwn w &&
          !b.writes.isOwn w) := by
      intro w
      rw [Writes.isForeign, isOwn_union, Bool.not_or, Bool.and_assoc]
      rfl
    have hmax : (a.writes.union b.writes).upTo = b.writes.upTo := Nat.max_eq_right hupTo
    rw [hunion, writtenSince, foreignWrite, hmax]
    congr 1
    rw [Bool.eq_iff_iff, List.any_eq_true, List.any_eq_true]
    simp only [mem_mergeSorted, mem_append, funext hforeign]
  rw [dependenciesChanged, otherChange, hchanged, hglobals, hwritten]
  simp only [Bool.or_eq_true, union_statesChanged hb hastates hbstates]
  tauto

omit [LinearOrder E] [LinearOrder G] [DecidableEq V] in
lemma not_sees_of_isEmpty (hb : b.isEmpty = true) : app.sees b a insideNotified = false := by
  simp only [RenderDependencies.isEmpty, Bool.and_eq_true, List.isEmpty_iff] at hb
  obtain ⟨⟨he, hg⟩, hs⟩ := hb
  simp [sees, changedSince, globalsChanged, statesChanged, outsideWrite, he, hg, hs]

omit [LinearOrder E] [LinearOrder G] [DecidableEq V] in
lemma writtenSince_of_outsideWrite (h : app.outsideWrite a b = true) :
    app.access.writtenSince a.entities a.writes = true := by
  simp only [outsideWrite, writtenSince, Bool.and_eq_true, List.any_eq_true,
    Option.any_eq_true] at h ⊢
  obtain ⟨hne, e, he, w, hw, hforeign, -⟩ := h
  exact ⟨hne, e, he, w, hw, hforeign⟩

omit [LinearOrder E] [LinearOrder G] [DecidableEq V] in
lemma foreignWrite_of_outsideWrite {d other : RenderDependencies E G V}
    (hd : d = a ∧ other = b ∨ d = b ∧ other = a)
    (hgeneration : app.access.writeGeneration ≠ b.writes.upTo)
    (h : app.outsideWrite d other = true) : app.foreignWrite a b = true := by
  simp only [outsideWrite, foreignWrite, Bool.and_eq_true, List.any_eq_true, Option.any_eq_true,
    Writes.isForeign, decide_eq_true_eq, mem_append] at h ⊢
  obtain ⟨-, e, he, w, hw, ⟨hsince, hown⟩, hother⟩ := h
  refine ⟨hgeneration, e, ?_, w, hw, ?_⟩
  · rcases hd with ⟨rfl, -⟩ | ⟨rfl, -⟩
    · exact Or.inl he
    · exact Or.inr he
  · rcases hd with ⟨rfl, rfl⟩ | ⟨rfl, rfl⟩
    · exact ⟨⟨by omega, hown⟩, hother⟩
    · exact ⟨⟨by omega, hother⟩, hown⟩

omit [LinearOrder E] [LinearOrder G] in
lemma otherChange_of_sees_left (hstamped : app.access.Stamped)
    (h : app.sees a b insideNotified = true) :
    app.otherChange a b insideNotified = true ∨ app.outsideWrite a b = true := by
  simp only [sees, otherChange, Bool.or_eq_true] at h ⊢
  rcases h with ((h | h) | h) | h
  · left; left; left; left
    exact hstamped.changedSince_mono (subset_append_left _ _) (by omega) h
  · left; left; left; right
    simp only [globalsChanged, List.any_eq_true, Option.any_eq_true, decide_eq_true_eq,
      mem_append] at h ⊢
    obtain ⟨g, hg, t, ht, hlt⟩ := h
    exact ⟨g, Or.inl hg, t, ht, by omega⟩
  · exact Or.inl (Or.inl (Or.inr h))
  · exact Or.inr h

omit [LinearOrder E] [LinearOrder G] in
lemma otherChange_of_sees_right (hstamped : app.access.Stamped)
    (h : app.sees b a insideNotified = true) :
    app.otherChange a b insideNotified = true ∨ app.outsideWrite b a = true ∨
      app.statesChanged b = true := by
  simp only [sees, otherChange, Bool.or_eq_true] at h ⊢
  rcases h with ((h | h) | h) | h
  · left; left; left; left
    exact hstamped.changedSince_mono (subset_append_right _ _) (by omega) h
  · left; left; left; right
    simp only [globalsChanged, List.any_eq_true, Option.any_eq_true, decide_eq_true_eq,
      mem_append] at h ⊢
    obtain ⟨g, hg, t, ht, hlt⟩ := h
    exact ⟨g, Or.inr hg, t, ht, by omega⟩
  · exact Or.inr (Or.inr h)
  · exact Or.inr (Or.inl h)

lemma unionSees_iff_of_stamped (hstamped : app.access.Stamped)
    (hastates : (a.states.map Prod.fst).Nodup) (hbstates : (b.states.map Prod.fst).Nodup)
    (hupTo : a.writes.upTo ≤ b.writes.upTo) :
    app.UnionSees a b insideNotified ↔ app.blind a b insideNotified = false := by
  cases hb : b.isEmpty with
  | true =>
    refine iff_of_true ?_ (by simp [blind, hb])
    rw [UnionSees, union_of_isEmpty hb, not_sees_of_isEmpty hb, Bool.or_false]
    intro h
    simp only [sees, dependenciesChanged, Bool.or_eq_true] at h ⊢
    rcases h with ((h | h) | h) | h
    · exact Or.inl (Or.inl h)
    · exact Or.inr (Or.inl h)
    · exact Or.inr (Or.inr h)
    · exact Or.inl (Or.inr (writtenSince_of_outsideWrite h))
  | false =>
    rw [UnionSees, union_changed_iff hstamped hb hastates hbstates hupTo]
    constructor
    · intro hsees
      rw [Bool.eq_false_iff]
      intro hblind
      simp only [blind, hb, Bool.not_false, Bool.true_and, Bool.and_eq_true, Bool.not_eq_true',
        Bool.or_eq_true, decide_eq_true_eq] at hblind
      obtain ⟨hother, hblind⟩ := hblind
      have hforeign : app.foreignWrite a b = false := by
        rcases hblind with ⟨hgeneration, -⟩ | ⟨-, hforeign⟩
        · simp [foreignWrite, hgeneration]
        · exact hforeign
      have hseen : (app.sees a b insideNotified || app.sees b a insideNotified) = true := by
        rcases hblind with ⟨-, hwrite⟩ | ⟨hstates, -⟩
        · simp [sees, hwrite]
        · simp [sees, hstates]
      rcases hsees hseen with h | h
      · exact Bool.noConfusion (hother.symm.trans h)
      · exact Bool.noConfusion (hforeign.symm.trans h)
    · intro hblind hseen
      by_contra hnot
      rw [not_or, Bool.not_eq_true, Bool.not_eq_true] at hnot
      obtain ⟨hother, hforeign⟩ := hnot
      rw [Bool.or_eq_true] at hseen
      have hwrites : ∀ d other, d = a ∧ other = b ∨ d = b ∧ other = a →
          app.outsideWrite d other = true → app.access.writeGeneration = b.writes.upTo := by
        intro d other hd hwrite
        by_contra hne
        rw [foreignWrite_of_outsideWrite hd hne hwrite] at hforeign
        exact Bool.noConfusion hforeign
      rw [blind, hb, hother, hforeign] at hblind
      simp only [Bool.not_false, Bool.and_true, Bool.true_and, Bool.or_eq_false_iff,
        Bool.and_eq_false_iff, decide_eq_false_iff_not] at hblind
      rcases hseen with hseen | hseen
      · rcases otherChange_of_sees_left hstamped hseen with h | h
        · exact Bool.noConfusion (hother.symm.trans h)
        · rcases hblind.1 with hne | hwrite
          · exact hne (hwrites a b (Or.inl ⟨rfl, rfl⟩) h)
          · exact Bool.noConfusion (hwrite.symm.trans h)
      · rcases otherChange_of_sees_right hstamped hseen with h | h | h
        · exact Bool.noConfusion (hother.symm.trans h)
        · -- the later set sees no write while the generation stands where it was finished
          have hgeneration := hwrites b a (Or.inr ⟨rfl, rfl⟩) h
          simp [outsideWrite, hgeneration] at h
        · exact Bool.noConfusion (hblind.2.symm.trans h)

end ReadingApp

namespace Drawing

variable [LinearOrder E] [LinearOrder G] [DecidableEq V]

/-- A set of dependencies recorded between two states of a run, in one recording or in several one
after the other. -/
inductive Recorded : Drawing E G V → RenderDependencies E G V → Drawing E G V → Prop
  | all {s s' : Drawing E G V} {body : List (ReadOp E G V)}
      {inner : List (RecordedDependencies E G V)} {r : RecordedDependencies E G V} :
      Bracket.depth 0 (body.map ReadOp.bracket) = some 0 →
      s.run (.beginRecording :: body ++ [.finishRecording]) = some (s', inner ++ [r]) →
      Recorded s r.all s'
  | own {s s' : Drawing E G V} {body : List (ReadOp E G V)}
      {inner : List (RecordedDependencies E G V)} {r : RecordedDependencies E G V} :
      Bracket.depth 0 (body.map ReadOp.bracket) = some 0 →
      s.run (.beginRecording :: body ++ [.finishRecording]) = some (s', inner ++ [r]) →
      Recorded s r.own s'
  | union {s s₁ s₂ s₃ : Drawing E G V} {between : List (ReadOp E G V)}
      {rs : List (RecordedDependencies E G V)} {a b : RenderDependencies E G V} :
      Recorded s a s₁ → s₁.run between = some (s₂, rs) → Recorded s₂ b s₃ →
      Recorded s (a.union b) s₃

structure Advances (s s' : Drawing E G V) : Prop where
  writes : s.app.access.writeGeneration ≤ s'.app.access.writeGeneration
  stamped : s.app.access.Stamped → s'.app.access.Stamped

omit [LinearOrder E] [LinearOrder G] [DecidableEq V] in
lemma Advances.refl (s : Drawing E G V) : Advances s s := ⟨Nat.le_refl _, id⟩

variable {s s' : Drawing E G V}

omit [LinearOrder E] [LinearOrder G] [DecidableEq V] in
lemma Advances.trans {s'' : Drawing E G V} (h : Advances s s') (h' : Advances s' s'') :
    Advances s s'' :=
  ⟨h.writes.trans h'.writes, fun hs => h'.stamped (h.stamped hs)⟩

section Stamps

variable (log : EntityAccessLog E)

variable (e : E)

lemma noteAccess_stamps :
    (log.noteAccess e).writeGeneration = log.writeGeneration ∧
      (log.Stamped → (log.noteAccess e).Stamped) := by
  rw [noteAccess]
  split_ifs
  · exact ⟨rfl, id⟩
  · exact ⟨rfl, fun h => ⟨h.changed, h.updated⟩⟩
  · exact ⟨rfl, id⟩

lemma stamp_le {α : Type} [DecidableEq α] {stamps : α → Option ℕ} {generation : ℕ} {e : α}
    (h : ∀ e t, stamps e = some t → t ≤ generation) :
    ∀ e' t, Function.update stamps e (some (generation + 1)) e' = some t → t ≤ generation + 1 := by
  intro e' t ht
  by_cases he : e' = e
  · subst he
    rw [Function.update_self, some.injEq] at ht
    omega
  · rw [Function.update_of_ne he] at ht
    exact (h e' t ht).trans (Nat.le_succ _)

lemma stampUpdate_stamps :
    log.writeGeneration ≤ (log.stampUpdate e).writeGeneration ∧
      (log.Stamped → (log.stampUpdate e).Stamped) := by
  rw [stampUpdate]
  split_ifs
  · exact ⟨Nat.le_refl _, id⟩
  · exact ⟨Nat.le_refl _, fun h => ⟨fun e t ht => (h.changed e t ht).trans (Nat.le_succ _),
      stamp_le h.updated⟩⟩
  · exact ⟨Nat.le_succ _, fun h => ⟨h.changed, h.updated⟩⟩

lemma noteUpdate_stamps :
    log.writeGeneration ≤ (log.noteUpdate e).writeGeneration ∧
      (log.Stamped → (log.noteUpdate e).Stamped) := by
  obtain ⟨hw, hs⟩ := noteAccess_stamps log e
  rw [noteUpdate]
  split
  · dsimp only
    split
    · exact ⟨hw.ge, fun h => ⟨(hs h).changed, (hs h).updated⟩⟩
    · obtain ⟨hw', hs'⟩ := stampUpdate_stamps { log.noteAccess e with rendering := none } e
      exact ⟨hw.ge.trans hw', fun h => hs' ⟨(hs h).changed, (hs h).updated⟩⟩
  · obtain ⟨hw', hs'⟩ := stampUpdate_stamps (log.noteAccess e) e
    exact ⟨hw.ge.trans hw', fun h => hs' (hs h)⟩

lemma noteNotify_stamps :
    (log.noteNotify e).writeGeneration = log.writeGeneration ∧
      (log.Stamped → (log.noteNotify e).Stamped) := by
  rw [noteNotify]
  split_ifs
  · exact ⟨rfl, fun h => ⟨stamp_le h.changed, fun e t ht => (h.updated e t ht).trans (Nat.le_succ _)⟩⟩
  · exact ⟨rfl, fun h => ⟨h.changed, h.updated⟩⟩

lemma forget_stamps (h : log.Stamped) : (log.forget e).Stamped := by
  have hforget : ∀ stamps : E → Option ℕ, (∀ e t, stamps e = some t → t ≤ log.updateGeneration) →
      ∀ e' t, Function.update stamps e none e' = some t → t ≤ log.updateGeneration := by
    intro stamps hstamps e' t ht
    by_cases he : e' = e
    · subst he
      rw [Function.update_self] at ht
      exact absurd ht (by simp)
    · rw [Function.update_of_ne he] at ht
      exact hstamps e' t ht
  exact ⟨hforget _ h.changed, hforget _ h.updated⟩

end Stamps

lemma advances_step {op : ReadOp E G V} {r : Option (RecordedDependencies E G V)}
    (h : s.step op = some (s', r)) : Advances s s' := by
  have hsame : ∀ f : EntityAccessLog E → EntityAccessLog E,
      s.app.access.writeGeneration ≤ (f s.app.access).writeGeneration →
      (s.app.access.Stamped → (f s.app.access).Stamped) → Advances s (s.modifyAccess f) :=
    fun f hw hs => ⟨hw, hs⟩
  cases op with
  | beginRecording =>
    obtain ⟨rfl, -⟩ := Prod.mk.inj (some.inj h)
    exact ⟨Nat.le_refl _, fun hs => ⟨hs.changed, hs.updated⟩⟩
  | finishRecording =>
    rw [step] at h
    split at h
    · exact absurd h (by simp)
    · obtain ⟨rfl, -⟩ := Prod.mk.inj (some.inj h)
      exact ⟨Nat.le_refl _, fun hs => ⟨hs.changed, hs.updated⟩⟩
  | access e =>
    obtain ⟨rfl, -⟩ := Prod.mk.inj (some.inj h)
    obtain ⟨hw, hs⟩ := noteAccess_stamps s.app.access e
    exact hsame (·.noteAccess e) hw.ge hs
  | update e =>
    obtain ⟨rfl, -⟩ := Prod.mk.inj (some.inj h)
    obtain ⟨hw, hs⟩ := noteUpdate_stamps s.app.access e
    exact hsame (·.noteUpdate e) hw hs
  | notify e =>
    obtain ⟨rfl, -⟩ := Prod.mk.inj (some.inj h)
    obtain ⟨hw, hs⟩ := noteNotify_stamps s.app.access e
    exact hsame (·.noteNotify e) hw.ge hs
  | forget e =>
    obtain ⟨rfl, -⟩ := Prod.mk.inj (some.inj h)
    exact hsame (·.forget e) (Nat.le_refl _) (forget_stamps s.app.access e)
  | renderNext e | setQueried e | globalChanged e | bump e =>
    obtain ⟨rfl, -⟩ := Prod.mk.inj (some.inj h)
    exact ⟨Nat.le_refl _, fun hs => ⟨hs.changed, hs.updated⟩⟩
  | globalRead g =>
    obtain ⟨rfl, -⟩ := Prod.mk.inj (some.inj h)
    have hlog : (s.app.noteGlobalRead g).access = s.app.access := by
      rw [ReadingApp.noteGlobalRead]
      split <;> rfl
    exact ⟨by rw [hlog], by rw [hlog]; exact id⟩
  | stateRead v readAt =>
    rw [step] at h
    split at h
    · obtain ⟨rfl, -⟩ := Prod.mk.inj (some.inj h)
      have hlog : (s.app.noteStateRead v).access = s.app.access := by
        rw [ReadingApp.noteStateRead]
        split <;> rfl
      exact ⟨by rw [hlog], by rw [hlog]; exact id⟩
    · exact absurd h (by simp)
  | replay d =>
    obtain ⟨rfl, -⟩ := Prod.mk.inj (some.inj h)
    have hlog : (s.app.replayDependencies d).access.writeGeneration =
        s.app.access.writeGeneration ∧
        (s.app.access.Stamped → (s.app.replayDependencies d).access.Stamped) := by
      rw [ReadingApp.replayDependencies, extendAccessedRecorded]
      dsimp only
      split_ifs <;> exact ⟨rfl, fun hs => ⟨hs.changed, hs.updated⟩⟩
    exact ⟨hlog.1.ge, hlog.2⟩

lemma advances_run (ops : List (ReadOp E G V)) :
    ∀ {s s' : Drawing E G V} {rs : List (RecordedDependencies E G V)},
      s.run ops = some (s', rs) → Advances s s' := by
  induction ops with
  | nil =>
    intro s s' rs h
    obtain ⟨rfl, -⟩ := Prod.mk.inj (some.inj h)
    exact Advances.refl s
  | cons op ops ih =>
    intro s s' rs h
    rw [run] at h
    obtain ⟨⟨s₁, r⟩, hstep, hrest⟩ := bind_eq_some_iff.mp h
    obtain ⟨⟨s₂, rs'⟩, hrun, hend⟩ := bind_eq_some_iff.mp hrest
    obtain ⟨rfl, -⟩ := Prod.mk.inj (some.inj hend)
    exact (advances_step hstep).trans (ih hrun)

structure Placed (s : Drawing E G V) (d : RenderDependencies E G V) (s' : Drawing E G V) : Prop where
  advances : Advances s s'
  after : s.app.access.writeGeneration ≤ d.writes.upTo
  before : d.writes.upTo ≤ s'.app.access.writeGeneration
  states_once : (d.states.map Prod.fst).Nodup

lemma placed_recording {body : List (ReadOp E G V)} {inner : List (RecordedDependencies E G V)}
    {r : RecordedDependencies E G V}
    (h : s.run (.beginRecording :: body ++ [.finishRecording]) = some (s', inner ++ [r])) :
    Placed s r.all s' ∧ Placed s r.own s' := by
  obtain ⟨s₁, rs₁, rs₂, hbody, hfinish, hrs⟩ := run_append _ _ h
  have hadvances := advances_run _ h
  have hadvances₁ := advances_run _ hbody
  obtain ⟨r', opened, hopened, rfl⟩ := run_finish hfinish
  obtain ⟨-, hr⟩ := append_inj' hrs rfl
  obtain rfl := singleton_inj.mp hr
  have hlast := (advances_run _ hfinish).writes
  exact ⟨⟨hadvances, hadvances₁.writes, hlast, (uniqueStates_spec _).1⟩,
    ⟨hadvances, hadvances₁.writes, hlast, (uniqueStates_spec _).1⟩⟩

lemma Placed.union {s₁ s₂ s₃ : Drawing E G V} {a b : RenderDependencies E G V} (ha : Placed s a s₁)
    (hbetween : Advances s₁ s₂) (hb : Placed s₂ b s₃) : Placed s (a.union b) s₃ := by
  have hbefore : a.writes.upTo ≤ b.writes.upTo :=
    ha.before.trans (hbetween.writes.trans hb.after)
  refine ⟨ha.advances.trans (hbetween.trans hb.advances), ?_, ?_, ?_⟩
  · rw [RenderDependencies.union]
    split
    · exact ha.after
    · exact ha.after.trans (Nat.le_max_left _ _)
  · rw [RenderDependencies.union]
    split
    · exact hbefore.trans hb.before
    · exact (Nat.max_eq_right hbefore).le.trans hb.before
  · rw [RenderDependencies.union]
    split
    · exact ha.states_once
    · dsimp only
      split
      · exact ha.states_once
      · exact (uniqueStates_spec _).1

lemma Recorded.placed {d : RenderDependencies E G V} (h : Recorded s d s') : Placed s d s' := by
  induction h with
  | all _ hrun => exact (placed_recording hrun).1
  | own _ hrun => exact (placed_recording hrun).2
  | union _ hbetween _ iha ihb => exact iha.union (advances_run _ hbetween) ihb

/-- In every later state of a run, the union of two sets recorded one after the other sees what
either sees, unless it is blind to it. -/
theorem unionSees_iff {ops between later : List (ReadOp E G V)} {s s₁ s₂ s₃ s₄ : Drawing E G V}
    {rs rs' rs'' : List (RecordedDependencies E G V)} {a b : RenderDependencies E G V}
    (hrun : ({} : Drawing E G V).run ops = some (s, rs)) (ha : Recorded s a s₁)
    (hbetween : s₁.run between = some (s₂, rs')) (hb : Recorded s₂ b s₃)
    (hlater : s₃.run later = some (s₄, rs'')) (insideNotified : Bool) :
    s₄.app.UnionSees a b insideNotified ↔ s₄.app.blind a b insideNotified = false := by
  have hpa := ha.placed
  have hpb := hb.placed
  have hmid := advances_run _ hbetween
  have hall := (advances_run _ hrun).trans
    (hpa.advances.trans (hmid.trans (hpb.advances.trans (advances_run _ hlater))))
  have hstamped := hall.stamped ⟨fun e t ht => by simp at ht, fun e t ht => by simp at ht⟩
  exact ReadingApp.unionSees_iff_of_stamped hstamped hpa.states_once hpb.states_once
    (hpa.before.trans (hmid.writes.trans hpb.after))

/-- Entity `1` is read twice, with another view writing entity `2` between and a task updating `1`
after. -/
theorem unionSees_updated :
    ∃ (a b : RenderDependencies ℕ ℕ ℕ) (s₁ s₂ s₃ s₄ : Drawing ℕ ℕ ℕ) (rs rs' : _),
      Recorded {} a s₁ ∧ s₁.run [.beginRecording, .update 2, .finishRecording] = some (s₂, rs) ∧
        Recorded s₂ b s₃ ∧ s₃.run [.update 1, .notify 1] = some (s₄, rs') ∧
        s₄.app.blind a b false = false ∧ s₄.app.UnionSees a b false := by
  refine ⟨_, _, _, _, _, _, _, _,
    @Recorded.all ℕ ℕ ℕ _ _ _ _ _ [.access 1] _ _ rfl rfl, rfl,
    @Recorded.all ℕ ℕ ℕ _ _ _ _ _ [.access 1] _ _ rfl rfl, rfl, by decide, ?_⟩
  have hsees := @unionSees_iff ℕ ℕ ℕ _ _ _ [] [.beginRecording, .update 2, .finishRecording]
    [.update 1, .notify 1] _ _ _ _ _ _ _ _ _ _ rfl
    (@Recorded.all ℕ ℕ ℕ _ _ _ _ _ [.access 1] _ _ rfl rfl) rfl
    (@Recorded.all ℕ ℕ ℕ _ _ _ _ _ [.access 1] _ _ rfl rfl) rfl false
  exact hsees.mpr (by decide)

/-- Another view writes entity `1` between the recordings, and nothing is written after. -/
theorem union_blind_between :
    ¬ ∀ (a b : RenderDependencies ℕ ℕ ℕ) (s₁ s₂ s₃ : Drawing ℕ ℕ ℕ) (between : _) (rs : _),
      Recorded {} a s₁ → s₁.run between = some (s₂, rs) → Recorded s₂ b s₃ →
        s₃.app.UnionSees a b false := by
  intro hall
  have h := hall _ _ _ _ _ [.beginRecording, .update 1, .finishRecording] _
    (@Recorded.all ℕ ℕ ℕ _ _ _ _ _ [.access 1] _ _ rfl rfl) rfl
    (@Recorded.all ℕ ℕ ℕ _ _ _ _ _ [.access 1] _ _ rfl rfl)
  exact absurd (h (by decide)) (by decide)

end Drawing

end GpuiFast
