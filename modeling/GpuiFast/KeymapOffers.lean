import GpuiFast.KeymapActions
import GpuiFast.KeymapPending

namespace GpuiFast

namespace Keymap

variable {keymap : Keymap} {windows : Bool} {input : List Keystroke} {contexts : List KeyContext}

lemma candidates_nodup : ((keymap.candidates windows input contexts).map Matched.index).Nodup := by
  have hnodup : ((keymap.extending windows input).map Prod.fst).Nodup := extending_nodup
  refine hnodup.sublist
    ((filterMap_index_sublist (fun entry m hm => ?_) _).trans (List.filter_sublist.map _))
  obtain ⟨depth, -, hm⟩ := Option.bind_eq_some_iff.mp hm
  dsimp only at hm
  split at hm
  · rw [← Option.some.inj hm]
  · cases hm

structure Offered (keymap : Keymap) (windows : Bool) (input : List Keystroke)
    (contexts : List KeyContext) (m : Matched) : Prop where
  binding_eq : keymap.bindings[m.index]? = some m.binding
  enabled : m.binding.enabled contexts = some m.depth
  runs : m.binding.disables = false
  pending : m.binding.matchKeystrokes windows input = some true
  dispatched : (m.index, m.binding) ∈ (resolveBindingsForInput windows
    (fullInput input m.binding) contexts keymap.reversed).1

/-- The bindings offered to follow an input are, deepest first and the later ones of a depth first,
those in context that extend it and that the whole keymap runs for the input followed by the rest of
their keystrokes. -/
theorem possibleNext_offered (keymap : Keymap) (windows : Bool) (input : List Keystroke)
    (contexts : List KeyContext) :
    (∃ offered : List Matched,
      keymap.possibleNextBindingsForInput windows input contexts = offered.map Matched.binding ∧
        offered.Pairwise Matched.Outranks ∧
          ∀ m, m ∈ offered ↔ keymap.Offered windows input contexts m) ∧
      ∀ binding, binding ∈ keymap.possibleNextBindingsForInput windows input contexts ↔
        binding ∈ keymap.bindings ∧ (binding.enabled contexts).isSome ∧ binding.disables = false ∧
          binding.matchKeystrokes windows input = some true ∧
            binding ∈ (keymap.bindingsForInput windows (fullInput input binding) contexts).1 := by
  have hperm := List.perm_insertionSort Matched.Before (keymap.candidates windows input contexts)
  have hoffered : ∀ m, m ∈ (keymap.candidates windows input contexts).insertionSort
      Matched.Before ↔ keymap.Offered windows input contexts m := by
    intro m
    rw [hperm.mem_iff, mem_candidates]
    exact ⟨fun ⟨hb, he, hd, hp, hr⟩ => ⟨hb, he, hd, hp, hr⟩,
      fun h => ⟨h.binding_eq, h.enabled, h.runs, h.pending, h.dispatched⟩⟩
  refine ⟨⟨_, possibleNext_eq, ?_, hoffered⟩, fun binding => ?_⟩
  · have hnodup : ((keymap.candidates windows input contexts).insertionSort
        Matched.Before).Pairwise (fun a b => a.index ≠ b.index) :=
      List.pairwise_map.mp ((hperm.map Matched.index).nodup_iff.mpr candidates_nodup)
    refine ((List.pairwise_insertionSort Matched.Before _).and hnodup).imp ?_
    rintro a b ⟨h | ⟨h, hle⟩, hne⟩
    · exact Or.inl h
    · exact Or.inr ⟨h, by omega⟩
  · rw [possibleNext_eq, List.mem_map]
    constructor
    · rintro ⟨m, hm, rfl⟩
      have h := (hoffered m).mp hm
      exact ⟨List.mem_of_getElem? h.binding_eq, by rw [h.enabled]; rfl, h.runs, h.pending,
        List.mem_map.mpr ⟨_, h.dispatched, rfl⟩⟩
    · rintro ⟨-, henabled, hd, hpending, hmem⟩
      obtain ⟨depth, hdepth⟩ := Option.isSome_iff_exists.mp henabled
      obtain ⟨⟨index, b⟩, hresolved, rfl⟩ := List.mem_map.mp hmem
      have hget := (of_mem_resolved hresolved).1
      exact ⟨⟨depth, index, b⟩, (hoffered _).mpr ⟨hget, hdepth, hd, hpending, hresolved⟩, rfl⟩

end Keymap

end GpuiFast
