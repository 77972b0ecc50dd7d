import GpuiFast.SharedLog
import Mathlib

/-! A view's layout keys without those of its gaps. A gap's keys usually stand in the view's list as
one stretch, found by its first key, and then only the keys outside the stretches are looked up. -/

namespace GpuiFast.Splice

open List

/-- The search for the gaps' stretches from `cursor` on: the ranges between them, added to
`outside`, and the end of the last one. -/
def findStretches (keys : List UInt64) :
    (cursor : ℕ) → (outside : List (ℕ × ℕ)) → List (List UInt64) → Option (List (ℕ × ℕ) × ℕ)
  | cursor, outside, [] => some (outside, cursor)
  | cursor, outside, [] :: gaps => findStretches keys cursor outside gaps
  | cursor, outside, (first :: others) :: gaps =>
    let gap := first :: others
    match (keys.drop cursor).findIdx? (· == first) with
    | none => none
    | some offset =>
      let start := cursor + offset
      if start + gap.length ≤ keys.length ∧ slice keys start (start + gap.length) = gap then
        findStretches keys (start + gap.length)
          (if start > cursor then outside ++ [(cursor, start)] else outside) gaps
      else none

def removeKeys : List UInt64 → Finset UInt64 → Finset UInt64
  | [], scratch => scratch
  | key :: keys, scratch =>
    let scratch := scratch.erase key
    if scratch = ∅ then scratch else removeKeys keys scratch

def keysOf (keys : List UInt64) (ranges : List (ℕ × ℕ)) : List UInt64 :=
  ranges.flatMap (fun range => slice keys range.1 range.2)

def keptKeys (keys : List UInt64) (gaps : List (List UInt64)) (_scratch : Finset UInt64) :
    List UInt64 × Finset UInt64 :=
  match findStretches keys 0 [] gaps with
  | none =>
    let scratch := gaps.flatten.toFinset
    (keys.filter (fun key => key ∉ scratch), ∅)
  | some (outside, cursor) =>
    let outside := if cursor < keys.length then outside ++ [(cursor, keys.length)] else outside
    if outside = [] then ([], ∅)
    else
      let scratch := removeKeys gaps.flatten (keysOf keys outside).toFinset
      ((keysOf keys outside).filter (fun key => key ∈ scratch), ∅)

variable {keys : List UInt64}

lemma mem_removeKeys {scratch : Finset UInt64} {key : UInt64} :
    key ∈ removeKeys keys scratch ↔ key ∈ scratch ∧ key ∉ keys := by
  induction keys generalizing scratch with
  | nil => simp [removeKeys]
  | cons first keys ih =>
    rw [removeKeys]
    split
    · rename_i hempty
      -- Nothing is left that a later key could remove.
      have hnot : key ∉ scratch.erase first := by simp [hempty]
      rw [Finset.mem_erase] at hnot
      simp only [hempty, Finset.notMem_empty, mem_cons, false_iff]
      rintro ⟨hmem, hout⟩
      exact hnot ⟨fun heq => hout (.inl heq), hmem⟩
    · rw [ih, Finset.mem_erase, mem_cons]
      tauto

lemma keysOf_append (keys : List UInt64) (ranges more : List (ℕ × ℕ)) :
    keysOf keys (ranges ++ more) = keysOf keys ranges ++ keysOf keys more :=
  flatMap_append

lemma keysOf_singleton (keys : List UInt64) (start stop : ℕ) :
    keysOf keys [(start, stop)] = slice keys start stop :=
  append_nil _

lemma findStretches_keysOf {gaps : List (List UInt64)} {cursor stop : ℕ}
    {outside found : List (ℕ × ℕ)} {kept : UInt64 → Bool}
    (hkept : ∀ gap ∈ gaps, ∀ key ∈ gap, kept key = false) (hcursor : cursor ≤ keys.length)
    (h : findStretches keys cursor outside gaps = some (found, stop)) :
    cursor ≤ stop ∧ stop ≤ keys.length ∧ (keysOf keys found).filter kept =
      (keysOf keys outside).filter kept ++ (slice keys cursor stop).filter kept := by
  induction gaps generalizing cursor outside with
  | nil =>
    simp only [findStretches, Option.some.injEq, Prod.mk.injEq] at h
    obtain ⟨rfl, rfl⟩ := h
    refine ⟨le_rfl, hcursor, ?_⟩
    rw [slice_of_le le_rfl, filter_nil, append_nil]
  | cons gap gaps ih =>
    have hrest := fun gap hgap => hkept gap (mem_cons_of_mem _ hgap)
    cases gap with
    | nil => exact ih hrest hcursor h
    | cons first others =>
      rw [findStretches] at h
      split at h
      · cases h
      · rename_i offset hoffset
        simp only at h
        split at h
        · rename_i hgap
          obtain ⟨hend, hgap⟩ := hgap
          obtain ⟨hle, hstop, hfound⟩ := ih hrest hend h
          have hstart : cursor + offset ≤ cursor + offset + (first :: others).length := by omega
          have hbetween : (keysOf keys (if cursor + offset > cursor then
              outside ++ [(cursor, cursor + offset)] else outside)).filter kept =
              (keysOf keys outside).filter kept ++
                (slice keys cursor (cursor + offset)).filter kept := by
            split
            · rw [keysOf_append, keysOf_singleton, filter_append]
            · rw [slice_of_le (by omega), filter_nil, append_nil]
          have hnone : (slice keys (cursor + offset)
              (cursor + offset + (first :: others).length)).filter kept = [] := by
            rw [hgap, filter_eq_nil_iff]
            intro key hkey
            simp [hkept _ mem_cons_self key hkey]
          refine ⟨by omega, hstop, ?_⟩
          rw [hfound, hbetween,
            ← slice_append_slice (show cursor ≤ cursor + offset by omega) (hstart.trans hle) hstop,
            ← slice_append_slice hstart hle hstop, filter_append, filter_append, hnone,
            nil_append, append_assoc]
        · cases h

/-- The kept keys are those in no gap, in order and as often, and the scratch set is left empty. -/
theorem keptKeys_eq_filter (keys : List UInt64) (gaps : List (List UInt64))
    (scratch : Finset UInt64) :
    keptKeys keys gaps scratch = (keys.filter (fun key => ∀ gap ∈ gaps, key ∉ gap), ∅) := by
  have hflatten : ∀ key, key ∉ gaps.flatten ↔ ∀ gap ∈ gaps, key ∉ gap := by simp
  rw [keptKeys]
  split
  · simp only [mem_toFinset, hflatten]
  · rename_i outside cursor hfound
    have hkept : ∀ gap ∈ gaps, ∀ key ∈ gap,
        decide (∀ gap ∈ gaps, key ∉ gap) = false := by
      intro gap hgap key hkey
      exact decide_eq_false (fun hall => hall gap hgap hkey)
    obtain ⟨-, hstop, heq⟩ := findStretches_keysOf hkept (Nat.zero_le _) hfound
    simp only
    have hall : (keysOf keys (if cursor < keys.length then outside ++ [(cursor, keys.length)]
        else outside)).filter (fun key => ∀ gap ∈ gaps, key ∉ gap) =
        keys.filter (fun key => ∀ gap ∈ gaps, key ∉ gap) := by
      have hwhole : slice keys 0 cursor ++ slice keys cursor keys.length = keys := by
        rw [slice_append_slice (Nat.zero_le _) hstop le_rfl, slice_length, drop_zero]
      have htail : (keysOf keys (if cursor < keys.length then outside ++ [(cursor, keys.length)]
          else outside)).filter (fun key => ∀ gap ∈ gaps, key ∉ gap) =
          (keysOf keys outside).filter (fun key => ∀ gap ∈ gaps, key ∉ gap) ++
            (slice keys cursor keys.length).filter (fun key => ∀ gap ∈ gaps, key ∉ gap) := by
        split
        · rw [keysOf_append, keysOf_singleton, filter_append]
        · rw [slice_of_le (by omega), filter_nil, append_nil]
      rw [htail, heq, append_assoc, ← filter_append, hwhole]
      rfl
    generalize (if cursor < keys.length then outside ++ [(cursor, keys.length)] else outside) =
      ranges at hall ⊢
    rw [← hall]
    split
    · rename_i hempty
      rw [hempty]
      rfl
    · refine congrArg (·, ∅) (filter_congr fun key hkey => ?_)
      simp only [mem_removeKeys, mem_toFinset, hflatten, decide_eq_decide]
      exact ⟨fun h => h.2, fun h => ⟨hkey, h⟩⟩

end GpuiFast.Splice
