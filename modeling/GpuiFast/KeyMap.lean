import Mathlib.Data.List.Dedup

/-! A finite map kept as a list of entries with distinct keys. Counting the entries that satisfy a
predicate is part of the interface, since counters that stand for such a count are what programs
keep beside their maps. -/

namespace GpuiFast

open List Option

structure KeyMap (κ β : Type*) where
  entries : List (κ × β)
  nodup : (entries.map Prod.fst).Nodup

namespace KeyMap

variable {κ β : Type*} [DecidableEq κ]

def empty : KeyMap κ β := ⟨[], by simp⟩

def get? (m : KeyMap κ β) (k : κ) : Option β :=
  (m.entries.find? (fun e => e.1 = k)).map Prod.snd

/-- Applies `f` to the value under `k`, if there is one. -/
def modify (m : KeyMap κ β) (k : κ) (f : β → β) : KeyMap κ β where
  entries := m.entries.map (fun e => if e.1 = k then (e.1, f e.2) else e)
  nodup := by
    have h : (m.entries.map (fun e => if e.1 = k then (e.1, f e.2) else e)).map Prod.fst =
        m.entries.map Prod.fst := by
      rw [List.map_map]
      exact map_congr_left (fun e _ => by simp only [Function.comp_apply]; split <;> rfl)
    rw [h]
    exact m.nodup

def filter (m : KeyMap κ β) (p : κ → β → Bool) : KeyMap κ β where
  entries := m.entries.filter (fun e => p e.1 e.2)
  nodup := m.nodup.sublist (filter_sublist.map _)

/-- Puts `v` under `k`, replacing what was there. -/
def insert (m : KeyMap κ β) (k : κ) (v : β) : KeyMap κ β where
  entries := m.entries.filter (fun e => e.1 ≠ k) ++ [(k, v)]
  nodup := by
    rw [map_append, map_singleton]
    refine Nodup.append (m.nodup.sublist (filter_sublist.map _)) (by simp) ?_
    simp

/-- Applies `f` to every value. -/
def mapValues (m : KeyMap κ β) (f : κ → β → β) : KeyMap κ β where
  entries := m.entries.map (fun e => (e.1, f e.1 e.2))
  nodup := by
    rw [List.map_map]
    exact m.nodup

/-- The map of `keys` to their values under `f`. -/
def ofKeys (keys : List κ) (f : κ → β) : KeyMap κ β where
  entries := keys.dedup.map (fun k => (k, f k))
  nodup := by
    rw [List.map_map, show Prod.fst ∘ (fun k => (k, f k)) = id from rfl, List.map_id]
    exact keys.nodup_dedup

def keys (m : KeyMap κ β) : List κ := m.entries.map Prod.fst

def size (m : KeyMap κ β) : ℕ := m.entries.length

/-- How many of the values satisfy `p`. -/
def count (m : KeyMap κ β) (p : β → Bool) : ℕ := m.entries.countP (fun e => p e.2)

variable {m : KeyMap κ β} {k : κ} {v : β}

lemma get?_eq_some : m.get? k = some v ↔ (k, v) ∈ m.entries := by
  obtain ⟨l, hl⟩ := m
  simp only [get?]
  induction l with
  | nil => simp
  | cons e l ih =>
    obtain ⟨hn, hd⟩ : e.1 ∉ l.map Prod.fst ∧ (l.map Prod.fst).Nodup := by simpa using hl
    rw [find?_cons]
    by_cases he : e.1 = k
    · have hk : (k, v) ∉ l := fun h => hn (he ▸ mem_map_of_mem h)
      have hv : e.2 = v ↔ (k, v) = e := by
        rw [eq_comm, Prod.ext_iff]
        simp [he]
      simp [he, hk, hv]
    · have hne : (k, v) ≠ e := fun h => he (h ▸ rfl)
      simpa [he, hne] using ih hd

lemma get?_eq_none : m.get? k = none ↔ k ∉ m.entries.map Prod.fst := by
  simp only [get?, map_eq_none_iff, find?_eq_none, decide_eq_true_eq, List.mem_map,
    not_exists, not_and]

@[simp] lemma get?_empty (k : κ) : (empty : KeyMap κ β).get? k = none := rfl

lemma get?_modify (m : KeyMap κ β) (k j : κ) (f : β → β) :
    (m.modify k f).get? j = if j = k then (m.get? j).map f else m.get? j := by
  obtain ⟨l, hl⟩ := m
  simp only [get?, modify]
  clear hl
  induction l with
  | nil => simp
  | cons e l ih =>
    rw [map_cons, find?_cons, find?_cons]
    by_cases he : e.1 = k <;> by_cases hj : e.1 = j
    · simp [he, ← hj]
    · simpa [he, hj, show k ≠ j from fun h => hj (he.trans h)] using ih
    · simp [hj, show j ≠ k from fun h => he (hj.trans h)]
    · simpa [he, hj] using ih

lemma get?_insert (m : KeyMap κ β) (k j : κ) (v : β) :
    (m.insert k v).get? j = if j = k then some v else m.get? j := by
  apply ext
  intro w
  rw [get?_eq_some]
  by_cases hj : j = k
  · simp [insert, hj, eq_comm]
  · simp [insert, hj, get?_eq_some]

lemma get?_filter (m : KeyMap κ β) (p : κ → β → Bool) (j : κ) :
    (m.filter p).get? j = (m.get? j).filter (p j) := by
  apply ext
  intro w
  rw [get?_eq_some, filter_eq_some_iff, get?_eq_some]
  simp [filter]

lemma get?_mapValues (m : KeyMap κ β) (f : κ → β → β) (j : κ) :
    (m.mapValues f).get? j = (m.get? j).map (f j) := by
  apply ext
  intro w
  rw [get?_eq_some, map_eq_some_iff]
  simp only [mapValues, List.mem_map, Prod.mk.injEq, Prod.exists, get?_eq_some]
  constructor
  · rintro ⟨k, v, hm, rfl, rfl⟩
    exact ⟨v, hm, rfl⟩
  · rintro ⟨v, hm, rfl⟩
    exact ⟨j, v, hm, rfl, rfl⟩

lemma get?_ofKeys {keys : List κ} {f : κ → β} {j : κ} :
    (ofKeys keys f).get? j = some v ↔ j ∈ keys ∧ f j = v := by
  rw [get?_eq_some]
  simp only [ofKeys, List.mem_map, mem_dedup, Prod.mk.injEq]
  constructor
  · rintro ⟨k, hk, rfl, rfl⟩
    exact ⟨hk, rfl⟩
  · rintro ⟨hj, rfl⟩
    exact ⟨j, hj, rfl, rfl⟩

lemma mem_keys : k ∈ m.keys ↔ ∃ v, m.get? k = some v := by
  simp [keys, get?_eq_some]

lemma map_modify {γ : Type*} (m : KeyMap κ β) (k : κ) {f : β → β} {g : β → γ}
    (h : ∀ v, g (f v) = g v) :
    (m.modify k f).entries.map (fun e => g e.2) = m.entries.map (fun e => g e.2) := by
  simp only [modify, List.map_map]
  refine map_congr_left (fun e _ => ?_)
  by_cases he : e.1 = k <;> simp [he, h]

lemma insert_entries_of_vacant (h : m.get? k = none) (v : β) :
    (m.insert k v).entries = m.entries ++ [(k, v)] := by
  rw [get?_eq_none] at h
  have hf : m.entries.filter (fun e => e.1 ≠ k) = m.entries := by
    refine filter_eq_self.mpr (fun e he => ?_)
    simp only [ne_eq, decide_not, Bool.not_eq_eq_eq_not, Bool.not_true, decide_eq_false_iff_not]
    exact fun hk => h (hk ▸ mem_map_of_mem he)
  simp only [insert, hf]

lemma count_insert_of_vacant (h : m.get? k = none) (v : β) (p : β → Bool) :
    (m.insert k v).count p = m.count p + if p v then 1 else 0 := by
  simp [count, insert_entries_of_vacant h, countP_append, countP_singleton]

lemma count_modify (h : m.get? k = some v) (f : β → β) (p : β → Bool) :
    (m.modify k f).count p + (if p v then 1 else 0) =
      m.count p + if p (f v) then 1 else 0 := by
  rw [get?_eq_some] at h
  obtain ⟨l, hl⟩ := m
  simp only [count, modify] at h ⊢
  induction l with
  | nil => simp at h
  | cons e l ih =>
    obtain ⟨hn, hd⟩ : e.1 ∉ l.map Prod.fst ∧ (l.map Prod.fst).Nodup := by simpa using hl
    rw [map_cons, countP_cons, countP_cons]
    rcases mem_cons.mp h with rfl | he
    · -- the entry itself: the tail has no other entry under its key
      have htail : l.map (fun e => if e.1 = k then (e.1, f e.2) else e) = l := by
        conv_rhs => rw [← List.map_id l]
        refine map_congr_left (fun e he => if_neg ?_)
        exact fun hk => hn (List.mem_map.mpr ⟨e, he, hk⟩)
      rw [htail]
      simp only [if_true]
      omega
    · have hne : e.1 ≠ k := fun hk => hn (List.mem_map.mpr ⟨(k, v), he, hk.symm⟩)
      have ih' := ih hd he
      rw [if_neg hne]
      omega

lemma count_filter_ne (m : KeyMap κ β) (k : κ) (p : β → Bool) :
    (m.filter (fun j _ => j ≠ k)).count p + (m.get? k).elim 0 (fun v => if p v then 1 else 0) =
      m.count p := by
  obtain ⟨l, hl⟩ := m
  simp only [count, filter, get?]
  induction l with
  | nil => simp
  | cons e l ih =>
    obtain ⟨hn, hd⟩ : e.1 ∉ l.map Prod.fst ∧ (l.map Prod.fst).Nodup := by simpa using hl
    by_cases he : e.1 = k
    · -- the entry itself: the tail has no other entry under its key
      have htail : l.filter (fun e => e.1 ≠ k) = l := by
        refine filter_eq_self.mpr (fun d hd => ?_)
        have hne : d.1 ≠ k := fun hk => hn (List.mem_map.mpr ⟨d, hd, hk.trans he.symm⟩)
        simpa using hne
      simpa [he, countP_cons] using congrArg (countP (fun e => p e.2)) htail
    · have ih' := ih hd
      simp only [he, find?_cons, filter_cons, countP_cons, ne_eq, decide_not,
        decide_false, Bool.not_false, if_true] at ih' ⊢
      omega

lemma count_insert (m : KeyMap κ β) (k : κ) (v : β) (p : β → Bool) :
    (m.insert k v).count p + (m.get? k).elim 0 (fun v => if p v then 1 else 0) =
      m.count p + if p v then 1 else 0 := by
  have h := m.count_filter_ne k p
  simp only [count, filter, insert, countP_append, countP_singleton] at h ⊢
  omega

lemma count_pos {p : β → Bool} (h : m.get? k = some v) (hp : p v = true) : 0 < m.count p :=
  countP_pos_iff.mpr ⟨(k, v), get?_eq_some.mp h, hp⟩

lemma count_eq_size_iff {p : β → Bool} :
    m.count p = m.size ↔ ∀ k v, m.get? k = some v → p v = true := by
  simp only [count, size, countP_eq_length, get?_eq_some]
  exact ⟨fun h k v hk => h (k, v) hk, fun h e he => h e.1 e.2 he⟩

end KeyMap

end GpuiFast
