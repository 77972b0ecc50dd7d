import GpuiFast.ShapedLineSplits

/-! The cursor stands at a decoration that starts where it is or goes over that place. What a split
there leaves is that decoration cut down to the part that is left, and those that follow. -/

namespace GpuiFast

open List Option

variable {δ : Type*}

def decorationsLen (decorations : List (DecorationRun δ)) : ℕ :=
  (decorations.map (·.len.toNat)).sum

/-- What is left at a byte index of decorations the first of which starts at an offset. -/
def trimmed (m offset : UInt32) : List (DecorationRun δ) → List (DecorationRun δ)
  | [] => []
  | decoration :: decorations =>
    { decoration with len := offset + decoration.len - m } :: decorations

/-- Whether the decoration at hand, if there is one, starts at a byte index or goes over it. -/
def StandsAt (m offset : UInt32) (decorations : List (DecorationRun δ)) : Prop :=
  ∀ decoration ∈ decorations.head?,
    offset = m ∨ (offset < m ∧ m.toNat < offset.toNat + decoration.len.toNat)

lemma trimmed_self (m : UInt32) (decorations : List (DecorationRun δ)) :
    trimmed m m decorations = decorations := by
  cases decorations with
  | nil => rfl
  | cons decoration decorations =>
    have hlen : m + decoration.len - m = decoration.len := by
      rw [UInt32.add_comm, UInt32.add_sub_cancel]
    rw [trimmed, hlen]

variable {b : UInt32}

variable {a m offset : UInt32} {decorations : List (DecorationRun δ)} {index : ℕ}

lemma checkedAdd32_eq (h : a.toNat + b.toNat < 2 ^ 32) : checkedAdd32 a b = some (a + b) := if_pos h

lemma toNat_add_of_lt (h : a.toNat + b.toNat < 2 ^ 32) : (a + b).toNat = a.toNat + b.toNat := by
  rw [UInt32.toNat_add]
  omega

section Steps

variable {b m offset : UInt32} {decoration : DecorationRun δ} {decorations : List (DecorationRun δ)}
  {index : ℕ}

lemma splitDecorations_pass (hadd : offset.toNat + decoration.len.toNat < 2 ^ 32)
    (hend : offset + decoration.len ≤ b) :
    splitDecorations b offset (decoration :: decorations) =
      (splitDecorations b (offset + decoration.len) decorations).map (fun rest =>
        (decoration :: rest.1, rest.2)) := by
  rw [splitDecorations, checkedAdd32_eq hadd, bind_some]
  simp only [if_pos hend]

lemma splitDecorations_of_lt (hlt : b < offset)
    (h : offset.toNat + decorationsLen decorations < 2 ^ 32) :
    splitDecorations b offset decorations = some ([], decorations) := by
  induction decorations generalizing offset with
  | nil => rfl
  | cons decoration decorations ih =>
    rw [decorationsLen, map_cons, sum_cons] at h
    have hadd : offset.toNat + decoration.len.toNat < 2 ^ 32 := by omega
    have hend := toNat_add_of_lt hadd
    rw [UInt32.lt_iff_toNat_lt] at hlt
    have hsplit := @ih (offset + decoration.len) (by rw [UInt32.lt_iff_toNat_lt]; omega)
      (by rw [decorationsLen]; omega)
    rw [splitDecorations, checkedAdd32_eq hadd, bind_some, hsplit,
      map_some, if_neg (by rw [UInt32.le_iff_toNat_le]; omega),
      if_pos (by rw [UInt32.le_iff_toNat_le]; omega)]

lemma splitDecorations_cut (h : offset.toNat + decorationsLen (decoration :: decorations) < 2 ^ 32)
    (hend : b.toNat < offset.toNat + decoration.len.toNat) :
    splitDecorations b offset (decoration :: decorations) =
      if b ≤ offset then some ([], decoration :: decorations)
      else some ([{ decoration with len := b - offset }],
        { decoration with len := offset + decoration.len - b } :: decorations) := by
  rw [decorationsLen, map_cons, sum_cons] at h
  have hadd : offset.toNat + decoration.len.toNat < 2 ^ 32 := by omega
  have hadd' := toNat_add_of_lt hadd
  have hlt : b < offset + decoration.len := by rw [UInt32.lt_iff_toNat_lt]; omega
  rw [splitDecorations, checkedAdd32_eq hadd, bind_some,
    splitDecorations_of_lt hlt (by rw [decorationsLen]; omega), map_some,
    if_neg (UInt32.not_le.mpr hlt)]
  split
  · rfl
  · rfl

variable {start : UInt32}

lemma takeDecorations_pass (hstart : max offset m = start)
    (hadd : offset.toNat + decoration.len.toNat < 2 ^ 32) (hend : offset + decoration.len ≤ b)
    (hgo : offset < b ∨ decoration.len = 0 ∧ offset = b) (hle : start ≤ offset + decoration.len)
    (hpush : start < offset + decoration.len ∨ decoration.len = 0) :
    takeDecorations b m (decoration :: decorations) index offset =
      (takeDecorations b m decorations (index + 1) (offset + decoration.len)).map (fun rest =>
        ({ decoration with len := offset + decoration.len - start } :: rest.1, rest.2)) := by
  have hmin : min (offset + decoration.len) b = offset + decoration.len := if_pos hend
  have hpush : 0 < offset + decoration.len - start ∨ decoration.len = 0 := by grind
  rw [takeDecorations, if_pos hgo, checkedAdd32_eq hadd, bind_some, hmin, hstart,
    checkedSub32, if_pos hle, bind_some, if_pos hpush, if_pos hend]
  rfl

lemma takeDecorations_cut (hstart : max offset m = start)
    (hadd : offset.toNat + decoration.len.toNat < 2 ^ 32) (hend : b < offset + decoration.len)
    (hgo : offset < b) (hle : start ≤ b) :
    takeDecorations b m (decoration :: decorations) index offset =
      some (if start < b then [{ decoration with len := b - start }] else [], index, offset) := by
  have hmin : min (offset + decoration.len) b = b := if_neg (UInt32.not_le.mpr hend)
  have hpush : (0 < b - start ∨ decoration.len = 0) ↔ start < b := by
    constructor
    · rintro (hpos | hzero)
      · grind
      · rw [hzero, UInt32.add_zero] at hend
        exact absurd (UInt32.lt_trans hend hgo) (UInt32.lt_irrefl b)
    · intro hlt
      exact .inl (by grind)
  rw [takeDecorations, if_pos (.inl hgo), checkedAdd32_eq hadd, bind_some, hmin, hstart,
    checkedSub32, if_pos hle, bind_some, if_neg (UInt32.not_le.mpr hend)]
  simp only [hpush]

end Steps

lemma takeDecorations_from (hm : m ≤ offset) (hb : offset ≤ b)
    (hlen : offset.toNat + decorationsLen decorations < 2 ^ 32) :
    ∃ taken passed stop, takeDecorations b m decorations index offset =
        some (taken, index + passed, stop) ∧
      splitDecorations (b - m) (offset - m) decorations =
        some (taken, trimmed b stop (decorations.drop passed)) ∧
      StandsAt b stop (decorations.drop passed) ∧
      stop.toNat + decorationsLen (decorations.drop passed) < 2 ^ 32 := by
  induction decorations generalizing index offset with
  | nil =>
    refine ⟨[], 0, offset, rfl, rfl, ?_, hlen⟩
    intro decoration hdecoration
    cases hdecoration
  | cons decoration decorations ih =>
    have hlen' := hlen
    rw [decorationsLen, map_cons, sum_cons] at hlen'
    have hadd : offset.toNat + decoration.len.toNat < 2 ^ 32 := by omega
    have hend := toNat_add_of_lt hadd
    have hsub := UInt32.toNat_sub_of_le _ _ hm
    have hsub' := UInt32.toNat_sub_of_le _ _ (UInt32.le_trans hm hb)
    have hstart : max offset m = offset := by
      by_cases hle : offset ≤ m
      · exact (if_pos hle).trans (UInt32.le_antisymm hm hle)
      · exact if_neg hle
    rw [UInt32.le_iff_toNat_le] at hm hb
    by_cases hpass : offset.toNat + decoration.len.toNat ≤ b.toNat
    · obtain ⟨taken, passed, stop, htake, hsplit, hstands, hstop⟩ :=
        @ih (offset + decoration.len) (index + 1) (by rw [UInt32.le_iff_toNat_le]; omega)
          (by rw [UInt32.le_iff_toNat_le]; omega) (by rw [decorationsLen]; omega)
      refine ⟨decoration :: taken, passed + 1, stop, ?_, ?_, hstands, hstop⟩
      · have hwhole : offset + decoration.len - offset = decoration.len := by grind
        have hgo : offset < b ∨ decoration.len = 0 ∧ offset = b := by
          by_cases hlt : offset.toNat < b.toNat
          · exact .inl (UInt32.lt_iff_toNat_lt.mpr hlt)
          · refine .inr ⟨UInt32.toNat_inj.mp ?_, UInt32.toNat_inj.mp (by omega)⟩
            rw [UInt32.toNat_zero]
            omega
        have hpush : offset < offset + decoration.len ∨ decoration.len = 0 := by
          by_cases hzero : decoration.len.toNat = 0
          · exact .inr (UInt32.toNat_inj.mp hzero)
          · exact .inl (by rw [UInt32.lt_iff_toNat_lt]; omega)
        rw [takeDecorations_pass hstart hadd (by rw [UInt32.le_iff_toNat_le]; omega) hgo
          (by rw [UInt32.le_iff_toNat_le]; omega) hpush, htake, map_some, hwhole,
          Nat.add_assoc, Nat.add_comm 1 passed]
      · have hnext : offset - m + decoration.len = offset + decoration.len - m := by grind
        have hle : offset + decoration.len - m ≤ b - m := by
          rw [UInt32.le_iff_toNat_le, UInt32.toNat_sub_of_le _ _ (by rw [UInt32.le_iff_toNat_le]; omega)]
          omega
        rw [splitDecorations_pass (by omega) (by rw [hnext]; exact hle), hnext, hsplit]
        rfl
    · have hcut := @splitDecorations_cut δ (b - m) (offset - m) decoration decorations
        (by rw [decorationsLen, map_cons, sum_cons]; omega) (by omega)
      by_cases hlt : offset.toNat < b.toNat
      · refine ⟨[{ decoration with len := b - offset }], 0, offset, ?_, ?_, ?_, hlen⟩
        · rw [takeDecorations_cut hstart hadd (by rw [UInt32.lt_iff_toNat_lt]; omega)
            (UInt32.lt_iff_toNat_lt.mpr hlt) (by rw [UInt32.le_iff_toNat_le]; omega),
            if_pos (UInt32.lt_iff_toNat_lt.mpr hlt)]
          rfl
        · have hlen : b - m - (offset - m) = b - offset := by grind
          have hlen' : offset - m + decoration.len - (b - m) = offset + decoration.len - b := by
            grind
          rw [hcut, if_neg (by rw [UInt32.le_iff_toNat_le]; omega), hlen, hlen']
          rfl
        · intro _ hhead
          obtain rfl := some.inj hhead
          exact .inr ⟨UInt32.lt_iff_toNat_lt.mpr hlt, by omega⟩
      · obtain rfl : offset = b := UInt32.toNat_inj.mp (by omega)
        refine ⟨[], 0, offset, ?_, ?_, fun _ _ => .inl rfl, hlen⟩
        · rw [takeDecorations, if_neg]
          · rfl
          · rintro (hgo | ⟨hzero, -⟩)
            · exact UInt32.lt_irrefl _ hgo
            · rw [hzero, UInt32.toNat_zero] at hpass
              omega
        · rw [hcut, if_pos (UInt32.le_refl _), drop_zero, trimmed_self]

lemma takeDecorations_spec (hstands : StandsAt m offset decorations) (hmb : m ≤ b)
    (hlen : offset.toNat + decorationsLen decorations < 2 ^ 32) :
    ∃ taken passed stop, takeDecorations b m decorations index offset =
        some (taken, index + passed, stop) ∧
      splitDecorations (b - m) 0 (trimmed m offset decorations) =
        some (taken, trimmed b stop (decorations.drop passed)) ∧
      StandsAt b stop (decorations.drop passed) ∧
      stop.toNat + decorationsLen (decorations.drop passed) < 2 ^ 32 := by
  cases decorations with
  | nil =>
    refine ⟨[], 0, offset, rfl, rfl, ?_, hlen⟩
    intro decoration hdecoration
    cases hdecoration
  | cons decoration decorations =>
    rcases hstands decoration rfl with rfl | ⟨hlt, hover⟩
    · have hzero : offset - offset = 0 := UInt32.sub_self offset
      rw [trimmed_self]
      have hfrom := @takeDecorations_from δ b offset offset _ index (UInt32.le_refl offset) hmb hlen
      rwa [hzero] at hfrom
    · -- the decoration at hand was taken in part
      have hlen' := hlen
      rw [decorationsLen, map_cons, sum_cons] at hlen'
      have hadd : offset.toNat + decoration.len.toNat < 2 ^ 32 := by omega
      have hend := toNat_add_of_lt hadd
      have hstart : max offset m = m := if_pos (UInt32.le_of_lt hlt)
      have hleft : (offset + decoration.len - m).toNat =
          offset.toNat + decoration.len.toNat - m.toNat := by
        rw [UInt32.toNat_sub_of_le _ _ (by rw [UInt32.le_iff_toNat_le]; omega), hend]
      have hsub := UInt32.toNat_sub_of_le _ _ hmb
      have hgo : offset < b := by
        rw [UInt32.lt_iff_toNat_lt] at hlt ⊢
        rw [UInt32.le_iff_toNat_le] at hmb
        omega
      have hnext : 0 + (offset + decoration.len - m) = offset + decoration.len - m :=
        UInt32.zero_add _
      rw [UInt32.le_iff_toNat_le] at hmb
      by_cases hpass : offset.toNat + decoration.len.toNat ≤ b.toNat
      · obtain ⟨taken, passed, stop, htake, hsplit, hstands, hstop⟩ :=
          @takeDecorations_from δ b m (offset + decoration.len) decorations (index + 1)
            (by rw [UInt32.le_iff_toNat_le]; omega) (by rw [UInt32.le_iff_toNat_le]; omega)
            (by rw [decorationsLen]; omega)
        refine ⟨{ decoration with len := offset + decoration.len - m } :: taken, passed + 1, stop,
          ?_, ?_, hstands, hstop⟩
        · rw [takeDecorations_pass hstart hadd (by rw [UInt32.le_iff_toNat_le]; omega) (.inl hgo)
            (by rw [UInt32.le_iff_toNat_le]; omega) (.inl (by rw [UInt32.lt_iff_toNat_lt]; omega)),
            htake, map_some, Nat.add_assoc, Nat.add_comm 1 passed]
        · rw [trimmed, splitDecorations_pass]
          · rw [hnext, hsplit]
            rfl
          · simp only [UInt32.toNat_zero]
            omega
          · rw [hnext, UInt32.le_iff_toNat_le]
            omega
      · have hcut := @splitDecorations_cut δ (b - m) 0
          { decoration with len := offset + decoration.len - m } decorations
          (by
            simp only [decorationsLen, map_cons, sum_cons, UInt32.toNat_zero]
            omega)
          (by
            simp only [UInt32.toNat_zero]
            omega)
        rw [hnext] at hcut
        refine ⟨if m < b then [{ decoration with len := b - m }] else [], 0, offset, ?_, ?_, ?_,
          hlen⟩
        · rw [takeDecorations_cut hstart hadd (by rw [UInt32.lt_iff_toNat_lt]; omega) hgo
            (UInt32.le_iff_toNat_le.mpr hmb)]
          rfl
        · have hlen : b - m - 0 = b - m := UInt32.sub_zero _
          have hlen' : offset + decoration.len - m - (b - m) = offset + decoration.len - b := by
            grind
          rw [trimmed, hcut, hlen, hlen']
          by_cases hmb' : m.toNat < b.toNat
          · rw [if_neg (by rw [UInt32.le_iff_toNat_le, UInt32.toNat_zero]; omega),
              if_pos (UInt32.lt_iff_toNat_lt.mpr hmb')]
            rfl
          · obtain rfl : m = b := UInt32.toNat_inj.mp (by omega)
            rw [if_pos (by rw [UInt32.le_iff_toNat_le, UInt32.toNat_zero]; omega),
              if_neg (UInt32.lt_irrefl m)]
            rfl
        · intro _ hhead
          obtain rfl := some.inj hhead
          exact .inr ⟨hgo, by omega⟩

end GpuiFast
