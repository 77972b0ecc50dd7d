import GpuiFast.OptionMaps
import GpuiFast.ShapedLine

namespace GpuiFast

open List Option

variable {K δ : Type*}

def ShapedGlyph.shift [Sub K] (n : ℕ) (x : K) (glyph : ShapedGlyph K) : ShapedGlyph K :=
  { glyph with position := ⟨glyph.position.x - x, glyph.position.y⟩, index := glyph.index - n }

variable {n : ℕ} {glyph : ShapedGlyph K} {m b : ℕ} {runs : List (ShapedRun K)}

variable {x : K} {run : ShapedRun K} {bs : List ℕ}

lemma ShapedGlyph.rebase_of_le [Sub K] (h : n ≤ glyph.index) :
    glyph.rebase n x = some (glyph.shift n x) := by
  rw [rebase, checkedSub, if_pos h]
  rfl

lemma ShapedGlyph.rebase_of_lt [Sub K] (h : glyph.index < n) : glyph.rebase n x = none := by
  rw [rebase, checkedSub, if_neg (Nat.not_le.mpr h)]
  rfl

lemma ShapedGlyph.shift_zero [AddGroup K] (glyph : ShapedGlyph K) : glyph.shift 0 0 = glyph := by
  simp [shift]

lemma ShapedGlyph.shift_shift [AddCommGroup K] (x y : K) (hmn : m ≤ n) :
    (glyph.shift m x).shift (n - m) (y - x) = glyph.shift n y := by
  simp only [shift, sub_sub_sub_cancel_right, ShapedGlyph.mk.injEq, true_and, and_true]
  omega

namespace ShapedRun

def shift [Sub K] (n : ℕ) (x : K) (run : ShapedRun K) : ShapedRun K :=
  ⟨run.fontId, run.glyphs.map (ShapedGlyph.shift n x)⟩

def keep (run : ShapedRun K) : List (ShapedRun K) := if run.glyphs = [] then [] else [run]

def cut (b : ℕ) (run : ShapedRun K) : ℕ :=
  partitionPoint (fun glyph => glyph.index < b) run.glyphs

def front (b : ℕ) (run : ShapedRun K) : ShapedRun K := ⟨run.fontId, run.glyphs.take (run.cut b)⟩

def back (b : ℕ) (run : ShapedRun K) : ShapedRun K := ⟨run.fontId, run.glyphs.drop (run.cut b)⟩

lemma shift_zero [AddGroup K] (run : ShapedRun K) : run.shift 0 0 = run := by
  rw [shift, map_congr_left (g := id) (fun glyph _ => glyph.shift_zero), List.map_id]

variable {run : ShapedRun K} {b n : ℕ} {x : K} {m : ℕ}

lemma mem_keep {kept : ShapedRun K} : kept ∈ run.keep ↔ kept = run ∧ run.glyphs ≠ [] := by
  rw [keep]
  split
  · next h => simp [h]
  · next h => simp [h]

lemma flatMap_keep {β : Type*} {runs : List (ShapedRun K)} {f : ShapedRun K → List β}
    (hf : ∀ run : ShapedRun K, run.glyphs = [] → f run = []) :
    (runs.flatMap keep).flatMap f = runs.flatMap f := by
  rw [flatMap_assoc]
  congr 1
  funext run
  rw [keep]
  split
  · next h => rw [hf run h, flatMap_nil]
  · rw [flatMap_singleton]

lemma glyphs_flatMap_keep (runs : List (ShapedRun K)) :
    (runs.flatMap keep).flatMap (·.glyphs) = runs.flatMap (·.glyphs) :=
  flatMap_keep (fun _ h => h)

lemma keep_front_nil [Sub K] (h : run.glyphs = []) : ((run.front b).shift n x).keep = [] := by
  simp [keep, shift, front, h]

lemma keep_back_nil (h : run.glyphs = []) : (run.back b).keep = [] := by
  simp [keep, back, h]

lemma glyphs_front_append_back (b : ℕ) (run : ShapedRun K) :
    (run.front b).glyphs ++ (run.back b).glyphs = run.glyphs := take_append_drop ..

lemma keep_shift [Sub K] (n : ℕ) (x : K) (run : ShapedRun K) :
    (run.shift n x).keep = run.keep.map (shift n x) := by
  rw [keep, keep]
  by_cases h : run.glyphs = []
  · rw [if_pos h, if_pos (by rw [shift, h, map_nil]), map_nil]
  · rw [if_neg h, if_neg (by rwa [shift, map_eq_nil_iff]), map_singleton]

lemma cut_shift [Sub K] (hmb : m ≤ b) (hrun : ∀ glyph ∈ run.glyphs, m ≤ glyph.index) :
    (run.shift m x).cut (b - m) = run.cut b := by
  apply partitionPoint_map
  intro glyph hglyph
  have := hrun glyph hglyph
  have hiff : glyph.index - m < b - m ↔ glyph.index < b := by omega
  exact decide_eq_decide.mpr hiff

lemma keep_shift_front [Sub K] (run : ShapedRun K) :
    ((run.front b).shift n x).keep =
      if 0 < run.cut b then [(run.front b).shift n x] else [] := by
  by_cases hcut : 0 < run.cut b
  · have hne : run.glyphs ≠ [] := by
      intro h
      rw [cut, h] at hcut
      exact Nat.not_lt_zero 0 hcut
    rw [if_pos hcut, keep, if_neg]
    simp [shift, front, hne, hcut.ne']
  · rw [if_neg hcut, keep, if_pos]
    simp [shift, front, Nat.eq_zero_of_not_pos hcut]

lemma keep_shift_back [Sub K] (run : ShapedRun K) :
    ((run.back b).shift n x).keep =
      if run.cut b < run.glyphs.length then [(run.back b).shift n x] else [] := by
  by_cases hcut : run.cut b < run.glyphs.length
  · rw [if_pos hcut, keep, if_neg]
    simp [shift, back, hcut]
  · rw [if_neg hcut, keep, if_pos]
    simp [shift, back, Nat.not_lt.mp hcut]

lemma splitAt_shift [AddCommGroup K] (x y : K) (hmb : m ≤ b)
    (hrun : ∀ glyph ∈ run.glyphs, m ≤ glyph.index)
    (hback : ∀ glyph ∈ (run.back b).glyphs, b ≤ glyph.index) :
    (run.shift m x).splitAt (b - m) (y - x) =
      some (((run.front b).shift m x).keep, ((run.back b).shift b y).keep) := by
  have hcut : partitionPoint (fun glyph => glyph.index < b - m) (run.shift m x).glyphs = run.cut b :=
    cut_shift hmb hrun
  have hlength : (run.shift m x).glyphs.length = run.glyphs.length := length_map _
  have hfront : (⟨run.fontId, (run.shift m x).glyphs.take (run.cut b)⟩ : ShapedRun K) =
      (run.front b).shift m x := by
    rw [shift, shift, front, map_take]
  have hmap : ((run.shift m x).glyphs.drop (run.cut b)).mapM
      (ShapedGlyph.rebase (b - m) (y - x)) = some ((run.back b).shift b y).glyphs := by
    rw [shift, ← map_drop, mapM_map]
    apply mapM_eq_some_map
    intro glyph hglyph
    have hle : b - m ≤ (glyph.shift m x).index := Nat.sub_le_sub_right (hback glyph hglyph) m
    exact (ShapedGlyph.rebase_of_le hle).trans (congrArg some (ShapedGlyph.shift_shift x y hmb))
  rw [splitAt, hcut, hlength, hmap, keep_shift_front, keep_shift_back, ← hfront]
  simp only [map_some]
  split
  · rfl
  · rfl

lemma splitAt_shift_eq_none [AddCommGroup K] (x y : K) (hmb : m ≤ b)
    (hrun : ∀ glyph ∈ run.glyphs, m ≤ glyph.index) {glyph : ShapedGlyph K}
    (hglyph : glyph ∈ (run.back b).glyphs) (hlt : glyph.index < b) :
    (run.shift m x).splitAt (b - m) (y - x) = none := by
  have hcut : partitionPoint (fun glyph => glyph.index < b - m) (run.shift m x).glyphs = run.cut b :=
    cut_shift hmb hrun
  have hlength : (run.shift m x).glyphs.length = run.glyphs.length := length_map _
  have hmap : ((run.shift m x).glyphs.drop (run.cut b)).mapM
      (ShapedGlyph.rebase (b - m) (y - x)) = none := by
    rw [shift, ← map_drop]
    apply mapM_eq_none (mem_map_of_mem hglyph)
    have := hrun glyph (mem_of_mem_drop hglyph)
    apply ShapedGlyph.rebase_of_lt
    show glyph.index - m < b - m
    omega
  have hlt : run.cut b < run.glyphs.length := by
    by_contra hle
    rw [back, drop_eq_nil_of_le (Nat.not_lt.mp hle)] at hglyph
    cases hglyph
  rw [splitAt, hcut, hlength, hmap, if_pos hlt]
  rfl

end ShapedRun

def xAmong (width : K) (runs : List (ShapedRun K)) (b : ℕ) : K :=
  (((runs.flatMap (·.glyphs)).find? (fun glyph => b ≤ glyph.index)).map (·.position.x)).getD width

lemma xAmong_shift [AddCommGroup K] (x width : K) (hmb : m ≤ b)
    (hruns : ∀ run ∈ runs, ∀ glyph ∈ run.glyphs, m ≤ glyph.index) :
    xAmong (width - x) (runs.map (ShapedRun.shift m x)) (b - m) = xAmong width runs b - x := by
  have hglyphs : (runs.map (ShapedRun.shift m x)).flatMap (·.glyphs) =
      (runs.flatMap (·.glyphs)).map (ShapedGlyph.shift m x) := by
    rw [flatMap_map, map_flatMap]
    rfl
  have hfind : ∀ glyphs : List (ShapedGlyph K), (∀ glyph ∈ glyphs, m ≤ glyph.index) →
      (glyphs.map (ShapedGlyph.shift m x)).find? (fun glyph => b - m ≤ glyph.index) =
        (glyphs.find? (fun glyph => b ≤ glyph.index)).map (ShapedGlyph.shift m x) := by
    intro glyphs hglyphs
    rw [find?_map]
    congr 1
    apply find?_congr
    intro glyph hglyph
    have hle := hglyphs glyph hglyph
    have hiff : b - m ≤ glyph.index - m ↔ b ≤ glyph.index := by omega
    exact decide_eq_decide.mpr hiff
  have hle : ∀ glyph ∈ runs.flatMap (·.glyphs), m ≤ glyph.index := by
    intro glyph hglyph
    obtain ⟨run, hrun, hglyph⟩ := mem_flatMap.mp hglyph
    exact hruns run hrun glyph hglyph
  rw [xAmong, xAmong, hglyphs, hfind _ hle]
  cases (runs.flatMap (·.glyphs)).find? (fun glyph => b ≤ glyph.index) with
  | none => rfl
  | some glyph => rfl

/-- What the glyphs of `runs`, counted from a byte index and a place, leave of a line. -/
structure Remainder [AddCommGroup K] (line : ShapedLine K δ) (m : ℕ) (x : K)
    (runs : List (ShapedRun K)) (rest : ShapedLine K δ) : Prop where
  layout : rest.layout = { line.layout with
    width := line.layout.width - x
    runs := runs.map (ShapedRun.shift m x)
    len := line.layout.len - m }
  text : rest.text = line.text.drop m
  le_index : ∀ run ∈ runs, ∀ glyph ∈ run.glyphs, m ≤ glyph.index
  index_lt : ∀ run ∈ runs, ∀ glyph ∈ run.glyphs, glyph.index < line.layout.len
  decorations : (rest.decorationRuns.map (·.len.toNat)).sum < 2 ^ 32

def backs (b : ℕ) (runs : List (ShapedRun K)) : List (ShapedRun K) :=
  runs.flatMap (fun run => (run.back b).keep)

def CutsCleanly (b : ℕ) (runs : List (ShapedRun K)) : Prop :=
  ∀ run ∈ runs, ∀ glyph ∈ (run.back b).glyphs, b ≤ glyph.index

lemma mem_backs (h : run ∈ backs b runs) : ∃ whole ∈ runs, run = whole.back b := by
  obtain ⟨whole, hwhole, hrun⟩ := mem_flatMap.mp h
  exact ⟨whole, hwhole, (ShapedRun.mem_keep.mp hrun).1⟩

lemma isCharBoundary_drop {text : Text} (hmb : m ≤ b) (h : isCharBoundary text b = true) :
    isCharBoundary (text.drop m) (b - m) = true := by
  rw [isCharBoundary]
  split
  · rfl
  · next hne =>
    rw [isCharBoundary, if_neg (by omega)] at h
    rw [length_drop, getElem?_drop, Nat.add_sub_cancel' hmb]
    split at h
    · next hle =>
      rw [decide_eq_true_eq] at h
      rw [if_pos (by omega), decide_eq_true_eq]
      omega
    · next hlt =>
      rw [if_neg (by omega)]
      exact h

lemma splitDecorations_isSome {splitPoint offset : UInt32} {decorations : List (DecorationRun δ)}
    (h : offset.toNat + (decorations.map (·.len.toNat)).sum < 2 ^ 32) :
    ∃ parts, splitDecorations splitPoint offset decorations = some parts ∧
      (parts.2.map (·.len.toNat)).sum ≤ (decorations.map (·.len.toNat)).sum := by
  induction decorations generalizing offset with
  | nil => exact ⟨_, rfl, le_rfl⟩
  | cons decoration decorations ih =>
    rw [map_cons, sum_cons] at h
    have hend : (offset + decoration.len).toNat = offset.toNat + decoration.len.toNat := by
      rw [UInt32.toNat_add]
      omega
    obtain ⟨parts, hparts, hsum⟩ := @ih (offset + decoration.len) (by omega)
    rw [splitDecorations, checkedAdd32, if_pos (by omega), bind_some, hparts, map_some]
    refine ⟨_, rfl, ?_⟩
    rw [map_cons, sum_cons]
    split
    · simp only
      omega
    · split
      · simp only [map_cons, sum_cons]
        omega
      · next hafter hbefore =>
        have hle : splitPoint ≤ offset + decoration.len := by
          exact (UInt32.le_total ..).resolve_left hafter
        have hsub := UInt32.toNat_sub_of_le _ _ hle
        have hlt : offset.toNat < splitPoint.toNat := UInt32.not_le.mp hbefore
        simp only [map_cons, sum_cons, hsub]
        omega

namespace Remainder

variable [AddCommGroup K] {line rest : ShapedLine K δ} {m b : ℕ} {x : K} {runs : List (ShapedRun K)}

lemma whole (hindex : ∀ i ∈ line.layout.glyphIndices, i < line.layout.len)
    (hdecorations : (line.decorationRuns.map (·.len.toNat)).sum < 2 ^ 32) :
    Remainder line 0 0 line.layout.runs line where
  layout := by
    have hruns : line.layout.runs.map (ShapedRun.shift 0 0) = line.layout.runs := by
      rw [map_congr_left (g := id) (fun run _ => run.shift_zero), List.map_id]
    rw [hruns, sub_zero, Nat.sub_zero]
  text := rfl
  le_index := fun _ _ _ _ => Nat.zero_le _
  index_lt := by
    intro run hrun glyph hglyph
    exact hindex _ (mem_flatMap.mpr ⟨run, hrun, mem_map_of_mem hglyph⟩)
  decorations := hdecorations

section

variable (h : Remainder line m x runs rest) (hmb : m ≤ b)
include h hmb

lemma xForIndex : rest.layout.xForIndex (b - m) = xAmong line.layout.width runs b - x := by
  rw [h.layout]
  exact xAmong_shift x line.layout.width hmb h.le_index

lemma layout_splitAt (hb : b ≤ line.layout.len) (hcuts : CutsCleanly b runs) :
    let y := xAmong line.layout.width runs b
    rest.layout.splitAt (b - m) = some
      ({ line.layout with
          width := y - x
          runs := runs.flatMap (fun run => ((run.front b).shift m x).keep)
          len := b - m },
        { line.layout with
          width := line.layout.width - y
          runs := (backs b runs).map (ShapedRun.shift b y)
          len := line.layout.len - b }) := by
  intro y
  have hparts : (runs.map (ShapedRun.shift m x)).mapM (ShapedRun.splitAt (b - m) (y - x)) =
      some (runs.map (fun run => (((run.front b).shift m x).keep, ((run.back b).shift b y).keep))) := by
    rw [mapM_map]
    apply mapM_eq_some_map
    intro run hrun
    exact ShapedRun.splitAt_shift x y hmb (h.le_index run hrun) (hcuts run hrun)
  have hbacks : runs.flatMap (fun run => ((run.back b).shift b y).keep) =
      (backs b runs).map (ShapedRun.shift b y) := by
    rw [backs, map_flatMap]
    congr 1
    funext run
    exact ShapedRun.keep_shift b y (run.back b)
  rw [LineLayout.splitAt, h.xForIndex hmb, h.layout]
  simp only
  rw [hparts, bind_some, checkedSub, if_pos (Nat.sub_le_sub_right hb m), map_some, flatMap_map,
    flatMap_map, hbacks, sub_sub_sub_cancel_right, Nat.sub_sub_sub_cancel_right hmb]

lemma splitAt (hb : b ≤ line.layout.len) (hchar : isCharBoundary line.text b = true)
    (hcuts : CutsCleanly b runs) : let y := xAmong line.layout.width runs b
    ∃ decorations rest',
      rest.splitAt (b - m) = some
        (⟨{ line.layout with
            width := y - x
            runs := runs.flatMap (fun run => ((run.front b).shift m x).keep)
            len := b - m },
          (line.text.drop m).take (b - m), decorations⟩, rest') ∧
      splitDecorations (.ofNat (b - m)) 0 rest.decorationRuns =
        some (decorations, rest'.decorationRuns) ∧
      Remainder line b y (backs b runs) rest' := by
  intro y
  obtain ⟨parts, hparts, hsum⟩ := @splitDecorations_isSome _ (.ofNat (b - m)) 0 rest.decorationRuns
    (by simpa using h.decorations)
  refine ⟨parts.1, ⟨{ line.layout with
      width := line.layout.width - y
      runs := (backs b runs).map (ShapedRun.shift b y)
      len := line.layout.len - b }, line.text.drop b, parts.2⟩, ?_, hparts, ?_⟩
  · rw [ShapedLine.splitAt, h.layout_splitAt hmb hb hcuts, bind_some, hparts, bind_some, h.text,
      if_pos (isCharBoundary_drop hmb hchar), drop_drop, Nat.add_sub_cancel' hmb]
  · exact {
      layout := rfl
      text := rfl
      le_index := by
        intro run hrun
        obtain ⟨whole, hwhole, rfl⟩ := mem_backs hrun
        exact hcuts whole hwhole
      index_lt := by
        intro run hrun glyph hglyph
        obtain ⟨whole, hwhole, rfl⟩ := mem_backs hrun
        exact h.index_lt whole hwhole glyph (mem_of_mem_drop hglyph)
      decorations := hsum.trans_lt h.decorations }

lemma splitAt_eq_none (hcuts : ¬ CutsCleanly b runs) : rest.splitAt (b - m) = none := by
  have hglyph : ∃ run ∈ runs, ∃ glyph ∈ (run.back b).glyphs, glyph.index < b := by
    simpa only [CutsCleanly, not_forall, Nat.not_le, exists_prop] using hcuts
  obtain ⟨run, hrun, glyph, hglyph, hlt⟩ := hglyph
  have hparts : (runs.map (ShapedRun.shift m x)).mapM
      (ShapedRun.splitAt (b - m) (xAmong line.layout.width runs b - x)) = none :=
    mapM_eq_none (mem_map_of_mem hrun)
      (ShapedRun.splitAt_shift_eq_none x _ hmb (h.le_index run hrun) hglyph hlt)
  rw [ShapedLine.splitAt, LineLayout.splitAt, h.xForIndex hmb, h.layout]
  simp only
  rw [hparts]
  rfl

end

end Remainder

/-- Whether the binary searches for boundaries in turn each leave only indices from there on. -/
def SplitsCleanly : List ℕ → List ℕ → Prop
  | _, [] => True
  | indices, b :: bs =>
    let rest := indices.drop (partitionPoint (· < b) indices)
    (∀ i ∈ rest, b ≤ i) ∧ SplitsCleanly rest bs

instance decidableSplitsCleanly : ∀ indices bs, Decidable (SplitsCleanly indices bs)
  | _, [] => .isTrue trivial
  | indices, b :: bs =>
    have := decidableSplitsCleanly (indices.drop (partitionPoint (· < b) indices)) bs
    inferInstanceAs (Decidable (_ ∧ _))

lemma splitsCleanly_nil (bs : List ℕ) : SplitsCleanly [] bs := by
  induction bs with
  | nil => trivial
  | cons b bs ih =>
    rw [SplitsCleanly, drop_nil]
    exact ⟨fun i hi => absurd hi not_mem_nil, ih⟩

lemma ShapedRun.splitsCleanly_cons :
    SplitsCleanly (run.glyphs.map (·.index)) (b :: bs) ↔
      (∀ glyph ∈ (run.back b).glyphs, b ≤ glyph.index) ∧
        SplitsCleanly ((run.back b).glyphs.map (·.index)) bs := by
  have hcut : partitionPoint (· < b) (run.glyphs.map (·.index)) = run.cut b :=
    partitionPoint_map (fun _ _ => rfl)
  rw [SplitsCleanly, hcut, ← map_drop]
  exact and_congr forall_mem_map Iff.rfl

lemma splitsCleanly_cons :
    (∀ run ∈ runs, SplitsCleanly (run.glyphs.map (·.index)) (b :: bs)) ↔
      CutsCleanly b runs ∧ ∀ run ∈ backs b runs, SplitsCleanly (run.glyphs.map (·.index)) bs := by
  constructor
  · intro h
    refine ⟨fun run hrun => (ShapedRun.splitsCleanly_cons.mp (h run hrun)).1, ?_⟩
    intro run hrun
    obtain ⟨whole, hwhole, rfl⟩ := mem_backs hrun
    exact (ShapedRun.splitsCleanly_cons.mp (h whole hwhole)).2
  · rintro ⟨hcuts, hbacks⟩ run hrun
    refine ShapedRun.splitsCleanly_cons.mpr ⟨hcuts run hrun, ?_⟩
    by_cases hnil : (run.back b).glyphs = []
    · rw [hnil]
      exact splitsCleanly_nil bs
    · exact hbacks _ (mem_flatMap.mpr ⟨run, hrun, ShapedRun.mem_keep.mpr ⟨rfl, hnil⟩⟩)

structure AddUp [AddCommGroup K] (line : ShapedLine K δ) (m : ℕ) (x : K)
    (pieces : List (ShapedLine K δ)) : Prop where
  width : (pieces.map (·.layout.width)).sum = line.layout.width - x
  len : (pieces.map (·.layout.len)).sum = line.layout.len - m
  text : pieces.flatMap (·.text) = line.text.drop m

namespace Remainder

variable [AddCommGroup K] {line rest : ShapedLine K δ} {m : ℕ} {x : K} {runs : List (ShapedRun K)}
  {bs : List ℕ}

lemma splitAll (h : Remainder line m x runs rest) (hlen : line.layout.len = line.text.length)
    (hsorted : (m :: bs).Pairwise (· ≤ ·))
    (hbs : ∀ b ∈ bs, b ≤ line.layout.len ∧ isCharBoundary line.text b = true)
    (hclean : ∀ run ∈ runs, SplitsCleanly (run.glyphs.map (·.index)) bs) :
    ∃ pieces, rest.splitAll m bs = some pieces ∧
      (bs.getLast? = some line.layout.len → AddUp line m x pieces) := by
  induction bs generalizing m x runs rest with
  | nil => exact ⟨[], rfl, fun hlast => by cases hlast⟩
  | cons b bs ih =>
    obtain ⟨hle, hsorted⟩ := pairwise_cons.mp hsorted
    obtain ⟨hcuts, hclean⟩ := splitsCleanly_cons.mp hclean
    have hmb := hle b mem_cons_self
    obtain ⟨hb, hchar⟩ := hbs b mem_cons_self
    obtain ⟨decorations, rest', hsplit, -, hrest⟩ := h.splitAt hmb hb hchar hcuts
    obtain ⟨pieces, hpieces, haddUp⟩ := ih hrest hsorted
      (fun b' hb' => hbs b' (mem_cons_of_mem b hb')) hclean
    refine ⟨_, by rw [ShapedLine.splitAll, hsplit, bind_some, hpieces, map_some], ?_⟩
    intro hlast
    cases bs with
    | nil =>
      obtain rfl := some.inj hlast
      obtain rfl : [] = pieces := some.inj hpieces
      have hnone : (runs.flatMap (·.glyphs)).find? (fun glyph => line.layout.len ≤ glyph.index) =
          none := by
        rw [find?_eq_none]
        intro glyph hglyph
        obtain ⟨run, hrun, hglyph⟩ := mem_flatMap.mp hglyph
        simpa using h.index_lt run hrun glyph hglyph
      have hx : xAmong line.layout.width runs line.layout.len = line.layout.width := by
        rw [xAmong, hnone]
        rfl
      have htext : (line.text.drop m).take (line.layout.len - m) = line.text.drop m := by
        rw [hlen, ← length_drop, take_length]
      exact ⟨by simp [hx], by simp, by simp [htext]⟩
    | cons c bs =>
      rw [getLast?_cons_cons] at hlast
      obtain ⟨hwidth, hlens, htexts⟩ := haddUp hlast
      refine ⟨?_, ?_, ?_⟩
      · rw [map_cons, sum_cons, hwidth]
        exact sub_add_sub_cancel' ..
      · rw [map_cons, sum_cons, hlens]
        simp only
        omega
      · rw [flatMap_cons, htexts, ← Nat.add_sub_cancel' hmb, ← drop_drop,
          Nat.add_sub_cancel' hmb, take_append_drop]

lemma splitAll_eq_none (h : Remainder line m x runs rest) (hsorted : (m :: bs).Pairwise (· ≤ ·))
    (hbs : ∀ b ∈ bs, b ≤ line.layout.len ∧ isCharBoundary line.text b = true)
    (hclean : ¬ ∀ run ∈ runs, SplitsCleanly (run.glyphs.map (·.index)) bs) :
    rest.splitAll m bs = none := by
  induction bs generalizing m x runs rest with
  | nil => exact absurd (fun _ _ => trivial) hclean
  | cons b bs ih =>
    obtain ⟨hle, hsorted⟩ := pairwise_cons.mp hsorted
    have hmb := hle b mem_cons_self
    obtain ⟨hb, hchar⟩ := hbs b mem_cons_self
    rw [splitsCleanly_cons] at hclean
    by_cases hcuts : CutsCleanly b runs
    · obtain ⟨decorations, rest', hsplit, -, hrest⟩ := h.splitAt hmb hb hchar hcuts
      have hnone := ih hrest hsorted (fun b' hb' => hbs b' (mem_cons_of_mem b hb'))
        (fun hbacks => hclean ⟨hcuts, hbacks⟩)
      rw [ShapedLine.splitAll, hsplit, bind_some, hnone]
      rfl
    · rw [ShapedLine.splitAll, h.splitAt_eq_none hmb hcuts]
      rfl

end Remainder

end GpuiFast
