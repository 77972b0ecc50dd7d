import GpuiFast.DecorationSplits

namespace GpuiFast

open List ShapedRun

variable {K δ : Type*}

def Ordered (runs : List (ShapedRun K)) : Prop :=
  ((runs.flatMap (·.glyphs)).map (·.index)).Pairwise (· ≤ ·)

def liveRuns (start : ℕ) : List (ShapedRun K) → List (ShapedRun K)
  | [] => []
  | run :: runs => ⟨run.fontId, run.glyphs.drop start⟩ :: runs

lemma liveRuns_zero (runs : List (ShapedRun K)) : liveRuns 0 runs = runs := by
  cases runs with
  | nil => rfl
  | cons run runs => rfl

variable {runs : List (ShapedRun K)} (b : ℕ)

lemma Ordered.cons {run : ShapedRun K} (h : Ordered (run :: runs)) :
    (run.glyphs.map (·.index)).Pairwise (· ≤ ·) ∧ Ordered runs ∧
      ∀ a ∈ run.glyphs, ∀ other ∈ runs, ∀ g ∈ other.glyphs, a.index ≤ g.index := by
  rw [Ordered, flatMap_cons, map_append, pairwise_append] at h
  obtain ⟨hrun, hruns, hle⟩ := h
  refine ⟨hrun, hruns, ?_⟩
  intro a ha other hother g hg
  exact hle _ (mem_map_of_mem ha) _
    (mem_map_of_mem (mem_flatMap.mpr ⟨other, hother, hg⟩))

namespace ShapedRun

variable {b : ℕ} {run : ShapedRun K}

section

variable (hsorted : (run.glyphs.map (·.index)).Pairwise (· ≤ ·))
include hsorted

lemma from_of_mem_dropWhile :
    ∀ glyph ∈ run.glyphs.dropWhile (fun glyph => glyph.index < b), b ≤ glyph.index := by
  rw [pairwise_map] at hsorted
  generalize run.glyphs = glyphs at hsorted
  induction glyphs with
  | nil => exact fun glyph hglyph => absurd hglyph not_mem_nil
  | cons first glyphs ih =>
    obtain ⟨hfirst, hglyphs⟩ := pairwise_cons.mp hsorted
    by_cases hlt : first.index < b
    · rw [dropWhile_cons_of_pos (by simpa using hlt)]
      exact ih hglyphs
    · rw [dropWhile_cons_of_neg (by simpa using hlt)]
      intro glyph hglyph
      rcases mem_cons.mp hglyph with rfl | hglyph
      · exact Nat.not_lt.mp hlt
      · exact (Nat.not_lt.mp hlt).trans (hfirst glyph hglyph)

lemma cut_of_sorted : run.cut b = (run.glyphs.takeWhile (fun glyph => glyph.index < b)).length := by
  have hcut : partitionPoint (fun glyph : ShapedGlyph K => decide (glyph.index < b))
      (run.glyphs.takeWhile (fun glyph => decide (glyph.index < b)) ++
        run.glyphs.dropWhile (fun glyph => decide (glyph.index < b))) =
        (run.glyphs.takeWhile (fun glyph => decide (glyph.index < b))).length := by
    apply partitionPoint_append
    · intro glyph hglyph
      have hlt := mem_takeWhile_imp hglyph
      exact hlt
    · intro glyph hglyph
      have hle := from_of_mem_dropWhile hsorted glyph hglyph
      simpa using hle
  rwa [takeWhile_append_dropWhile] at hcut

lemma glyphs_front_of_sorted :
    (run.front b).glyphs = run.glyphs.takeWhile (fun glyph => glyph.index < b) := by
  rw [front, cut_of_sorted hsorted]
  exact ((prefix_iff_eq_take).mp ( takeWhile_prefix _)).symm

lemma glyphs_back_of_sorted :
    (run.back b).glyphs = run.glyphs.dropWhile (fun glyph => glyph.index < b) := by
  have happend := run.glyphs_front_append_back b
  rw [glyphs_front_of_sorted hsorted] at happend
  exact append_cancel_left (happend.trans takeWhile_append_dropWhile.symm)

end

end ShapedRun

lemma Ordered.cuts (h : Ordered runs) (b : ℕ) : CutsCleanly b runs := by
  induction runs with
  | nil => exact fun run hrun => absurd hrun not_mem_nil
  | cons first runs ih =>
    obtain ⟨hfirst, hruns, -⟩ := h.cons
    intro run hrun
    rcases mem_cons.mp hrun with rfl | hrun
    · rw [ShapedRun.glyphs_back_of_sorted hfirst]
      exact ShapedRun.from_of_mem_dropWhile hfirst
    · exact ih hruns run hrun

lemma nothing_before {b : ℕ} (hsorted : Ordered runs)
    (h : ∀ run ∈ runs, ∀ glyph ∈ run.glyphs, b ≤ glyph.index) :
    ∀ run ∈ runs, (run.front b).glyphs = [] ∧ run.back b = run := by
  induction runs with
  | nil => exact fun run hrun => absurd hrun not_mem_nil
  | cons first runs ih =>
    obtain ⟨hfirst, hruns, -⟩ := hsorted.cons
    intro run hrun
    rcases mem_cons.mp hrun with rfl | hrun
    · have hnil : run.glyphs.takeWhile (fun glyph => decide (glyph.index < b)) = [] := by
        rw [takeWhile_eq_nil_iff]
        intro hpos
        have hle := h run mem_cons_self _ (getElem_mem hpos)
        simpa using hle
      have hcut : run.cut b = 0 := by
        rw [ShapedRun.cut_of_sorted hfirst, hnil, length_nil]
      exact ⟨by rw [ShapedRun.front, hcut, take_zero], by rw [back, hcut, drop_zero]⟩
    · exact ih hruns (fun run hrun => h run (mem_cons_of_mem first hrun)) run hrun

lemma takeGlyphs_cons [Sub K] {b m : ℕ} {x width : K} {run : ShapedRun K} {runIndex start : ℕ}
    {live : ShapedRun K} (hlive : live = ⟨run.fontId, run.glyphs.drop start⟩)
    (hsorted : (live.glyphs.map (·.index)).Pairwise (· ≤ ·))
    (hle : ∀ glyph ∈ live.glyphs, m ≤ glyph.index) :
    takeGlyphs b m x width (run :: runs) runIndex start =
      match (live.back b).glyphs with
      | glyph :: _ =>
        some (((live.front b).shift m x).keep, runIndex, start + live.cut b, glyph.position.x)
      | [] => (takeGlyphs b m x width runs (runIndex + 1) 0).map (fun rest =>
          (((live.front b).shift m x).keep ++ rest.1, rest.2)) := by
  have hfront := ShapedRun.glyphs_front_of_sorted (b := b) hsorted
  have hcut := ShapedRun.cut_of_sorted (b := b) hsorted
  have hdrop : run.glyphs.drop start = live.glyphs := by rw [hlive]
  have hmap : (live.glyphs.takeWhile (fun glyph => glyph.index < b)).mapM
      (ShapedGlyph.rebase m x) = some ((live.front b).shift m x).glyphs := by
    rw [shift, hfront]
    apply mapM_eq_some_map
    intro glyph hglyph
    exact ShapedGlyph.rebase_of_le (hle glyph ((takeWhile_subset _) hglyph))
  have hpiece : (if start < start + live.cut b then
      [(⟨run.fontId, ((live.front b).shift m x).glyphs⟩ : ShapedRun K)] else []) =
        ((live.front b).shift m x).keep := by
    rw [keep_shift_front, hlive]
    simp only [Nat.lt_add_right_iff_pos]
    rfl
  have hnext : run.glyphs[start + live.cut b]? = (live.back b).glyphs.head? := by
    rw [back, head?_drop, hlive, getElem?_drop]
  rw [takeGlyphs, hdrop, hmap, Option.bind_some, ← hcut, hpiece, hnext]
  cases (live.back b).glyphs with
  | nil => rfl
  | cons glyph glyphs => rfl

lemma takeGlyphs_spec [Sub K] {b m : ℕ} {x width : K} {runIndex start : ℕ}
    (hsorted : Ordered (liveRuns start runs))
    (hle : ∀ run ∈ liveRuns start runs, ∀ glyph ∈ run.glyphs, m ≤ glyph.index) :
    ∃ passed stop, takeGlyphs b m x width runs runIndex start =
        some ((liveRuns start runs).flatMap (fun run => ((run.front b).shift m x).keep),
          runIndex + passed, stop, xAmong width (liveRuns start runs) b) ∧
      (liveRuns stop (runs.drop passed)).flatMap keep = backs b (liveRuns start runs) := by
  induction runs generalizing runIndex start with
  | nil => exact ⟨0, start, rfl, rfl⟩
  | cons run runs ih =>
    obtain ⟨live, hlive⟩ : ∃ live : ShapedRun K, live = ⟨run.fontId, run.glyphs.drop start⟩ :=
      ⟨_, rfl⟩
    rw [liveRuns, ← hlive] at hsorted hle ⊢
    obtain ⟨hrun, hruns, hbefore⟩ := hsorted.cons
    have hglyphs := live.glyphs_front_append_back b
    have hfront : ∀ glyph ∈ (live.front b).glyphs, ¬ b ≤ glyph.index := by
      intro glyph hglyph
      rw [ShapedRun.glyphs_front_of_sorted hrun] at hglyph
      have hlt := mem_takeWhile_imp hglyph
      simpa using hlt
    have hfind : (live.front b).glyphs.find? (fun glyph => b ≤ glyph.index) = none := by
      simpa using hfront
    rw [takeGlyphs_cons hlive hrun (hle live mem_cons_self)]
    cases hback : (live.back b).glyphs with
    | cons glyph glyphs =>
      -- the runs that follow have nothing before the byte index
      have hglyph : b ≤ glyph.index :=
        hsorted.cuts b live mem_cons_self glyph (hback ▸ mem_cons_self)
      have hnothing := nothing_before (b := b) hruns (fun other hother g hg =>
        hglyph.trans (hbefore glyph (mem_of_mem_drop (hback ▸ mem_cons_self)) other hother g hg))
      refine ⟨0, start + live.cut b, ?_, ?_⟩
      · have hpieces : runs.flatMap (fun run => ((run.front b).shift m x).keep) = [] := by
          rw [flatMap_eq_nil_iff]
          intro other hother
          rw [keep, shift, (hnothing other hother).1, map_nil, if_pos rfl]
        have hx : xAmong width (live :: runs) b = glyph.position.x := by
          rw [xAmong, flatMap_cons, ← hglyphs, append_assoc, find?_append, hfind,
            hback, cons_append, find?_cons_of_pos (by simpa using hglyph)]
          rfl
        rw [flatMap_cons, hpieces, append_nil, hx]
        rfl
      · have hrest : backs b runs = runs.flatMap keep := by
          rw [backs, flatMap_def, flatMap_def]
          congr 1
          apply map_congr_left
          intro other hother
          rw [(hnothing other hother).2]
        have hhere : (⟨run.fontId, run.glyphs.drop (start + live.cut b)⟩ : ShapedRun K) =
            live.back b := by
          rw [back, hlive, drop_drop]
        rw [drop_zero, liveRuns, flatMap_cons, ← hrest, hhere]
        rfl
    | nil =>
      obtain ⟨passed, stop, htake, hrest⟩ := @ih (runIndex + 1) 0
        (by rwa [liveRuns_zero]) (by
          rw [liveRuns_zero]
          exact fun run hrun => hle run (mem_cons_of_mem live hrun))
      rw [liveRuns_zero] at htake hrest
      refine ⟨passed + 1, stop, ?_, ?_⟩
      · have hx : xAmong width (live :: runs) b = xAmong width runs b := by
          rw [xAmong, flatMap_cons, ← hglyphs, hback, append_nil, find?_append, hfind]
          rfl
        simp only
        rw [htake, Option.map_some, flatMap_cons, hx, Nat.add_assoc, Nat.add_comm 1 passed]
      · have hkeep : (live.back b).keep = [] := by rw [keep, if_pos hback]
        rw [drop_succ_cons, hrest, backs, backs, flatMap_cons, hkeep, nil_append]

lemma glyphs_backs (runs : List (ShapedRun K)) :
    (backs b runs).flatMap (·.glyphs) = runs.flatMap (fun run => (run.back b).glyphs) := by
  rw [backs, flatMap_assoc]
  congr 1
  funext run
  have hkeep := glyphs_flatMap_keep [run.back b]
  rwa [flatMap_singleton, flatMap_singleton] at hkeep

lemma backs_keep (runs : List (ShapedRun K)) : backs b (runs.flatMap keep) = backs b runs :=
  flatMap_keep (fun _ h => keep_back_nil h)

lemma keep_backs (runs : List (ShapedRun K)) : (backs b runs).flatMap keep = backs b runs := by
  rw [backs, flatMap_assoc]
  congr 1
  funext run
  by_cases hnil : (run.back b).glyphs = []
  · rw [keep, if_pos hnil, flatMap_nil]
  · have hkeep : (run.back b).keep = [run.back b] := by rw [keep, if_neg hnil]
    rw [hkeep, flatMap_singleton, hkeep]

lemma Ordered.backs (h : Ordered runs) (b : ℕ) : Ordered (backs b runs) := by
  rw [Ordered, glyphs_backs]
  refine Pairwise.sublist (Sublist.map _ ?_) h
  clear h
  induction runs with
  | nil => exact Sublist.refl _
  | cons run runs ih =>
    rw [flatMap_cons, flatMap_cons]
    exact (drop_sublist ..).append ih

lemma xAmong_backs (h : Ordered runs) (width : K) {b b' : ℕ} (hb : b ≤ b') :
    xAmong width (backs b runs) b' = xAmong width runs b' := by
  rw [xAmong, xAmong, glyphs_backs]
  congr 2
  induction runs with
  | nil => rfl
  | cons run runs ih =>
    obtain ⟨hrun, hruns, -⟩ := h.cons
    have hfront : (run.front b).glyphs.find? (fun glyph => decide (b' ≤ glyph.index)) = none := by
      rw [find?_eq_none]
      intro glyph hglyph
      rw [ShapedRun.glyphs_front_of_sorted hrun] at hglyph
      have hlt := mem_takeWhile_imp hglyph
      simp only [decide_eq_true_eq] at hlt ⊢
      omega
    rw [flatMap_cons, flatMap_cons, find?_append, find?_append, ih hruns,
      ← run.glyphs_front_append_back b, find?_append, hfront, Option.none_or]

/-- A cursor that stands where splits have left of a line the glyphs of `runs`. -/
structure Follows (line : ShapedLine K δ) (cursor : ShapedLineCursor K δ) (m : ℕ) (x : K)
    (runs : List (ShapedRun K)) (rest : ShapedLine K δ) : Prop where
  cursor_line : cursor.line = line
  unorderedRemainder : cursor.unorderedRemainder = none
  byteIndex : cursor.byteIndex = m
  xOffset : cursor.xOffset = x
  ordered : Ordered runs
  live : (liveRuns cursor.glyphIndex (line.layout.runs.drop cursor.runIndex)).flatMap
    keep = runs.flatMap keep
  place : ∀ b, m ≤ b → xAmong line.layout.width runs b = line.layout.xForIndex b
  decorations : rest.decorationRuns = trimmed (.ofNat m) cursor.decorationOffset
    (line.decorationRuns.drop cursor.decorationIndex)
  stands : StandsAt (.ofNat m) cursor.decorationOffset
    (line.decorationRuns.drop cursor.decorationIndex)
  decorations_lt : cursor.decorationOffset.toNat +
    decorationsLen (line.decorationRuns.drop cursor.decorationIndex) < 2 ^ 32

section Follows

variable [AddCommGroup K] {line rest : ShapedLine K δ} {cursor : ShapedLineCursor K δ} {m b : ℕ}
  {x : K} {runs : List (ShapedRun K)}

lemma Follows.start (hordered : line.layout.ByteOrdered)
    (hdecorations : decorationsLen line.decorationRuns < 2 ^ 32) :
    Follows line ⟨line, none, 0, 0, 0, 0, 0, 0⟩ 0 0 line.layout.runs line where
  cursor_line := rfl
  unorderedRemainder := rfl
  byteIndex := rfl
  xOffset := rfl
  ordered := by
    rw [Ordered, map_flatMap]
    exact hordered
  live := by rw [drop_zero, liveRuns_zero]
  place := fun _ _ => rfl
  decorations := (trimmed_self 0 line.decorationRuns).symm
  stands := fun _ _ => .inl rfl
  decorations_lt := by
    rw [UInt32.toNat_zero, Nat.zero_add]
    exact hdecorations

lemma Follows.takeUntil (h : Follows line cursor m x runs rest)
    (hrest : Remainder line m x runs rest) (hlen : line.layout.len < 2 ^ 32) (hmb : m ≤ b)
    (hb : b ≤ line.layout.len) (hchar : isCharBoundary line.text b = true) :
    ∃ piece rest' cursor', rest.splitAt (b - m) = some (piece, rest') ∧
      cursor.takeUntil b = some (piece, cursor') ∧ cursor'.xOffset = line.layout.xForIndex b ∧
      Remainder line b (xAmong line.layout.width runs b) (backs b runs) rest' ∧
      Follows line cursor' b (xAmong line.layout.width runs b) (backs b runs) rest' := by
  obtain ⟨decorations, rest', hsplit, hdecorations, hrest'⟩ :=
    hrest.splitAt hmb hb hchar (h.ordered.cuts b)
  have hglyphs : (liveRuns cursor.glyphIndex (line.layout.runs.drop cursor.runIndex)).flatMap
      (·.glyphs) = runs.flatMap (·.glyphs) := by
    rw [← glyphs_flatMap_keep, h.live, glyphs_flatMap_keep]
  have hordered : Ordered (liveRuns cursor.glyphIndex (line.layout.runs.drop cursor.runIndex)) := by
    rw [Ordered, hglyphs]
    exact h.ordered
  have hle : ∀ run ∈ liveRuns cursor.glyphIndex (line.layout.runs.drop cursor.runIndex),
      ∀ glyph ∈ run.glyphs, m ≤ glyph.index := by
    intro run hrun glyph hglyph
    have hmem : glyph ∈ runs.flatMap (·.glyphs) :=
      hglyphs ▸ mem_flatMap.mpr ⟨run, hrun, hglyph⟩
    obtain ⟨run', hrun', hglyph'⟩ := mem_flatMap.mp hmem
    exact hrest.le_index run' hrun' glyph hglyph'
  obtain ⟨passed, stop, htake, hlive⟩ := @takeGlyphs_spec K
    (line.layout.runs.drop cursor.runIndex) _ b m x line.layout.width cursor.runIndex
    cursor.glyphIndex hordered hle
  have hmb' : (UInt32.ofNat m) ≤ .ofNat b := by
    rw [UInt32.le_iff_toNat_le, UInt32.toNat_ofNat_of_lt' ((hmb.trans hb).trans_lt hlen),
      UInt32.toNat_ofNat_of_lt' (hb.trans_lt hlen)]
    exact hmb
  obtain ⟨taken, passedDecorations, stopOffset, htakeDecorations, hsplitDecorations, hstands,
      hlt⟩ := @takeDecorations_spec _ _ _ _ _ cursor.decorationIndex h.stands hmb' h.decorations_lt
  rw [h.decorations, UInt32.ofNat_sub hmb, hsplitDecorations] at hdecorations
  obtain ⟨rfl, hdecorations'⟩ := Prod.mk.inj (Option.some.inj hdecorations)
  have hpieces : (liveRuns cursor.glyphIndex (line.layout.runs.drop cursor.runIndex)).flatMap
      (fun run => ((run.front b).shift m x).keep) =
        runs.flatMap (fun run => ((run.front b).shift m x).keep) := by
    rw [← flatMap_keep (fun _ h => keep_front_nil h), h.live,
      flatMap_keep (fun _ h => keep_front_nil h)]
  have hx : xAmong line.layout.width
      (liveRuns cursor.glyphIndex (line.layout.runs.drop cursor.runIndex)) b =
        xAmong line.layout.width runs b := by
    rw [xAmong, hglyphs]
    rfl
  have hbacks : backs b (liveRuns cursor.glyphIndex (line.layout.runs.drop cursor.runIndex)) =
      backs b runs := by
    rw [← backs_keep, h.live, backs_keep]
  refine ⟨_, rest', ⟨line, none, b, cursor.runIndex + passed, stop,
    cursor.decorationIndex + passedDecorations, stopOffset, xAmong line.layout.width runs b⟩,
    hsplit, ?_, h.place b hmb, hrest', ?_⟩
  · rw [ShapedLineCursor.takeUntil, h.unorderedRemainder, h.cursor_line, h.byteIndex, h.xOffset, htake,
      htakeDecorations, hpieces, hx, if_neg]
    · rfl
    · rintro (hlt | hlt | hfalse)
      · omega
      · omega
      · rw [hchar] at hfalse
        cases hfalse
  · exact {
      cursor_line := rfl
      unorderedRemainder := rfl
      byteIndex := rfl
      xOffset := rfl
      ordered := h.ordered.backs b
      live := by
        rw [keep_backs, ← hbacks, ← hlive, drop_drop]
      place := fun b' hb' =>
        (xAmong_backs h.ordered line.layout.width hb').trans (h.place b' (hmb.trans hb'))
      decorations := by
        rw [← hdecorations', drop_drop]
      stands := by
        rw [← drop_drop]
        exact hstands
      decorations_lt := by
        rw [← drop_drop]
        exact hlt }

end Follows

/-- A line as shaping gives it: its glyphs are of bytes of the text, and no length overflows. -/
structure ShapedLine.Shaped (line : ShapedLine K δ) : Prop where
  len : line.layout.len = line.text.length
  index_lt : ∀ i ∈ line.layout.glyphIndices, i < line.layout.len
  text_lt : line.text.length < 2 ^ 32
  decorations_lt : decorationsLen line.decorationRuns < 2 ^ 32

structure ShapedLine.Boundaries (line : ShapedLine K δ) (bs : List ℕ) : Prop where
  sorted : bs.Pairwise (· ≤ ·)
  char : ∀ b ∈ bs, b ≤ line.layout.len ∧ isCharBoundary line.text b = true

/-- Whether taking a line apart at boundaries gives the first halves of the successive splits, puts
the cursor where the boundaries are, and gives the whole line if the last one is its end. -/
def ShapedLine.TakesApart [AddCommGroup K] (line : ShapedLine K δ) (bs : List ℕ) : Prop :=
  ∃ cursor pieces, line.cursor = some cursor ∧ cursor.takeAll bs = some pieces ∧
    line.splitAll 0 bs = some (pieces.map Prod.fst) ∧
    pieces.map Prod.snd = bs.map line.layout.xForIndex ∧
    (bs.getLast? = some line.layout.len → AddUp line 0 0 (pieces.map Prod.fst))

section TakeAll

variable [AddCommGroup K] {line rest : ShapedLine K δ} {cursor : ShapedLineCursor K δ} {m : ℕ}
  {x : K} {runs : List (ShapedRun K)} {bs : List ℕ}

lemma Follows.takeAll (h : Follows line cursor m x runs rest) (hrest : Remainder line m x runs rest)
    (hlen : line.layout.len < 2 ^ 32) (hsorted : (m :: bs).Pairwise (· ≤ ·))
    (hbs : ∀ b ∈ bs, b ≤ line.layout.len ∧ isCharBoundary line.text b = true) :
    cursor.takeAll bs = (rest.splitAll m bs).map (fun pieces =>
      pieces.zip (bs.map line.layout.xForIndex)) := by
  induction bs generalizing m x runs rest cursor with
  | nil => rfl
  | cons b bs ih =>
    obtain ⟨hle, hsorted⟩ := pairwise_cons.mp hsorted
    obtain ⟨hb, hchar⟩ := hbs b mem_cons_self
    obtain ⟨piece, rest', cursor', hsplit, htake, hx, hrest', h'⟩ :=
      h.takeUntil hrest hlen (hle b mem_cons_self) hb hchar
    rw [ShapedLineCursor.takeAll, htake, Option.bind_some, ShapedLine.splitAll, hsplit,
      Option.bind_some, ih h' hrest' hsorted (fun b' hb' => hbs b' (mem_cons_of_mem b hb'))]
    simp only [hx, Option.map_map]
    rfl

lemma takeAll_unordered (hline : cursor.line = line)
    (hremainder : cursor.unorderedRemainder = some rest) (hm : cursor.byteIndex = m)
    (hsorted : (m :: bs).Pairwise (· ≤ ·))
    (hbs : ∀ b ∈ bs, b ≤ line.layout.len ∧ isCharBoundary line.text b = true) :
    cursor.takeAll bs = (rest.splitAll m bs).map (fun pieces =>
      pieces.zip (bs.map line.layout.xForIndex)) := by
  induction bs generalizing m rest cursor with
  | nil => rfl
  | cons b bs ih =>
    obtain ⟨hle, hsorted⟩ := pairwise_cons.mp hsorted
    obtain ⟨hb, hchar⟩ := hbs b mem_cons_self
    have hmb := hle b mem_cons_self
    have hguard : ¬ (b < m ∨ line.layout.len < b ∨ isCharBoundary line.text b = false) := by
      rintro (hlt | hlt | hfalse)
      · omega
      · omega
      · rw [hchar] at hfalse
        cases hfalse
    rw [ShapedLineCursor.takeAll, ShapedLineCursor.takeUntil, hremainder, hline, hm, if_neg hguard,
      ShapedLine.splitAll]
    cases hsplit : rest.splitAt (b - m) with
    | none => simp only [hsplit, Option.map_none, Option.bind_none]
    | some parts =>
      have hnext : ({ cursor with
          line := line
          unorderedRemainder := some parts.2
          byteIndex := b
          xOffset := line.layout.xForIndex b } : ShapedLineCursor K δ).line = line := rfl
      simp only [hsplit, Option.map_some, Option.bind_some]
      rw [ih hnext rfl rfl hsorted (fun b' hb' => hbs b' (mem_cons_of_mem b hb'))]
      simp only [Option.map_map]
      rfl

lemma length_splitAll {pieces : List (ShapedLine K δ)} (h : rest.splitAll m bs = some pieces) :
    pieces.length = bs.length := by
  induction bs generalizing m rest pieces with
  | nil =>
    obtain rfl := Option.some.inj h
    rfl
  | cons b bs ih =>
    rw [ShapedLine.splitAll] at h
    obtain ⟨parts, -, h⟩ := Option.bind_eq_some_iff.mp h
    obtain ⟨pieces', hpieces', rfl⟩ := Option.map_eq_some_iff.mp h
    rw [length_cons, length_cons, ih hpieces']

lemma ShapedLine.takeAll_cursor (h : line.Shaped) (hbs : line.Boundaries bs) :
    ∃ cursor, line.cursor = some cursor ∧ cursor.takeAll bs =
      (line.splitAll 0 bs).map (fun pieces => pieces.zip (bs.map line.layout.xForIndex)) := by
  have hlen : line.layout.len < 2 ^ 32 := h.len ▸ h.text_lt
  have hsorted : (0 :: bs).Pairwise (· ≤ ·) :=
    pairwise_cons.mpr ⟨fun b _ => Nat.zero_le b, hbs.sorted⟩
  have hcursor : line.cursor = some ⟨line, if line.layout.ByteOrdered then none else some line,
      0, 0, 0, 0, 0, 0⟩ := by
    rw [ShapedLine.cursor, if_neg (not_not_intro h.len)]
  refine ⟨_, hcursor, ?_⟩
  by_cases hordered : line.layout.ByteOrdered
  · rw [if_pos hordered]
    exact (Follows.start hordered h.decorations_lt).takeAll
      (Remainder.whole h.index_lt h.decorations_lt) hlen hsorted hbs.char
  · rw [if_neg hordered]
    exact takeAll_unordered rfl rfl rfl hsorted hbs.char

/-- A line is taken apart as it is split if and only if the binary search for each boundary stops
where the glyphs before it end, in every run. -/
theorem ShapedLine.takesApart_iff (h : line.Shaped) (hbs : line.Boundaries bs) :
    line.TakesApart bs ↔ ∀ run ∈ line.layout.runs, SplitsCleanly (run.glyphs.map (·.index)) bs := by
  have hwhole := Remainder.whole h.index_lt h.decorations_lt
  have hsorted : (0 :: bs).Pairwise (· ≤ ·) :=
    pairwise_cons.mpr ⟨fun b _ => Nat.zero_le b, hbs.sorted⟩
  obtain ⟨cursor, hcursor, htake⟩ := takeAll_cursor h hbs
  constructor
  · rintro ⟨cursor', pieces, -, -, hsplit, -, -⟩
    by_contra hclean
    rw [hwhole.splitAll_eq_none hsorted hbs.char hclean] at hsplit
    cases hsplit
  · intro hclean
    obtain ⟨pieces, hpieces, haddUp⟩ := hwhole.splitAll h.len hsorted hbs.char hclean
    rw [hpieces, Option.map_some] at htake
    have hlength : pieces.length = (bs.map line.layout.xForIndex).length := by
      rw [length_map, length_splitAll hpieces]
    refine ⟨cursor, _, hcursor, htake, ?_, ?_, ?_⟩
    · rw [hpieces, map_fst_zip hlength.le]
    · rw [map_snd_zip hlength.ge]
    · rw [map_fst_zip hlength.le]
      exact haddUp

end TakeAll

/-- A line whose first letter has two glyphs, with a boundary that is passed twice. -/
theorem ShapedLine.takesApart_ordered :
    (⟨⟨10, 45, 8, 2, [⟨0, [⟨1, ⟨5, 0⟩, 0, false⟩, ⟨2, ⟨5, 0⟩, 0, false⟩]⟩, ⟨1, []⟩,
        ⟨0, [⟨3, ⟨15, 0⟩, 1, false⟩, ⟨4, ⟨30, 0⟩, 2, false⟩]⟩], 3⟩,
      [97, 98, 99], [⟨0, true⟩, ⟨2, false⟩]⟩ : ShapedLine ℤ Bool).TakesApart [0, 1, 1, 3] :=
  (ShapedLine.takesApart_iff
    ⟨rfl, by decide, by decide, by decide⟩ ⟨by decide, by decide⟩).mpr (by decide)

def rightToLeftLine : ShapedLine ℤ Unit where
  layout := ⟨10, 30, 8, 2, [⟨0, [⟨3, ⟨0, 0⟩, 4, false⟩, ⟨2, ⟨10, 0⟩, 2, false⟩,
    ⟨1, ⟨20, 0⟩, 0, false⟩]⟩], 6⟩
  text := [215, 144, 215, 145, 215, 146]
  decorationRuns := [⟨6, ()⟩]

/-- They cannot be taken apart after the first of them. -/
theorem ShapedLine.not_takesApart_rightToLeft :
    rightToLeftLine.Shaped ∧ rightToLeftLine.Boundaries [2, 6] ∧
      ¬ rightToLeftLine.TakesApart [2, 6] := by
  refine ⟨⟨rfl, by decide, by decide, by decide⟩, ⟨by decide, by decide⟩, ?_⟩
  rintro ⟨cursor, pieces, -, -, hsplit, -, -⟩
  have hnone : rightToLeftLine.splitAll 0 [2, 6] = none := rfl
  rw [hnone] at hsplit
  cases hsplit

end GpuiFast
