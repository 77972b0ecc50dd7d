import GpuiFast.ShapeDecorations

namespace GpuiFast

open List RunLength

variable {K φ δ : Type*}

def resolveStyle (resolveFont : φ → FontId) (style : φ × δ) : FontId × δ :=
  (resolveFont style.1, style.2)

section Runs

variable [DecidableEq δ]

/-- What a line is laid out and painted with, by the styles of its bytes. -/
def ProcessedRuns.ofStyles (styles : List (FontId × δ)) : ProcessedRuns δ where
  decorationRuns := (RunLength.stretches (styles.map Prod.snd)).map
    (fun stretch => ⟨.ofNat stretch.1, stretch.2⟩)
  fontRuns := (RunLength.stretches styles).map (fun stretch => ⟨stretch.1, stretch.2.1⟩)

lemma ofStyles_lastDecoration (styles : List (FontId × δ)) (decoration : δ) :
    ((ProcessedRuns.ofStyles styles).decorationRuns.getLast?.any
      (fun last => last.decoration = decoration)) =
        (styles.getLast?.any (fun style => style.2 = decoration)) := by
  have h := RunLength.getLast?_stretches (styles.map Prod.snd)
  rw [getLast?_map] at h
  rw [ProcessedRuns.ofStyles, getLast?_map]
  cases hs : styles.getLast? <;>
    cases hd : (RunLength.stretches (styles.map Prod.snd)).getLast? <;> simp_all

lemma ProcessedRuns.add_ofStyles (styles : List (FontId × δ)) {n : ℕ} (hn : 0 < n)
    (fontId : FontId) (decoration : δ) :
    (ofStyles styles).add n fontId decoration =
      ofStyles (styles ++ List.replicate n (fontId, decoration)) := by
  have hdecorations : ((ofStyles styles).add n fontId decoration).decorationRuns =
      (ofStyles (styles ++ List.replicate n (fontId, decoration))).decorationRuns := by
    simp only [add, ofStyles, map_append, map_replicate,
      stretches_append_replicate _ hn, getLast?_map]
    rcases add_cases (RunLength.stretches (styles.map Prod.snd)) n decoration with
      ⟨front, m, hsplit, h⟩ | ⟨hne, h⟩
    · rw [h, hsplit]
      simp
    · rw [h]
      cases hlast : (RunLength.stretches (styles.map Prod.snd)).getLast? with
      | none => simp [getLast?_eq_none_iff.mp hlast]
      | some last => simp [hne last hlast]
  have hfonts : ((ofStyles styles).add n fontId decoration).fontRuns =
      (ofStyles (styles ++ List.replicate n (fontId, decoration))).fontRuns := by
    have hstyles := RunLength.getLast?_stretches styles
    simp only [add, ofStyles_lastDecoration]
    simp only [ofStyles, stretches_append_replicate _ hn, getLast?_map]
    rcases add_cases (RunLength.stretches styles) n (fontId, decoration) with
      ⟨front, m, hsplit, h⟩ | ⟨hne, h⟩
    · rw [hsplit, getLast?_concat] at hstyles
      rw [h, hsplit, ← hstyles]
      simp
    · rw [h]
      cases hlast : (RunLength.stretches styles).getLast? with
      | none => simp [getLast?_eq_none_iff.mp hlast]
      | some last =>
        rw [hlast] at hstyles
        have hchanged : ¬ (fontId = last.2.1 ∧ last.2.2 = decoration) :=
          fun hsame => hne last hlast (Prod.ext hsame.1.symm hsame.2)
        simp [← hstyles, hchanged]
  cases h : (ofStyles styles).add n fontId decoration
  rw [h] at hdecorations hfonts
  rw [show ofStyles (styles ++ List.replicate n (fontId, decoration)) = ⟨_, _⟩ from rfl]
  exact congrArg₂ ProcessedRuns.mk hdecorations hfonts

lemma processRuns_spec (resolveFont : φ → FontId) {runs : List (TextRun φ δ)}
    (hpos : ∀ run ∈ runs, 0 < run.len) {len : ℕ} (hlen : len ≤ (styles runs).length)
    (done : List (FontId × δ)) :
    ∃ rest, processRuns resolveFont len (.ofStyles done) runs =
        some (.ofStyles (done ++ ((styles runs).take len).map (resolveStyle resolveFont)), rest) ∧
      styles rest = (styles runs).drop len ∧ ∀ run ∈ rest, 0 < run.len := by
  induction runs generalizing len done with
  | nil =>
    obtain rfl : len = 0 := by simpa using hlen
    exact ⟨[], by simp [processRuns], rfl, by simp⟩
  | cons run runs ih =>
    have hrun := hpos run (mem_cons_self ..)
    have hruns := fun r hr => hpos r (mem_cons_of_mem run hr)
    rw [styles_cons, length_append, length_replicate] at hlen
    by_cases hzero : len = 0
    · subst hzero
      exact ⟨run :: runs, by simp [processRuns], by simp, hpos⟩
    rw [processRuns, if_neg hzero]
    simp only
    rw [ProcessedRuns.add_ofStyles _ (by omega), if_neg (by omega)]
    by_cases hle : run.len ≤ len
    · -- the whole run lies within the line
      rw [Nat.min_eq_right hle, if_pos (Nat.sub_self _)]
      have hlen' : len - run.len ≤ (styles runs).length := by omega
      obtain ⟨rest, hprocess, hstyles, hrest⟩ := ih hruns hlen'
        (done ++ List.replicate run.len (resolveFont run.font, run.decoration))
      refine ⟨rest, ?_, ?_, hrest⟩
      · rw [hprocess, styles_cons, take_append, length_replicate, take_replicate,
          Nat.min_eq_right hle, map_append, map_replicate, append_assoc]
        rfl
      · rw [hstyles, styles_cons, drop_append, length_replicate, drop_replicate,
          Nat.sub_eq_zero_of_le hle, replicate_zero, nil_append]
    · have hlt : len < run.len := by omega
      rw [Nat.min_eq_left hlt.le, if_neg (by omega)]
      refine ⟨{ run with len := run.len - len } :: runs, ?_, ?_, ?_⟩
      · rw [styles_cons, take_append_of_le_length (by simpa using hlt.le),
          take_replicate, Nat.min_eq_left hlt.le, map_replicate]
        rfl
      · rw [styles_cons, styles_cons, drop_append_of_le_length (by simpa using hlt.le),
          drop_replicate]
      · rintro r hr
        rcases mem_cons.mp hr with rfl | hr
        · exact Nat.sub_pos_of_lt hlt
        · exact hruns r hr

omit [DecidableEq δ] in
lemma shortenHead_one_spec {runs : List (TextRun φ δ)} (hpos : ∀ run ∈ runs, 0 < run.len) :
    ∃ rest, shortenHead 1 runs = some rest ∧ styles rest = (styles runs).drop 1 ∧
      ∀ run ∈ rest, 0 < run.len := by
  cases runs with
  | nil => exact ⟨[], rfl, rfl, by simp⟩
  | cons run runs =>
    have hrun := hpos run (mem_cons_self ..)
    have hruns := fun r hr => hpos r (mem_cons_of_mem run hr)
    have hdrop : (styles (run :: runs)).drop 1 =
        List.replicate (run.len - 1) (run.font, run.decoration) ++ styles runs := by
      rw [styles_cons, drop_append_of_le_length (by rwa [length_replicate]),
        drop_replicate]
    rw [shortenHead, if_neg (by omega), hdrop]
    by_cases hone : run.len - 1 = 0
    · rw [if_pos hone, hone]
      exact ⟨runs, rfl, rfl, hruns⟩
    · rw [if_neg hone]
      refine ⟨_, rfl, rfl, fun r hr => ?_⟩
      rcases mem_cons.mp hr with rfl | hr
      · exact Nat.pos_of_ne_zero hone
      · exact hruns r hr

end Runs

/-- Where a line starts in the text whose lines are `texts`. -/
def lineStart (texts : List Text) (k : ℕ) : ℕ := ((texts.take k).map (fun t => t.length + 1)).sum

lemma lineStart_zero (texts : List Text) : lineStart texts 0 = 0 := rfl

lemma lineStart_succ (text : Text) (texts : List Text) (k : ℕ) :
    lineStart (text :: texts) (k + 1) = text.length + 1 + lineStart texts k := by
  simp [lineStart]

lemma lines_of_text (text : Text) :
    ((text.splitOn 10).map (fun t => t.length + 1)).sum = text.length + 1 ∧
      ∀ k t, (text.splitOn 10)[k]? = some t →
        (text.drop (lineStart (text.splitOn 10) k)).take t.length = t := by
  have hlines : ∀ texts : List Text, texts ≠ [] →
      (texts.map (fun t => t.length + 1)).sum = ([10].intercalate texts).length + 1 ∧
        ∀ k t, texts[k]? = some t →
          (([10].intercalate texts).drop (lineStart texts k)).take t.length = t := by
    intro texts hne
    induction texts with
    | nil => exact absurd rfl hne
    | cons text texts ih =>
      cases texts with
      | nil =>
        refine ⟨by simp, fun k t hk => ?_⟩
        obtain ⟨rfl, rfl⟩ : k = 0 ∧ text = t := by
          cases k <;> simp_all
        simp [lineStart]
      | cons next texts =>
        obtain ⟨hsum, hrest⟩ := ih (by simp)
        rw [intercalate_cons_cons]
        constructor
        · rw [map_cons, sum_cons, hsum]
          simp
          omega
        · intro k t hk
          cases k with
          | zero =>
            obtain rfl := Option.some.inj hk
            simp [lineStart_zero]
          | succ k =>
            rw [lineStart_succ, ← drop_drop, drop_left' (by simp)]
            exact hrest k t hk
  have h := hlines (text.splitOn 10) (splitOn_ne_nil 10 text)
  rwa [intercalate_splitOn] at h

namespace LineShaper

variable [Field K] [LinearOrder K] [DecidableEq δ]

def lineStyles (shaper : LineShaper K φ) (runs : List (TextRun φ δ)) (start len : ℕ) :
    List (FontId × δ) :=
  (((styles runs).drop start).take len).map (resolveStyle shaper.resolveFont)

lemma processLines_spec (shaper : LineShaper K φ) (fontSize : K) (wrapWidth : Option K)
    (lineClamp : Option ℕ) {texts : List Text} {runs : List (TextRun φ δ)}
    (hpos : ∀ run ∈ runs, 0 < run.len)
    (hcover : (texts.map (fun t => t.length + 1)).sum ≤ (styles runs).length + 1)
    (wrappedLines : ℕ) :
    ∃ lines, shaper.processLines fontSize wrapWidth lineClamp texts runs wrappedLines =
        some lines ∧ lines.map (·.text) = texts ∧
      ∀ k line, lines[k]? = some line →
        (⟨line.decorationRuns, line.fontRuns⟩ : ProcessedRuns δ) =
          .ofStyles (shaper.lineStyles runs (lineStart texts k) line.text.length) := by
  induction texts generalizing runs wrappedLines with
  | nil => exact ⟨[], rfl, rfl, by simp⟩
  | cons text texts ih =>
    rw [map_cons, sum_cons] at hcover
    obtain ⟨rest, hprocess, hstyles, hrest⟩ := processRuns_spec shaper.resolveFont hpos
      (show text.length ≤ (styles runs).length by omega) []
    obtain ⟨rest', hshorten, hstyles', hrest'⟩ := shortenHead_one_spec hrest
    have hdrop : styles rest' = (styles runs).drop (text.length + 1) := by
      rw [hstyles', hstyles, drop_drop]
    have hcover' : (texts.map (fun t => t.length + 1)).sum ≤ (styles rest').length + 1 := by
      rw [hdrop, length_drop]
      omega
    rw [nil_append] at hprocess
    let taken : ProcessedRuns δ := .ofStyles (shaper.lineStyles runs 0 text.length)
    let line : ProcessedLine K δ := ⟨shaper.layoutWrappedLine text fontSize taken.fontRuns wrapWidth
      (lineClamp.map (fun max => max - wrappedLines)), taken.decorationRuns, text, taken.fontRuns⟩
    have hline : shaper.processLine fontSize wrapWidth
        (lineClamp.map (fun max => max - wrappedLines)) text runs = some (line, rest') := by
      have h : processRuns shaper.resolveFont text.length ⟨[], []⟩ runs = some (taken, rest) := hprocess
      rw [processLine, h, Option.bind_some, hshorten, Option.map_some]
    obtain ⟨lines, hlines, htexts, hruns⟩ := ih hrest' hcover'
      (wrappedLines + line.layout.wrapBoundaries.length)
    refine ⟨line :: lines, ?_, by rw [map_cons, htexts], fun k l hk => ?_⟩
    · rw [processLines, hline, Option.bind_some, hlines, Option.map_some]
    · cases k with
      | zero =>
        obtain rfl := Option.some.inj hk
        rfl
      | succ k =>
        have h := hruns k l hk
        rw [lineStyles, hdrop, drop_drop] at h
        rw [h, lineStyles, lineStart_succ]

end LineShaper

/-- The runs of a line say about its bytes what those of the whole text do: they add up to its
length, cover each byte with its decoration and its font, and end only where these change. -/
structure RunsStay (bytes : List (FontId × δ)) (line : ProcessedLine K δ) : Prop where
  decorations_sum : (line.decorationRuns.map (·.len.toNat)).sum = line.text.length
  fonts_sum : (line.fontRuns.map (·.len)).sum = line.text.length
  decorations : line.decorationRuns.flatMap
    (fun run => List.replicate run.len.toNat run.decoration) = bytes.map Prod.snd
  fonts : line.fontRuns.flatMap (fun run => List.replicate run.len run.fontId) =
    bytes.map Prod.fst
  decorations_merged : line.decorationRuns.IsChain (fun a b => a.decoration ≠ b.decoration)
  fonts_merged : ∃ stretches : List (ℕ × FontId × δ), stretches.IsChain (fun a b => a.2 ≠ b.2) ∧
    expand stretches = bytes ∧
      line.fontRuns = stretches.map (fun stretch => ⟨stretch.1, stretch.2.1⟩)

lemma forall_lt_of_sum_mod {m : ℕ} (hm : 0 < m) {xs : List ℕ}
    (h : (xs.map (· % m)).sum = xs.sum) : ∀ x ∈ xs, x < m := by
  have hle : ∀ ys : List ℕ, (ys.map (· % m)).sum ≤ ys.sum := fun ys => by
    simpa using sum_le_sum (fun y (_ : y ∈ ys) => Nat.mod_le y m)
  induction xs with
  | nil => exact fun x hx => absurd hx not_mem_nil
  | cons y ys ih =>
    rw [map_cons, sum_cons, sum_cons] at h
    have := hle ys
    have hy := Nat.mod_le y m
    intro x hx
    rcases mem_cons.mp hx with rfl | hx
    · rw [← show x % m = x by omega]
      exact Nat.mod_lt x hm
    · exact ih (by omega) x hx

lemma runsStay_iff [DecidableEq δ] {bytes : List (FontId × δ)} {line : ProcessedLine K δ}
    (hlength : bytes.length = line.text.length)
    (h : (⟨line.decorationRuns, line.fontRuns⟩ : ProcessedRuns δ) = .ofStyles bytes) :
    RunsStay bytes line ↔
      ∀ stretch ∈ RunLength.stretches (bytes.map Prod.snd), stretch.1 < 2 ^ 32 := by
  obtain ⟨hdecorations, hfonts⟩ := ProcessedRuns.mk.inj h
  have hlens : line.decorationRuns.map (·.len.toNat) =
      ((RunLength.stretches (bytes.map Prod.snd)).map Prod.fst).map (· % 2 ^ 32) := by
    rw [hdecorations, map_map, map_map]
    exact map_congr_left (fun stretch _ => UInt32.toNat_ofNat')
  have htotal : ((RunLength.stretches (bytes.map Prod.snd)).map Prod.fst).sum =
      line.text.length := by
    rw [← length_expand, expand_stretches, length_map, hlength]
  constructor
  · intro hstay stretch hmem
    have hsum := hstay.decorations_sum
    rw [hlens, ← htotal] at hsum
    exact forall_lt_of_sum_mod (by norm_num) hsum stretch.1 (mem_map_of_mem hmem)
  · intro hshort
    have hmod : ∀ stretch ∈ RunLength.stretches (bytes.map Prod.snd),
        (UInt32.ofNat stretch.1).toNat = stretch.1 := fun stretch hmem => by
      rw [UInt32.toNat_ofNat', Nat.mod_eq_of_lt (hshort stretch hmem)]
    constructor
    · rw [hdecorations, map_map, ← htotal]
      exact congrArg List.sum (map_congr_left hmod)
    · rw [hfonts, map_map, ← hlength]
      conv_rhs => rw [← expand_stretches bytes, length_expand]
      rfl
    · rw [hdecorations, flatMap_map]
      conv_rhs => rw [← expand_stretches (bytes.map Prod.snd), expand]
      refine flatMap_congr (fun stretch hmem => ?_)
      rw [hmod stretch hmem]
    · rw [hfonts, flatMap_map]
      conv_rhs => rw [← expand_stretches bytes, expand, map_flatMap]
      simp only [map_replicate]
    · rw [hdecorations, isChain_map]
      exact isChain_stretches _
    · exact ⟨_, isChain_stretches bytes, expand_stretches bytes, hfonts⟩

/-- The bytes of a text that have one decoration in a row within a line are fewer than `2 ^ 32`. -/
def ShortStretches [DecidableEq δ] (text : Text) (runs : List (TextRun φ δ)) : Prop :=
  ∀ (k : ℕ) (line : Text), (text.splitOn 10)[k]? = some line →
    ∀ stretch ∈ RunLength.stretches ((((styles runs).drop (lineStart (text.splitOn 10) k)).take
      line.length).map Prod.snd), stretch.1 < 2 ^ 32

lemma shortStretches_of_length [DecidableEq δ] {text : Text} (h : text.length < 2 ^ 32)
    (runs : List (TextRun φ δ)) : ShortStretches text runs := by
  intro k line hk stretch hmem
  have hline : line.length ≤ text.length := by
    conv_lhs => rw [← (lines_of_text text).2 k line hk]
    rw [length_take, length_drop]
    omega
  have hlength := fst_le_length hmem
  rw [length_map, length_take] at hlength
  omega

def ShapesRunsInPlace [Field K] [LinearOrder K] [DecidableEq δ] (shaper : LineShaper K φ)
    (text : Text) (fontSize : K) (runs : List (TextRun φ δ)) (wrapWidth : Option K)
    (lineClamp : Option ℕ) : Prop :=
  ∃ lines, shaper.shapeDecoratedText text fontSize runs wrapWidth lineClamp = some lines ∧
    lines.map (·.text) = text.splitOn 10 ∧
      ∀ (k : ℕ) (line : ProcessedLine K δ), lines[k]? = some line →
        (text.drop (lineStart (text.splitOn 10) k)).take line.text.length = line.text ∧
          RunsStay (shaper.lineStyles runs (lineStart (text.splitOn 10) k) line.text.length) line

lemma styles_filter (runs : List (TextRun φ δ)) :
    styles (runs.filter (fun run => 0 < run.len)) = styles runs := by
  induction runs with
  | nil => rfl
  | cons run runs ih =>
    rw [filter_cons]
    split
    · rw [styles_cons, styles_cons, ih]
    · next h =>
      have hzero : run.len = 0 := by simpa using h
      rw [ih, styles_cons, hzero, replicate_zero, nil_append]

lemma LineShaper.shapeDecoratedText_spec [Field K] [LinearOrder K] [DecidableEq δ]
    (shaper : LineShaper K φ) (text : Text) (fontSize : K) (runs : List (TextRun φ δ))
    (wrapWidth : Option K) (lineClamp : Option ℕ) (hcover : (runs.map (·.len)).sum = text.length) :
    ∃ lines, shaper.shapeDecoratedText text fontSize runs wrapWidth lineClamp = some lines ∧
      lines.map (·.text) = text.splitOn 10 ∧
        ∀ (k : ℕ) (line : ProcessedLine K δ), lines[k]? = some line →
          (text.drop (lineStart (text.splitOn 10) k)).take line.text.length = line.text ∧
            (RunsStay (shaper.lineStyles runs (lineStart (text.splitOn 10) k) line.text.length)
              line ↔ ∀ stretch ∈ RunLength.stretches ((((styles runs).drop
                (lineStart (text.splitOn 10) k)).take line.text.length).map Prod.snd),
                  stretch.1 < 2 ^ 32) := by
  have hpos : ∀ run ∈ runs.filter (fun run => 0 < run.len), 0 < run.len := by simp
  obtain ⟨htotal, hbytes⟩ := lines_of_text text
  have htotal' : ((text.splitOn 10).map (fun t => t.length + 1)).sum ≤
      (styles (runs.filter (fun run => 0 < run.len))).length + 1 := by
    rw [htotal, styles_filter, length_styles, hcover]
  obtain ⟨lines, hlines, htexts, hruns⟩ :=
    shaper.processLines_spec fontSize wrapWidth lineClamp hpos htotal' 0
  refine ⟨lines, hlines, htexts, ?_⟩
  intro k line hk
  have htext : (text.splitOn 10)[k]? = some line.text := by
    rw [← htexts, getElem?_map, hk, Option.map_some]
  have hpart := hbytes k line.text htext
  refine ⟨hpart, ?_⟩
  have hlength : (shaper.lineStyles runs (lineStart (text.splitOn 10) k)
      line.text.length).length = line.text.length := by
    have h := congrArg List.length hpart
    rw [length_take, length_drop] at h
    rw [LineShaper.lineStyles, length_map, length_take, length_drop, length_styles, hcover, h]
  have hsnd : (shaper.lineStyles runs (lineStart (text.splitOn 10) k) line.text.length).map
      Prod.snd = (((styles runs).drop (lineStart (text.splitOn 10) k)).take
        line.text.length).map Prod.snd := by
    rw [LineShaper.lineStyles, map_map]
    rfl
  have hfrom := hruns k line hk
  rw [LineShaper.lineStyles, styles_filter, ← LineShaper.lineStyles] at hfrom
  rw [runsStay_iff hlength hfrom, hsnd]
/-- Runs that add up to a text's bytes stay with their text across its lines exactly if no stretch of
one decoration within a line is too long for 32 bits. -/
theorem shapeText_runsStay_iff [Field K] [LinearOrder K] [DecidableEq δ] (shaper : LineShaper K φ)
    (text : Text) (fontSize : K) (runs : List (TextRun φ δ)) (wrapWidth : Option K)
    (lineClamp : Option ℕ) (hcover : (runs.map (·.len)).sum = text.length) :
    ShapesRunsInPlace shaper text fontSize runs wrapWidth lineClamp ↔ ShortStretches text runs := by
  obtain ⟨lines, hlines, htexts, hline⟩ :=
    shaper.shapeDecoratedText_spec text fontSize runs wrapWidth lineClamp hcover
  constructor
  · rintro ⟨lines', hlines', -, hstay⟩ k t hk
    obtain rfl : lines = lines' := Option.some.inj (hlines.symm.trans hlines')
    rw [← htexts, getElem?_map, Option.map_eq_some_iff] at hk
    obtain ⟨line, hk, rfl⟩ := hk
    exact (hline k line hk).2.mp (hstay k line hk).2
  · intro hshort
    refine ⟨lines, hlines, htexts, fun k line hk => ⟨(hline k line hk).1, ?_⟩⟩
    have htext : (text.splitOn 10)[k]? = some line.text := by
      rw [← htexts, getElem?_map, hk, Option.map_some]
    exact (hline k line hk).2.mpr (hshort k line.text htext)

def plainShaper : LineShaper ℚ ℕ where
  layoutLine text fontSize _ := ⟨fontSize, 0, 0, 0, [], text.length⟩
  breakIndices _ := []
  resolveFont font := font

/-- Two lines with an empty one between, under a run that ends at a newline, one of no length and one
that starts before a newline. -/
theorem shapeText_runsStay_threeLines :
    ShapesRunsInPlace plainShaper [97, 10, 10, 98] 16
      [⟨2, 1, false⟩, ⟨0, 2, true⟩, ⟨2, 1, true⟩] none none :=
  (shapeText_runsStay_iff plainShaper [97, 10, 10, 98] 16
    [⟨2, 1, false⟩, ⟨0, 2, true⟩, ⟨2, 1, true⟩] none none (by decide)).mpr
      (shortStretches_of_length (by decide) _)

lemma not_shapesRunsInPlace_replicate {n : ℕ} (hn : 2 ^ 32 ≤ n) :
    ¬ ShapesRunsInPlace plainShaper (List.replicate n 97) 16 [⟨n, 1, false⟩] none none := by
  rintro ⟨lines', hlines', -, hstay⟩
  have hcover : ([(⟨n, 1, false⟩ : TextRun ℕ Bool)].map (·.len)).sum =
      (List.replicate n (97 : UInt8)).length := by simp
  obtain ⟨lines, hlines, htexts, hline⟩ := plainShaper.shapeDecoratedText_spec
    (List.replicate n 97) 16 [⟨n, 1, false⟩] none none hcover
  obtain rfl : lines = lines' := Option.some.inj (hlines.symm.trans hlines')
  have hsplit : (List.replicate n (97 : UInt8)).splitOn 10 = [List.replicate n 97] :=
    splitOn_eq_singleton (by simp)
  rw [hsplit, map_eq_singleton_iff] at htexts
  obtain ⟨line, rfl, htext⟩ := htexts
  have hshort := (hline 0 line rfl).2.mp (hstay 0 line rfl).2
  have hone : ((((styles [(⟨n, 1, false⟩ : TextRun ℕ Bool)]).drop
      (lineStart ((List.replicate n (97 : UInt8)).splitOn 10) 0)).take line.text.length).map
        Prod.snd) = List.replicate n false := by
    simp [lineStart_zero, htext]
  rw [hone, stretches_replicate (by omega)] at hshort
  have := hshort (n, false) (mem_singleton_self _)
  omega

/-- A line of `2 ^ 32` bytes in one run has a decoration run of no length. -/
theorem not_shapeText_runsStay_longLine :
    ¬ ShapesRunsInPlace plainShaper (List.replicate (2 ^ 32) 97) 16 [⟨2 ^ 32, 1, false⟩] none
      none :=
  not_shapesRunsInPlace_replicate (le_refl _)

end GpuiFast
