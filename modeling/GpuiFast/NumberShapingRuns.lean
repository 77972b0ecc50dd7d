import GpuiFast.NumberShaping

namespace GpuiFast

open List

variable {K : Type*} [Field K]

/-- What numbers in a font and size are made of where only pairs of neighbours affect the result. -/
structure NumberMetrics (K : Type*) where
  glyph : UInt8 → NumberShaping.Glyph K
  kerning : UInt8 → UInt8 → K
  ascent : K
  descent : K
  isEmoji : Bool

namespace NumberMetrics

def offset (metrics : NumberMetrics K) (text : Text) (i : ℕ) : K :=
  (((text.zip text.tail).take i).map
    (fun p => (metrics.glyph p.1).advance + metrics.kerning p.1 p.2)).sum

def lastAdvance (metrics : NumberMetrics K) (text : Text) : K :=
  text.getLast?.elim 0 (fun char => (metrics.glyph char).advance)

def layout (metrics : NumberMetrics K) (fontId : FontId) (fontSize : K) (text : Text) :
    LineLayout K where
  fontSize := fontSize
  width := metrics.offset text text.length + metrics.lastAdvance text
  ascent := metrics.ascent
  descent := metrics.descent
  runs := [⟨fontId, text.mapIdx (fun i char =>
    ⟨(metrics.glyph char).id, ⟨metrics.offset text i, 0⟩, i, metrics.isEmoji⟩)⟩]
  len := text.length

variable (metrics : NumberMetrics K)

lemma offset_zero (text : Text) : metrics.offset text 0 = 0 := by
  rw [offset, take_zero, map_nil, sum_nil]

variable (done : Text)

lemma offset_succ (rest : Text) (left right : UInt8) :
    metrics.offset (done ++ left :: right :: rest) (done.length + 1) =
      metrics.offset (done ++ left :: right :: rest) done.length +
        ((metrics.glyph left).advance + metrics.kerning left right) := by
  have hget : ((done ++ left :: right :: rest).zip (done ++ left :: right :: rest).tail)[
      done.length]? = some (left, right) := by
    rw [getElem?_zip_eq_some]
    simp
  rw [offset, offset, take_add_one, hget]
  simp

lemma offset_last (last : UInt8) :
    metrics.offset (done ++ [last]) (done ++ [last]).length =
      metrics.offset (done ++ [last]) done.length := by
  have hlength : ((done ++ [last]).zip (done ++ [last]).tail).length = done.length := by
    simp
  rw [offset, offset, take_of_length_le, take_of_length_le]
  · exact hlength.le
  · rw [hlength, length_append]
    exact Nat.le_add_right _ _

end NumberMetrics

namespace NumberShaping

variable [LinearOrder K]

def Additive (platform : LayoutLine K) (fontId : FontId) (fontSize : K)
    (metrics : NumberMetrics K) : Prop :=
  ∀ text : Text, text ≠ [] → (∀ char ∈ text, char ∈ CHARACTERS) →
    platform text fontSize [⟨text.length, fontId⟩] = metrics.layout fontId fontSize text

structure Knows (metrics : NumberMetrics K) (font : Font K) : Prop where
  ascent : font.ascent = metrics.ascent
  descent : font.descent = metrics.descent
  isEmoji : font.isEmoji = metrics.isEmoji

structure Measured (metrics : NumberMetrics K) (font : Font K) : Prop where
  glyphs : ∀ char glyph, font.glyphs char = some glyph →
    glyph = some (metrics.glyph char) ∧ Knows metrics font
  kerning : ∀ left right kerning, font.kerning (left, right) = some kerning →
    kerning = some (metrics.kerning left right)
  disagreed : font.disagreed = false

omit [LinearOrder K] in
lemma measured_new (metrics : NumberMetrics K) : Measured metrics (Font.new : Font K) :=
  ⟨fun _ _ h => (by cases h), fun _ _ _ h => (by cases h), rfl⟩

variable {platform : LayoutLine K} {fontId : FontId} {fontSize : K} {metrics : NumberMetrics K}
  {font : Font K} {text : Text} {run : FontRun}

lemma glyph_measured (hplatform : Additive platform fontId fontSize metrics)
    (hfont : Measured metrics font) {char : UInt8} (hchar : char ∈ CHARACTERS) :
    ∃ font', glyph platform fontId fontSize font char = (font', some (metrics.glyph char)) ∧
      Measured metrics font' ∧ Knows metrics font' := by
  rw [glyph]
  cases hget : font.glyphs char with
  | some g =>
    obtain ⟨rfl, hknows⟩ := hfont.glyphs char g hget
    exact ⟨font, rfl, hfont, hknows⟩
  | none =>
    have hlayout : platform [char] fontSize [⟨1, fontId⟩] =
        metrics.layout fontId fontSize [char] :=
      hplatform [char] (cons_ne_nil _ _) (fun c hc => by rwa [mem_singleton.mp hc])
    have hoffset : ∀ i, metrics.offset [char] i = 0 := by
      intro i
      simp [NumberMetrics.offset]
    have hglyphs : glyphsIn (metrics.layout fontId fontSize [char]) fontId =
        some [⟨(metrics.glyph char).id, ⟨0, 0⟩, 0, metrics.isEmoji⟩] := by
      simp [glyphsIn, NumberMetrics.layout, hoffset]
    have hwidth : (metrics.layout fontId fontSize [char]).width =
        (metrics.glyph char).advance := by
      simp [NumberMetrics.layout, NumberMetrics.lastAdvance, hoffset]
    dsimp only
    rw [hlayout, hglyphs]
    dsimp only
    rw [if_pos ⟨rfl, rfl⟩, hwidth]
    refine ⟨_, rfl, ⟨?_, hfont.kerning, hfont.disagreed⟩, ⟨rfl, rfl, rfl⟩⟩
    intro c g hg
    refine ⟨?_, ⟨rfl, rfl, rfl⟩⟩
    dsimp only at hg
    by_cases hc : c = char
    · subst hc
      rw [Function.update_self] at hg
      exact (Option.some.inj hg).symm
    · rw [Function.update_of_ne hc] at hg
      exact (hfont.glyphs c g hg).1

lemma kerning_measured [IsStrictOrderedRing K]
    (hplatform : Additive platform fontId fontSize metrics) (hfont : Measured metrics font)
    (hknows : Knows metrics font) {left right : UInt8} (hleft : left ∈ CHARACTERS)
    (hright : right ∈ CHARACTERS) :
    ∃ font', kerning platform fontId fontSize font left right =
        (font', some (metrics.kerning left right)) ∧
      Measured metrics font' ∧ Knows metrics font' := by
  rw [kerning]
  cases hget : font.kerning (left, right) with
  | some k =>
    obtain rfl := hfont.kerning left right k hget
    exact ⟨font, rfl, hfont, hknows⟩
  | none =>
    obtain ⟨font₁, heq₁, hfont₁, -⟩ := glyph_measured hplatform hfont hleft
    obtain ⟨font₂, heq₂, hfont₂, hknows₂⟩ := glyph_measured hplatform hfont₁ hright
    have hlayout : platform [left, right] fontSize [⟨2, fontId⟩] =
        metrics.layout fontId fontSize [left, right] := by
      refine hplatform [left, right] (cons_ne_nil _ _) (fun c hc => ?_)
      rcases mem_pair.mp hc with rfl | rfl
      · exact hleft
      · exact hright
    have hkerning : pairKerning (metrics.layout fontId fontSize [left, right]) fontId
        (metrics.glyph left) (metrics.glyph right) = some (metrics.kerning left right) := by
      simp [pairKerning, glyphsIn, NumberMetrics.layout, NumberMetrics.offset,
        NumberMetrics.lastAdvance, close, TOLERANCE]
    dsimp only
    rw [heq₁]
    dsimp only
    rw [heq₂]
    dsimp only
    rw [hlayout, hkerning]
    refine ⟨_, rfl, ⟨fun c g hg => ?_, fun l r k hk => ?_, hfont₂.disagreed⟩,
      ⟨hknows₂.ascent, hknows₂.descent, hknows₂.isEmoji⟩⟩
    · obtain ⟨hg, hknows⟩ := hfont₂.glyphs c g hg
      exact ⟨hg, ⟨hknows.ascent, hknows.descent, hknows.isEmoji⟩⟩
    · dsimp only at hk
      by_cases hp : (l, r) = (left, right)
      · obtain ⟨rfl, rfl⟩ := Prod.mk.inj hp
        rw [Function.update_self] at hk
        exact (Option.some.inj hk).symm
      · rw [Function.update_of_ne hp] at hk
        exact hfont₂.kerning l r k hk

/-- The glyphs of the rest of a line whose characters are `done ++ chars`. -/
def restGlyphs (metrics : NumberMetrics K) (done chars : Text) : List (ShapedGlyph K) :=
  chars.mapIdx (fun i char => ⟨(metrics.glyph char).id,
    ⟨metrics.offset (done ++ chars) (done.length + i), 0⟩, done.length + i, metrics.isEmoji⟩)

omit [LinearOrder K] in
lemma restGlyphs_cons (metrics : NumberMetrics K) (done chars : Text) (char : UInt8) :
    restGlyphs metrics done (char :: chars) = ⟨(metrics.glyph char).id,
      ⟨metrics.offset (done ++ char :: chars) done.length, 0⟩, done.length, metrics.isEmoji⟩ ::
        restGlyphs metrics (done ++ [char]) chars := by
  rw [restGlyphs, restGlyphs, mapIdx_cons]
  simp only [Nat.add_zero, length_append, length_singleton, append_assoc,
    singleton_append, Nat.add_assoc, Nat.add_comm 1]

lemma putGlyphs_measured [IsStrictOrderedRing K]
    (hplatform : Additive platform fontId fontSize metrics) (chars : Text) :
    ∀ (done : Text) (left : UInt8) {font : Font K}, Measured metrics font → Knows metrics font →
      left ∈ CHARACTERS → (∀ char ∈ chars, char ∈ CHARACTERS) →
      ∃ font', putGlyphs platform fontId fontSize font (done.length + 1)
          (metrics.offset (done ++ left :: chars) done.length) (some (left, metrics.glyph left))
          chars =
        (font', some (restGlyphs metrics (done ++ [left]) chars,
          metrics.offset (done ++ left :: chars) (done ++ left :: chars).length +
            metrics.lastAdvance (done ++ left :: chars))) ∧
        Measured metrics font' ∧ Knows metrics font' := by
  induction chars with
  | nil =>
    intro done left font hfont hknows _ _
    refine ⟨font, ?_, hfont, hknows⟩
    rw [putGlyphs, metrics.offset_last]
    simp [restGlyphs, NumberMetrics.lastAdvance]
  | cons char chars ih =>
    intro done left font hfont hknows hleft hchars
    have hchar := hchars char mem_cons_self
    obtain ⟨font₁, heq₁, hfont₁, hknows₁⟩ := glyph_measured hplatform hfont hchar
    obtain ⟨font₂, heq₂, hfont₂, hknows₂⟩ :=
      kerning_measured hplatform hfont₁ hknows₁ hleft hchar
    obtain ⟨font₃, heq₃, hfont₃, hknows₃⟩ := ih (done ++ [left]) char hfont₂ hknows₂ hchar
      (fun c hc => hchars c (mem_cons_of_mem _ hc))
    refine ⟨font₃, ?_, hfont₃, hknows₃⟩
    rw [length_append, length_singleton, append_assoc, singleton_append,
      metrics.offset_succ] at heq₃
    have hcons := restGlyphs_cons metrics (done ++ [left]) chars char
    rw [length_append, length_singleton, append_assoc, singleton_append,
      metrics.offset_succ] at hcons
    rw [putGlyphs, heq₁]
    dsimp only
    rw [heq₂]
    dsimp only [Option.map_some]
    rw [heq₃, hcons, hknows₂.isEmoji]
    rfl

lemma putTogether_measured [IsStrictOrderedRing K]
    (hplatform : Additive platform fontId fontSize metrics) (hfont : Measured metrics font)
    (htext : text ≠ []) (hchars : ∀ char ∈ text, char ∈ CHARACTERS) :
    ∃ font', putTogether platform fontId fontSize font text =
        (font', some (metrics.layout fontId fontSize text)) ∧ Measured metrics font' := by
  obtain ⟨char, chars, rfl⟩ := exists_cons_of_ne_nil htext
  have hchar := hchars char mem_cons_self
  obtain ⟨font₁, heq₁, hfont₁, hknows₁⟩ := glyph_measured hplatform hfont hchar
  obtain ⟨font₂, heq₂, hfont₂, hknows₂⟩ := putGlyphs_measured hplatform chars [] char hfont₁ hknows₁
    hchar (fun c hc => hchars c (mem_cons_of_mem _ hc))
  refine ⟨font₂, ?_, hfont₂⟩
  rw [nil_append, nil_append, length_nil, metrics.offset_zero] at heq₂
  have hglyphs := restGlyphs_cons metrics [] chars char
  rw [nil_append, nil_append, length_nil, metrics.offset_zero] at hglyphs
  rw [putTogether, putGlyphs, heq₁]
  dsimp only
  rw [heq₂, hknows₁.isEmoji]
  dsimp only [Option.map_some]
  rw [← hglyphs, hknows₂.ascent, hknows₂.descent]
  simp only [restGlyphs, NumberMetrics.layout, nil_append, length_nil, Nat.zero_add]

lemma isNumber_run (h : isNumber text run = true) :
    text ≠ [] ∧ (∀ char ∈ text, char ∈ CHARACTERS) ∧ run = ⟨text.length, run.fontId⟩ := by
  simp only [isNumber, Bool.and_eq_true, decide_eq_true_eq, all_eq_true,
    Bool.not_eq_true', isEmpty_eq_false_iff] at h
  obtain ⟨⟨⟨htext, -⟩, hlen⟩, hchars⟩ := h
  exact ⟨htext, hchars, by rw [← hlen]⟩

lemma close_self [IsStrictOrderedRing K] (a : K) : close a a = true := by
  rw [close, decide_eq_true_eq, sub_self, abs_zero, TOLERANCE]
  norm_num

lemma all_zip_self {α : Type*} (xs : List α) (p : α × α → Bool) (h : ∀ a, p (a, a) = true) :
    (xs.zip xs).all p = true := by
  induction xs with
  | nil => rfl
  | cons x xs ih => rw [zip_cons_cons, all_cons, h x, ih, Bool.and_self]

lemma agree_self [IsStrictOrderedRing K] (layout : LineLayout K) : agree layout layout = true := by
  rw [agree, all_zip_self layout.runs _ (fun run => ?_)]
  · simp [close_self]
  · dsimp only
    rw [all_zip_self run.glyphs _ (fun g => by simp [close_self])]
    simp

omit [Field K] [LinearOrder K] in
lemma Measured.counted (h : Measured metrics font) (checked lines : ℕ) :
    Measured metrics { font with checked := checked, lines := lines } where
  glyphs := fun char g hg => by
    obtain ⟨heq, hknows⟩ := h.glyphs char g hg
    exact ⟨heq, ⟨hknows.ascent, hknows.descent, hknows.isEmoji⟩⟩
  kerning := h.kerning
  disagreed := h.disagreed

lemma shapeIn_measured [IsStrictOrderedRing K]
    (hplatform : Additive platform run.fontId fontSize metrics) (hfont : Measured metrics font)
    (hnumber : isNumber text run = true) :
    ∃ font', shapeIn platform text fontSize run font =
        (font', some (platform text fontSize [run])) ∧ Measured metrics font' := by
  obtain ⟨htext, hchars, hrun⟩ := isNumber_run hnumber
  obtain ⟨font', heq, hfont'⟩ := putTogether_measured hplatform hfont htext hchars
  have hshaped : platform text fontSize [run] = metrics.layout run.fontId fontSize text := by
    rw [hrun]
    exact hplatform text htext hchars
  rw [shapeIn, if_neg (by rw [hfont.disagreed]; exact Bool.false_ne_true), heq, hshaped]
  dsimp only
  rw [if_pos (agree_self _)]
  split
  · exact ⟨_, rfl, hfont'.counted _ _⟩
  · exact ⟨_, rfl, hfont'.counted _ _⟩

def current (numbers : NumberShaping K) (fontsGeneration : ℕ) : NumberShaping K :=
  if fontsGeneration = numbers.fontsGeneration then numbers else ⟨fun _ => .new, fontsGeneration⟩

variable (numbers : NumberShaping K) (fontsGeneration : ℕ)

lemma shape_singleton (platform : LayoutLine K) (fontSize : K) (hnumber : isNumber text run = true) :
    numbers.shape fontsGeneration platform text fontSize [run] =
      let current := numbers.current fontsGeneration
      let r := shapeIn platform text fontSize run (current.fonts (run.fontId, fontSize))
      ({ current with fonts := Function.update current.fonts (run.fontId, fontSize) r.1 }, r.2) := by
  rw [shape, if_pos hnumber]
  rfl

lemma shape_cases (platform : LayoutLine K) (text : Text) (fontSize : K) (runs : List FontRun) :
    numbers.shape fontsGeneration platform text fontSize runs = (numbers, none) ∨
      ∃ run, runs = [run] ∧ isNumber text run = true := by
  match runs with
  | [] => exact .inl rfl
  | [run] =>
    cases hnumber : isNumber text run with
    | true => exact .inr ⟨run, rfl, hnumber⟩
    | false =>
      refine .inl ?_
      rw [shape, if_neg (by rw [hnumber]; exact Bool.false_ne_true)]
  | _ :: _ :: _ => exact .inl rfl

def Disagrees (platform : LayoutLine K) (text : Text) (fontSize : K) (run : FontRun)
    (font : Font K) : Prop :=
  font.disagreed = false ∧
    ∃ font' layout, putTogether platform run.fontId fontSize font text = (font', some layout) ∧
      (font'.checked < CHECKED_FIRST ∨ CHECKED_EVERY ∣ font'.lines + 1) ∧
      agree layout (platform text fontSize [run]) = false

lemma Disagrees.leaves (h : Disagrees platform text fontSize run font) :
    (shapeIn platform text fontSize run font).1.disagreed = true := by
  obtain ⟨hdisagreed, font', layout, heq, hchecked, hagree⟩ := h
  rw [shapeIn, if_neg (by rw [hdisagreed]; exact Bool.false_ne_true), heq]
  dsimp only
  rw [if_pos hchecked, if_neg (by rw [hagree]; exact Bool.false_ne_true)]

lemma shapeIn_left (platform : LayoutLine K) (text : Text) (fontSize : K) (run : FontRun)
    (h : font.disagreed = true) : shapeIn platform text fontSize run font = (font, none) := by
  rw [shapeIn, if_pos h]

end NumberShaping

inductive NumberCall (K : Type*) where
  | shape (text : Text) (fontSize : K) (runs : List FontRun)
  | addFonts

structure NumberCalls (K : Type*) where
  numbers : NumberShaping K
  fontsGeneration : ℕ

namespace NumberCalls

variable [LinearOrder K]

def shape (platforms : ℕ → LayoutLine K) (state : NumberCalls K) (text : Text) (fontSize : K)
    (runs : List FontRun) : NumberShaping K × Option (LineLayout K) :=
  state.numbers.shape state.fontsGeneration (platforms state.fontsGeneration) text fontSize runs

def step (platforms : ℕ → LayoutLine K) (state : NumberCalls K) : NumberCall K → NumberCalls K
  | .shape text fontSize runs =>
    { state with numbers := (state.shape platforms text fontSize runs).1 }
  | .addFonts => { state with fontsGeneration := state.fontsGeneration + 1 }

def run (platforms : ℕ → LayoutLine K) (fontsGeneration : ℕ) (calls : List (NumberCall K)) :
    NumberCalls K := calls.foldl (step platforms) ⟨.new, fontsGeneration⟩

def Holds (platforms : ℕ → LayoutLine K) (state : NumberCalls K) : Prop :=
  ∀ fontId fontSize metrics, NumberShaping.Additive (platforms state.numbers.fontsGeneration)
    fontId fontSize metrics →
      NumberShaping.Measured metrics (state.numbers.fonts (fontId, fontSize))

variable {state : NumberCalls K} {fontId : FontId} {fontSize : K}

omit [LinearOrder K] in
lemma Holds.current {platforms : ℕ → LayoutLine K} (h : Holds platforms state)
    {metrics : NumberMetrics K} (hplatform :
      NumberShaping.Additive (platforms state.fontsGeneration) fontId fontSize metrics) :
    NumberShaping.Measured metrics
      ((state.numbers.current state.fontsGeneration).fonts (fontId, fontSize)) := by
  rw [NumberShaping.current]
  split
  · next hgeneration =>
    rw [hgeneration] at hplatform
    exact h fontId fontSize metrics hplatform
  · exact NumberShaping.measured_new metrics

omit [LinearOrder K] in
lemma current_fontsGeneration (numbers : NumberShaping K) (fontsGeneration : ℕ) :
    (numbers.current fontsGeneration).fontsGeneration = fontsGeneration := by
  rw [NumberShaping.current]
  split
  · next h => exact h.symm
  · rfl

lemma Holds.step [IsStrictOrderedRing K] {platforms : ℕ → LayoutLine K} (h : Holds platforms state)
    (call : NumberCall K) : Holds platforms (state.step platforms call) := by
  cases call with
  | addFonts => exact h
  | shape text fontSize runs =>
    rcases NumberShaping.shape_cases state.numbers state.fontsGeneration
      (platforms state.fontsGeneration) text fontSize runs with hnone | ⟨run, rfl, hnumber⟩
    · rw [NumberCalls.step, NumberCalls.shape, hnone]
      exact h
    · intro fontId size metrics hplatform
      rw [NumberCalls.step, NumberCalls.shape, NumberShaping.shape_singleton _ _ _ _ hnumber]
        at hplatform ⊢
      dsimp only at hplatform ⊢
      rw [current_fontsGeneration] at hplatform
      have hmeasured := h.current hplatform
      by_cases hkey : (fontId, size) = (run.fontId, fontSize)
      · obtain ⟨rfl, rfl⟩ := Prod.mk.inj hkey
        obtain ⟨font', heq, hfont'⟩ := NumberShaping.shapeIn_measured hplatform hmeasured hnumber
        rw [Function.update_self, heq]
        exact hfont'
      · rw [Function.update_of_ne hkey]
        exact hmeasured

variable (platforms : ℕ → LayoutLine K)

lemma holds_run [IsStrictOrderedRing K] (fontsGeneration : ℕ) (calls : List (NumberCall K)) :
    Holds platforms (run platforms fontsGeneration calls) := by
  induction calls using reverseRecOn with
  | nil => exact fun _ _ metrics _ => NumberShaping.measured_new metrics
  | append_singleton calls call ih =>
    rw [run, foldl_append]
    exact ih.step call

structure Left (fontId : FontId) (fontSize : K) (state : NumberCalls K) : Prop where
  fontsGeneration : state.fontsGeneration = state.numbers.fontsGeneration
  disagreed : (state.numbers.fonts (fontId, fontSize)).disagreed = true

omit [LinearOrder K] in
lemma Left.current (h : Left fontId fontSize state) :
    state.numbers.current state.fontsGeneration = state.numbers := by
  rw [NumberShaping.current, if_pos h.fontsGeneration]

lemma Left.answer (h : Left fontId fontSize state) (platforms : ℕ → LayoutLine K) (text : Text)
    {run : FontRun} (hrun : run.fontId = fontId) :
    (state.shape platforms text fontSize [run]).2 = none := by
  rcases NumberShaping.shape_cases state.numbers state.fontsGeneration
    (platforms state.fontsGeneration) text fontSize [run] with hnone | ⟨run', hrun', hnumber⟩
  · rw [NumberCalls.shape, hnone]
  · obtain rfl : run = run' := singleton_injective hrun'
    rw [NumberCalls.shape, NumberShaping.shape_singleton _ _ _ _ hnumber, h.current, hrun]
    dsimp only
    rw [NumberShaping.shapeIn_left _ _ _ _ h.disagreed]

lemma Left.step (h : Left fontId fontSize state) (platforms : ℕ → LayoutLine K)
    {call : NumberCall K} (hcall : call ≠ .addFonts) :
    Left fontId fontSize (state.step platforms call) := by
  cases call with
  | addFonts => exact absurd rfl hcall
  | shape text size runs =>
    rcases NumberShaping.shape_cases state.numbers state.fontsGeneration
      (platforms state.fontsGeneration) text size runs with hnone | ⟨run, rfl, hnumber⟩
    · rw [NumberCalls.step, NumberCalls.shape, hnone]
      exact h
    · rw [NumberCalls.step, NumberCalls.shape, NumberShaping.shape_singleton _ _ _ _ hnumber,
        h.current]
      refine ⟨h.fontsGeneration, ?_⟩
      dsimp only
      by_cases hkey : (fontId, fontSize) = (run.fontId, size)
      · have hdisagreed := h.disagreed
        rw [hkey] at hdisagreed ⊢
        rw [Function.update_self, NumberShaping.shapeIn_left _ _ _ _ hdisagreed]
        exact hdisagreed
      · rw [Function.update_of_ne hkey]
        exact h.disagreed

lemma Left.steps (calls : List (NumberCall K)) (hcalls : .addFonts ∉ calls)
    (h : Left fontId fontSize state) :
    Left fontId fontSize (calls.foldl (NumberCalls.step platforms) state) := by
  induction calls generalizing state with
  | nil => exact h
  | cons call calls ih =>
    have hcall : call ≠ .addFonts := fun heq => hcalls (heq ▸ mem_cons_self)
    exact ih (fun hmem => hcalls (mem_cons_of_mem _ hmem)) (h.step platforms hcall)

/-- After every run of calls, a line whose font and size the platform shapes additively is answered
if it is a number in one run, and then with exactly the platform's layout of it. A platform that is
not additive is noticed by a check: when one disagrees, its font and size are not answered again
until fonts are added. -/
theorem run_answers [IsStrictOrderedRing K] (platforms : ℕ → LayoutLine K) (fontsGeneration : ℕ)
    (calls : List (NumberCall K)) :
    let state := run platforms fontsGeneration calls
    let platform := platforms state.fontsGeneration
    (∀ text fontSize fontRun metrics,
      NumberShaping.Additive platform fontRun.fontId fontSize metrics →
        (state.shape platforms text fontSize [fontRun]).2 =
          if NumberShaping.isNumber text fontRun then some (platform text fontSize [fontRun])
          else none) ∧
    (∀ text fontSize runs, runs.length ≠ 1 → (state.shape platforms text fontSize runs).2 = none) ∧
    (∀ text fontSize fontRun, NumberShaping.isNumber text fontRun = true →
      NumberShaping.Disagrees platform text fontSize fontRun
        ((state.numbers.current state.fontsGeneration).fonts (fontRun.fontId, fontSize)) →
      ∀ later, .addFonts ∉ later → ∀ text' len,
        ((run platforms fontsGeneration (calls ++ .shape text fontSize [fontRun] :: later)).shape
          platforms text' fontSize [⟨len, fontRun.fontId⟩]).2 = none) := by
  intro state platform
  refine ⟨fun text fontSize fontRun metrics hplatform => ?_, fun text fontSize runs hruns => ?_,
    fun text fontSize fontRun hnumber hdisagrees later hlater text' len => ?_⟩
  · split
    · next hnumber =>
      have hmeasured := (holds_run platforms fontsGeneration calls).current hplatform
      obtain ⟨font', heq, -⟩ := NumberShaping.shapeIn_measured hplatform hmeasured hnumber
      rw [NumberCalls.shape, NumberShaping.shape_singleton _ _ _ _ hnumber]
      dsimp only
      rw [heq]
    · next hnumber =>
      rw [NumberCalls.shape, NumberShaping.shape, if_neg hnumber]
  · rcases NumberShaping.shape_cases state.numbers state.fontsGeneration platform text fontSize runs
      with hnone | ⟨fontRun, rfl, -⟩
    · rw [NumberCalls.shape, hnone]
    · exact absurd rfl hruns
  · have hleft : Left fontRun.fontId fontSize
        (state.step platforms (.shape text fontSize [fontRun])) := by
      rw [NumberCalls.step, NumberCalls.shape, NumberShaping.shape_singleton _ _ _ _ hnumber]
      refine ⟨(current_fontsGeneration _ _).symm, ?_⟩
      dsimp only
      rw [Function.update_self]
      exact hdisagrees.leaves
    rw [run, foldl_append, foldl_cons]
    exact (hleft.steps platforms later hlater).answer platforms text' rfl

/-- Digits seven apart, two ones in a row one closer, before and after fonts are added. -/
theorem run_answers_elevens :
    let metrics : NumberMetrics ℚ :=
      ⟨fun char => ⟨char.toUInt32, 7⟩, fun l r => if l = 49 ∧ r = 49 then -1 else 0, 9, 3, false⟩
    let platforms : ℕ → LayoutLine ℚ := fun fontsGeneration text fontSize runs =>
      metrics.layout ((runs.map (·.fontId)).sum * (fontsGeneration + 1)) fontSize text
    ((run platforms 0 [.shape [49, 49] 12 [⟨2, 0⟩], .addFonts]).shape platforms [49, 49, 46] 12
        [⟨3, 0⟩]).2 =
      some ⟨12, 20, 9, 3, [⟨0, [⟨49, ⟨0, 0⟩, 0, false⟩, ⟨49, ⟨6, 0⟩, 1, false⟩,
        ⟨46, ⟨13, 0⟩, 2, false⟩]⟩], 3⟩ := by
  intro metrics platforms
  have hadditive : NumberShaping.Additive (platforms 1) 0 12 metrics := by
    intro text _ _
    simp [platforms]
  have hanswer := (run_answers platforms 0 [.shape [49, 49] 12 [⟨2, 0⟩], .addFonts]).1
    [49, 49, 46] 12 ⟨3, 0⟩ metrics hadditive
  rw [if_pos (by decide)] at hanswer
  rw [hanswer, Option.some.injEq]
  with_unfolding_all decide

end NumberCalls

end GpuiFast
