import GpuiFast.KeyMap
import GpuiFast.LineLayout

/-! A number is put together from the glyph of each character and the kerning between neighbours, which
the platform is asked for once for each font and size. The first lines put together, and some
later ones, are checked against the platform. -/

namespace GpuiFast

variable {K : Type*} [Field K] [LinearOrder K]

abbrev LayoutLine (K : Type*) := Text → K → List FontRun → LineLayout K

namespace NumberShaping

/-- `0123456789.,+-%$KMBT`, the characters numbers are put together from. -/
def CHARACTERS : List UInt8 :=
  [48, 49, 50, 51, 52, 53, 54, 55, 56, 57, 46, 44, 43, 45, 37, 36, 75, 77, 66, 84]

def MAX_LEN : ℕ := 64
def CHECKED_FIRST : ℕ := 32
def CHECKED_EVERY : ℕ := 256

def TOLERANCE : K := 1 / 1000

def close (a b : K) : Bool := decide (|a - b| ≤ TOLERANCE)

structure Glyph (K : Type*) where
  id : GlyphId
  advance : K

structure Font (K : Type*) where
  glyphs : UInt8 → Option (Option (Glyph K))
  kerning : UInt8 × UInt8 → Option (Option K)
  ascent : K
  descent : K
  isEmoji : Bool
  checked : ℕ
  lines : ℕ
  disagreed : Bool

def Font.new : Font K := ⟨fun _ => none, fun _ => none, 0, 0, false, 0, 0, false⟩

def glyphsIn (layout : LineLayout K) (fontId : FontId) : Option (List (ShapedGlyph K)) :=
  match layout.runs with
  | [run] => if run.fontId = fontId then some run.glyphs else none
  | _ => none

def glyph (platform : LayoutLine K) (fontId : FontId) (fontSize : K) (font : Font K) (char : UInt8) :
    Font K × Option (Glyph K) :=
  match font.glyphs char with
  | some glyph => (font, glyph)
  | none =>
    let layout := platform [char] fontSize [⟨1, fontId⟩]
    match glyphsIn layout fontId with
    | some [shaped] =>
      if shaped.position = ⟨0, 0⟩ ∧ shaped.index = 0 then
        let glyph : Glyph K := ⟨shaped.id, layout.width⟩
        ({ font with
          ascent := layout.ascent
          descent := layout.descent
          isEmoji := shaped.isEmoji
          glyphs := Function.update font.glyphs char (some (some glyph)) }, some glyph)
      else ({ font with glyphs := Function.update font.glyphs char (some none) }, none)
    | _ => ({ font with glyphs := Function.update font.glyphs char (some none) }, none)

def pairKerning (layout : LineLayout K) (fontId : FontId) (left right : Glyph K) : Option K :=
  match glyphsIn layout fontId with
  | some [first, second] =>
    if first.id = left.id ∧ second.id = right.id ∧ first.index = 0 ∧ second.index = 1 ∧
        first.position = ⟨0, 0⟩ ∧ second.position.y = 0 ∧
        close layout.width (second.position.x + right.advance) then
      some (second.position.x - left.advance)
    else none
  | _ => none

def kerning (platform : LayoutLine K) (fontId : FontId) (fontSize : K) (font : Font K)
    (left right : UInt8) : Font K × Option K :=
  match font.kerning (left, right) with
  | some kerning => (font, kerning)
  | none =>
    match glyph platform fontId fontSize font left with
    | (font, none) => (font, none)
    | (font, some leftGlyph) =>
      match glyph platform fontId fontSize font right with
      | (font, none) => (font, none)
      | (font, some rightGlyph) =>
        let layout := platform [left, right] fontSize [⟨2, fontId⟩]
        let kerning := pairKerning layout fontId leftGlyph rightGlyph
        ({ font with kerning := Function.update font.kerning (left, right) (some kerning) }, kerning)

/-- Puts the rest of a number together, after `previous` at `x`: its glyphs, and the width. -/
def putGlyphs (platform : LayoutLine K) (fontId : FontId) (fontSize : K) :
    Font K → ℕ → K → Option (UInt8 × Glyph K) → List UInt8 →
      Font K × Option (List (ShapedGlyph K) × K)
  | font, _, x, previous, [] => (font, previous.map (fun p => ([], x + p.2.advance)))
  | font, index, x, previous, char :: chars =>
    match glyph platform fontId fontSize font char with
    | (font, none) => (font, none)
    | (font, some g) =>
      let moved : Font K × Option K := match previous with
        | none => (font, some x)
        | some (left, leftGlyph) =>
          let k := kerning platform fontId fontSize font left char
          (k.1, k.2.map (fun kerning => x + (leftGlyph.advance + kerning)))
      match moved with
      | (font, none) => (font, none)
      | (font, some x) =>
        let isEmoji := font.isEmoji
        let rest := putGlyphs platform fontId fontSize font (index + 1) x (some (char, g)) chars
        (rest.1, rest.2.map (fun r => (⟨g.id, ⟨x, 0⟩, index, isEmoji⟩ :: r.1, r.2)))

def putTogether (platform : LayoutLine K) (fontId : FontId) (fontSize : K) (font : Font K)
    (text : Text) : Font K × Option (LineLayout K) :=
  let r := putGlyphs platform fontId fontSize font 0 0 none text
  (r.1, r.2.map (fun p =>
    ⟨fontSize, p.2, r.1.ascent, r.1.descent, [⟨fontId, p.1⟩], text.length⟩))

def agree (ours theirs : LineLayout K) : Bool :=
  decide (ours.len = theirs.len) && decide (ours.fontSize = theirs.fontSize) &&
    close ours.width theirs.width && decide (ours.ascent = theirs.ascent) &&
    decide (ours.descent = theirs.descent) && decide (ours.runs.length = theirs.runs.length) &&
    (ours.runs.zip theirs.runs).all (fun (a, b) =>
      decide (a.fontId = b.fontId) && decide (a.glyphs.length = b.glyphs.length) &&
        (a.glyphs.zip b.glyphs).all (fun (g, h) =>
          decide (g.id = h.id) && decide (g.index = h.index) && decide (g.isEmoji = h.isEmoji) &&
            close g.position.x h.position.x && close g.position.y h.position.y))

end NumberShaping

structure NumberShaping (K : Type*) where
  fonts : FontId × K → NumberShaping.Font K
  fontsGeneration : ℕ

namespace NumberShaping

def new : NumberShaping K := ⟨fun _ => .new, 0⟩

def isNumber (text : Text) (run : FontRun) : Bool :=
  !text.isEmpty && decide (text.length ≤ MAX_LEN) && decide (run.len = text.length) &&
    text.all (· ∈ CHARACTERS)

def shapeIn (platform : LayoutLine K) (text : Text) (fontSize : K) (run : FontRun) (font : Font K) :
    Font K × Option (LineLayout K) :=
  if font.disagreed then (font, none)
  else
    match putTogether platform run.fontId fontSize font text with
    | (font, none) => (font, none)
    | (font, some layout) =>
      let font := { font with lines := font.lines + 1 }
      if font.checked < CHECKED_FIRST ∨ CHECKED_EVERY ∣ font.lines then
        let shaped := platform text fontSize [run]
        if agree layout shaped then ({ font with checked := font.checked + 1 }, some layout)
        else ({ font with disagreed := true }, some shaped)
      else (font, some layout)

def shape (numbers : NumberShaping K) (fontsGeneration : ℕ) (platform : LayoutLine K) (text : Text)
    (fontSize : K) (runs : List FontRun) : NumberShaping K × Option (LineLayout K) :=
  match runs with
  | [run] =>
    if isNumber text run then
      let numbers := if fontsGeneration = numbers.fontsGeneration then numbers
        else ⟨fun _ => .new, fontsGeneration⟩
      let r := shapeIn platform text fontSize run (numbers.fonts (run.fontId, fontSize))
      ({ numbers with fonts := Function.update numbers.fonts (run.fontId, fontSize) r.1 }, r.2)
    else (numbers, none)
  | _ => (numbers, none)

end NumberShaping

end GpuiFast
