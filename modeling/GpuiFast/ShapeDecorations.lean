import GpuiFast.RunLength
import GpuiFast.TruncateRuns

/-! Shaping a text hands each line what the runs say about it: the runs are gone through once for all
lines, the one at hand is shortened by what a line takes of it and by the newline after the line. -/

namespace GpuiFast

variable {K φ δ : Type*}

/-- A stretch of a line and what it is painted with. Its length is that of the runs it comes from
cut down to 32 bits. -/
structure DecorationRun (δ : Type*) where
  len : UInt32
  decoration : δ

/-- What a line is laid out and painted with. -/
structure ProcessedRuns (δ : Type*) where
  decorationRuns : List (DecorationRun δ)
  fontRuns : List FontRun

/-- A shaped line, with the font runs it was laid out with. -/
structure ProcessedLine (K δ : Type*) where
  layout : WrappedLineLayout K
  decorationRuns : List (DecorationRun δ)
  text : Text
  fontRuns : List FontRun

/-- Takes `len` off the run at hand and passes it once it is used up; nothing if its length would
underflow. -/
def shortenHead (len : ℕ) : List (TextRun φ δ) → Option (List (TextRun φ δ))
  | [] => some []
  | run :: runs =>
    if run.len < len then none
    else if run.len - len = 0 then some runs
    else some ({ run with len := run.len - len } :: runs)

section Runs

variable [DecidableEq δ]

def ProcessedRuns.add (line : ProcessedRuns δ) (lenWithinLine : ℕ) (fontId : FontId)
    (decoration : δ) : ProcessedRuns δ :=
  let unchanged := line.decorationRuns.getLast?.any (fun last => last.decoration = decoration)
  { decorationRuns := match line.decorationRuns.getLast? with
      | some last =>
        if last.decoration = decoration then
          line.decorationRuns.dropLast ++ [{ last with len := last.len + .ofNat lenWithinLine }]
        else line.decorationRuns ++ [⟨.ofNat lenWithinLine, decoration⟩]
      | none => [⟨.ofNat lenWithinLine, decoration⟩]
    fontRuns := match line.fontRuns.getLast? with
      | some last =>
        if fontId = last.fontId ∧ unchanged then
          line.fontRuns.dropLast ++ [{ last with len := last.len + lenWithinLine }]
        else line.fontRuns ++ [⟨lenWithinLine, fontId⟩]
      | none => [⟨lenWithinLine, fontId⟩] }

/-- Goes through the runs of a line of which `len` bytes are left, and gives those left after it. -/
def processRuns (resolveFont : φ → FontId) : ℕ → ProcessedRuns δ → List (TextRun φ δ) →
    Option (ProcessedRuns δ × List (TextRun φ δ))
  | len, line, runs =>
    if len = 0 then some (line, runs)
    else match runs with
      -- the runs do not cover the text
      | [] => some (line, [])
      | run :: runs =>
        let lenWithinLine := min len run.len
        let line := line.add lenWithinLine (resolveFont run.font) run.decoration
        if run.len < lenWithinLine then none
        else if run.len - lenWithinLine = 0 then
          processRuns resolveFont (len - lenWithinLine) line runs
        -- the run goes on after the line
        else some (line, { run with len := run.len - lenWithinLine } :: runs)

end Runs

namespace LineShaper

variable [Field K] [LinearOrder K] [DecidableEq δ]

def processLine (shaper : LineShaper K φ) (fontSize : K) (wrapWidth : Option K)
    (maxLines : Option ℕ) (text : Text) (runs : List (TextRun φ δ)) :
    Option (ProcessedLine K δ × List (TextRun φ δ)) :=
  (processRuns shaper.resolveFont text.length ⟨[], []⟩ runs).bind (fun r =>
    (shortenHead 1 r.2).map (fun rest =>
      (⟨shaper.layoutWrappedLine text fontSize r.1.fontRuns wrapWidth maxLines,
        r.1.decorationRuns, text, r.1.fontRuns⟩, rest)))

/-- Shapes lines, of which `wrappedLines` boundaries came before. -/
def processLines (shaper : LineShaper K φ) (fontSize : K) (wrapWidth : Option K)
    (lineClamp : Option ℕ) :
    List Text → List (TextRun φ δ) → ℕ → Option (List (ProcessedLine K δ))
  | [], _, _ => some []
  | text :: texts, runs, wrappedLines =>
    (shaper.processLine fontSize wrapWidth (lineClamp.map (fun max => max - wrappedLines)) text
      runs).bind (fun r =>
        (shaper.processLines fontSize wrapWidth lineClamp texts r.2
          (wrappedLines + r.1.layout.wrapBoundaries.length)).map (r.1 :: ·))

/-- `shape_text`, with the decorations of each line; nothing if a run's length underflows. -/
def shapeDecoratedText (shaper : LineShaper K φ) (text : Text) (fontSize : K)
    (runs : List (TextRun φ δ)) (wrapWidth : Option K) (lineClamp : Option ℕ) :
    Option (List (ProcessedLine K δ)) :=
  shaper.processLines fontSize wrapWidth lineClamp (text.splitOn 10)
    (runs.filter (fun run => 0 < run.len)) 0

end LineShaper

variable [DecidableEq δ]

end GpuiFast
