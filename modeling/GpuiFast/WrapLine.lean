import GpuiFast.TruncateLine

/-! A line of text and inline elements, wrapped by the widths of its characters. Where a line may break
and where its graphemes start is given with the text. -/

namespace GpuiFast

variable {K : Type*}

inductive IndentAdjustment where
  | noIndent
  | sameIndent
  | extraColumns (extra : ℕ)

inductive LineFragment (K : Type*) where
  | text (chars : List Char)
  | element (width : K) (lenUtf8 : ℕ)

inductive WrapBoundaryCandidate (K : Type*) where
  | char (character : Char)
  | element (width : K) (lenUtf8 : ℕ)

structure Boundary where
  ix : ℕ
  nextIndent : ℕ
  deriving DecidableEq

def LineFragment.wrapBoundaryCandidates : LineFragment K → List (WrapBoundaryCandidate K)
  | .text chars => chars.map .char
  | .element width lenUtf8 => [.element width lenUtf8]

def LineFragment.placeholder : LineFragment K → List Char
  | .text chars => chars
  | .element _ lenUtf8 => List.replicate lenUtf8 'a'

namespace WrapBoundaryCandidate

def lenUtf8 : WrapBoundaryCandidate K → ℕ
  | char character => character.utf8Size
  | element _ lenUtf8 => lenUtf8

def isNewline : WrapBoundaryCandidate K → Bool
  | char character => character == '\n'
  | element _ _ => false

def isElement : WrapBoundaryCandidate K → Bool
  | char _ => false
  | element _ _ => true

def isNonWhitespace : WrapBoundaryCandidate K → Bool
  | char character => character != ' '
  | element _ _ => true

def itemWidth (widthForChar : Char → K) : WrapBoundaryCandidate K → K
  | char character => widthForChar character
  | element width _ => width

end WrapBoundaryCandidate

structure PlacedCandidate (K : Type*) where
  ix : ℕ
  candidate : WrapBoundaryCandidate K
  isGraphemeBoundary : Bool
  isBreak : Bool

structure Segments where
  index : ℕ
  graphemeIndices : List ℕ
  breakIndices : List ℕ

def Segments.place (s : Segments) (candidate : WrapBoundaryCandidate K) :
    Segments × PlacedCandidate K :=
  let ix := s.index
  let graphemeIndices := s.graphemeIndices.dropWhile (· < ix)
  let isGraphemeBoundary := graphemeIndices.head? == some ix
  let isBreak := s.breakIndices.head? == some ix
  ({ index := ix + candidate.lenUtf8
     graphemeIndices := if isGraphemeBoundary then graphemeIndices.tail else graphemeIndices
     breakIndices := if isBreak then s.breakIndices.tail else s.breakIndices },
    ⟨ix, candidate, isGraphemeBoundary, isBreak⟩)

structure WrapLineState (K : Type*) where
  width : K
  firstNonWhitespaceIx : Option ℕ
  baseIndent : Option ℕ
  lastCandidateIx : ℕ
  lastCandidateWidth : K
  lastWrapIx : ℕ
  graphemeIndex : ℕ
  widthBeforeGrapheme : K

variable [Field K] [LinearOrder K]

namespace WrapLineState

def MAX_INDENT : ℕ := 256

def new : WrapLineState K := ⟨0, none, none, 0, 0, 0, 0, 0⟩

def note (s : WrapLineState K) (item : PlacedCandidate K) : WrapLineState K :=
  let s := if item.isGraphemeBoundary then
    { s with graphemeIndex := item.ix, widthBeforeGrapheme := s.width } else s
  if item.isBreak && item.isGraphemeBoundary && s.firstNonWhitespaceIx.isSome then
    { s with lastCandidateIx := item.ix, lastCandidateWidth := s.width }
  else s

def push (widthForChar : Char → K) (s : WrapLineState K) (item : PlacedCandidate K) :
    WrapLineState K :=
  let firstNonWhitespaceIx :=
    if item.candidate.isNonWhitespace && s.firstNonWhitespaceIx.isNone then some item.ix
    else s.firstNonWhitespaceIx
  { s with
    firstNonWhitespaceIx := firstNonWhitespaceIx
    width := s.width + item.candidate.itemWidth widthForChar }

def wrapAtCandidate (s : WrapLineState K) (wrapWidth : K) : Bool :=
  decide (s.lastWrapIx < s.lastCandidateIx) &&
    decide (s.width - s.lastCandidateWidth ≤ wrapWidth)

def carriedWidth (s : WrapLineState K) (wrapWidth : K) : K :=
  if s.wrapAtCandidate wrapWidth then s.width - s.lastCandidateWidth
  else s.width - s.widthBeforeGrapheme

def baseIndentAt (s : WrapLineState K) : Option ℕ :=
  s.baseIndent.or (s.firstNonWhitespaceIx.map (fun first =>
    min MAX_INDENT ((first - s.lastWrapIx) % 2 ^ 32)))

def nextIndent (widthForChar : Char → K) (wrapWidth : K) (adjustment : IndentAdjustment)
    (s : WrapLineState K) : ℕ :=
  match adjustment with
  | .noIndent => 0
  | .sameIndent => s.baseIndentAt.getD 0
  | .extraColumns extra =>
    match s.baseIndentAt with
    | some baseIndent =>
      let candidate := min (baseIndent + extra) (2 ^ 32 - 1)
      let candidateIndentWidth := widthForChar ' ' * candidate
      -- headroom for what is carried, and at least for a full-width character
      let minHeadroom := max (s.carriedWidth wrapWidth) (widthForChar ' ' * 2)
      if wrapWidth < candidateIndentWidth + minHeadroom then 0 else min MAX_INDENT candidate
    | none => 0

def wrap (widthForChar : Char → K) (wrapWidth : K) (adjustment : IndentAdjustment)
    (s : WrapLineState K) : WrapLineState K × Boundary :=
  let indent := s.nextIndent widthForChar wrapWidth adjustment
  let indentWidth := widthForChar ' ' * indent
  let baseIndent := s.baseIndentAt
  if s.wrapAtCandidate wrapWidth then
    ({ s with
        baseIndent := baseIndent
        lastWrapIx := s.lastCandidateIx
        width := s.width - s.lastCandidateWidth + indentWidth
        widthBeforeGrapheme := s.widthBeforeGrapheme - s.lastCandidateWidth + indentWidth
        lastCandidateIx := 0 },
      ⟨s.lastCandidateIx, indent⟩)
  else
    -- an oversized grapheme stays intact
    ({ s with
        baseIndent := baseIndent
        lastWrapIx := s.graphemeIndex
        width := s.width - s.widthBeforeGrapheme + indentWidth
        widthBeforeGrapheme := indentWidth
        lastCandidateIx := 0 },
      ⟨s.graphemeIndex, indent⟩)

def take (widthForChar : Char → K) (wrapWidth : K) (adjustment : IndentAdjustment)
    (s : WrapLineState K) (item : PlacedCandidate K) : WrapLineState K × Option Boundary :=
  let s := s.note item
  if item.candidate.isNewline then (s, none)
  else
    let s := s.push widthForChar item
    if wrapWidth < s.width ∧ s.lastWrapIx < s.graphemeIndex then
      let wrapped := s.wrap widthForChar wrapWidth adjustment
      (wrapped.1, some wrapped.2)
    else (s, none)

end WrapLineState

def wrapCandidates (widthForChar : Char → K) (wrapWidth : K) (adjustment : IndentAdjustment) :
    Segments → WrapLineState K → List (WrapBoundaryCandidate K) → List Boundary
  | _, _, [] => []
  | segments, s, candidate :: candidates =>
    let placed := segments.place candidate
    let taken := s.take widthForChar wrapWidth adjustment placed.2
    taken.2.toList ++
      wrapCandidates widthForChar wrapWidth adjustment placed.1 taken.1 candidates

structure Segmenters where
  breakIndices : List Char → List ℕ
  graphemeIndices : List Char → List ℕ

def fragmentsText (fragments : List (LineFragment K)) : List Char :=
  fragments.flatMap (·.placeholder)

def Segmenters.start (segmenters : Segmenters) (fragments : List (LineFragment K)) : Segments :=
  ⟨0, segmenters.graphemeIndices (fragmentsText fragments),
    segmenters.breakIndices (fragmentsText fragments)⟩

def wrapLine (segmenters : Segmenters) (widthForChar : Char → K)
    (fragments : List (LineFragment K)) (wrapWidth : K) (adjustment : IndentAdjustment) :
    List Boundary :=
  wrapCandidates widthForChar wrapWidth adjustment (segmenters.start fragments) .new
    (fragments.flatMap (·.wrapBoundaryCandidates))

end GpuiFast
