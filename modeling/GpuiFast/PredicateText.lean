import GpuiFast.ContextText

/-! Predicates are parsed with an operand and the operators after it that bind tightly enough, `>` the
loosest, and printed with parentheses around disjunctions in conjunctions and the other way. -/

namespace GpuiFast

inductive ContextOperator where
  | child
  | and
  | or
  | eq
  | neq

namespace ContextOperator

def all : List ContextOperator := [child, and, or, eq, neq]

def text : ContextOperator → List Char
  | child => ['>']
  | and => ['&', '&']
  | or => ['|', '|']
  | eq => ['=', '=']
  | neq => ['!', '=']

def precedence : ContextOperator → ℕ
  | child => 1
  | or => 2
  | and => 3
  | eq => 4
  | neq => 4

def spaced (operator : ContextOperator) : List Char := ' ' :: operator.text ++ [' ']

end ContextOperator

/-- The precedence of `!`. -/
def precedenceNot : ℕ := 5

inductive PredicateError where
  | unexpectedEnd
  | unexpectedCharacter (c : Char)
  /-- Expected a `)`. -/
  | expectedClose
  | operands (operator : ContextOperator)
  /-- More calls are to come than were asked for; no error of the source. -/
  | unfinished

def isVimOperatorChar (c : Char) : Bool :=
  c == '>' || c == '<' || c == '~' || c == '"' || c == '?'

namespace KeyBindingContextPredicate

def new : ContextOperator → (left right : KeyBindingContextPredicate) →
    Except PredicateError KeyBindingContextPredicate
  | .child, left, right => .ok (.descendant left right)
  | .and, left, right => .ok (.and left right)
  | .or, left, right => .ok (.or left right)
  | .eq, .identifier left, .identifier right => .ok (.equal left right)
  | .eq, _, _ => .error (.operands .eq)
  | .neq, .identifier left, .identifier right => .ok (.notEqual left right)
  | .neq, _, _ => .error (.operands .neq)

/-- The operator that a source starts with if it binds tightly enough, and what is behind it. -/
def operatorAt (source : List Char) (minPrecedence : ℕ) : Option (ContextOperator × List Char) :=
  ContextOperator.all.findSome? (fun operator =>
    if minPrecedence ≤ operator.precedence then
      (operator.text.isPrefixOf? source).map (fun rest => (operator, rest))
    else none)

section Parse

variable (table : CharTable)

def isNameChar (c : Char) : Bool := isIdentifierChar table c || isVimOperatorChar c

mutual

def parseExpr : ℕ → List Char → ℕ →
    Except PredicateError (KeyBindingContextPredicate × List Char)
  | 0, _, _ => .error .unfinished
  | calls + 1, source, minPrecedence => do
    let (predicate, rest) ← parsePrimary calls source
    parseOperators calls predicate rest minPrecedence

def parseOperators : ℕ → KeyBindingContextPredicate → List Char → ℕ →
    Except PredicateError (KeyBindingContextPredicate × List Char)
  | 0, _, _, _ => .error .unfinished
  | calls + 1, predicate, source, minPrecedence =>
    match operatorAt source minPrecedence with
    | some (operator, rest) => do
      let (right, rest) ← parseExpr calls (skipWhitespace rest) (operator.precedence + 1)
      let predicate ← new operator predicate right
      parseOperators calls predicate rest minPrecedence
    | none => .ok (predicate, source)

def parsePrimary : ℕ → List Char →
    Except PredicateError (KeyBindingContextPredicate × List Char)
  | 0, _ => .error .unfinished
  | _ + 1, [] => .error .unexpectedEnd
  | calls + 1, '(' :: source => do
    let (predicate, rest) ← parseExpr calls (skipWhitespace source) 0
    match rest with
    | ')' :: rest => .ok (predicate, skipWhitespace rest)
    | _ => .error .expectedClose
  | calls + 1, '!' :: source => do
    let (predicate, rest) ← parseExpr calls (skipWhitespace source) precedenceNot
    .ok (.not predicate, rest)
  | _ + 1, next :: source =>
    if isIdentifierChar table next then
      .ok (.identifier (.ofList ((next :: source).takeWhile (isNameChar table))),
        skipWhitespace ((next :: source).dropWhile (isNameChar table)))
    else if isVimOperatorChar next then
      .ok (.identifier (.ofList [next]), skipWhitespace source)
    else .error (.unexpectedCharacter next)

end

def callsFor (source : List Char) : ℕ := 2 * source.length + 2

def parse (source : List Char) : Except PredicateError KeyBindingContextPredicate := do
  let source := skipWhitespace source
  let (predicate, rest) ← parseExpr table (callsFor source) source 0
  match rest with
  | next :: _ => .error (.unexpectedCharacter next)
  | [] => .ok predicate

end Parse

inductive LogicalOperator where
  | and
  | or

def LogicalOperator.separator : LogicalOperator → List Char
  | and => ContextOperator.and.spaced
  | or => ContextOperator.or.spaced

def needsParens : LogicalOperator → KeyBindingContextPredicate → Bool
  | .and, .or .. => true
  | .or, .and .. => true
  | _, _ => false

mutual

def display : KeyBindingContextPredicate → List Char
  | .identifier name => name.toList
  | .equal left right => left.toList ++ ContextOperator.eq.spaced ++ right.toList
  | .notEqual left right => left.toList ++ ContextOperator.neq.spaced ++ right.toList
  | .descendant parent child => display parent ++ ContextOperator.child.spaced ++ display child
  | .not (.identifier name) => '!' :: name.toList
  | .not predicate => '!' :: '(' :: display predicate ++ [')']
  | .and left right =>
    let (text, first) := fmtJoinedInner .and left true
    text ++ (fmtJoinedInner .and right first).1
  | .or left right =>
    let (text, first) := fmtJoinedInner .or left true
    text ++ (fmtJoinedInner .or right first).1
termination_by predicate => (sizeOf predicate, 0)

def fmtJoinedInner : LogicalOperator → KeyBindingContextPredicate → Bool → List Char × Bool
  | .and, .and left right, first =>
    let (text, first) := fmtJoinedInner .and left first
    let (text', first) := fmtJoinedInner .and right first
    (text ++ text', first)
  | .or, .or left right, first =>
    let (text, first) := fmtJoinedInner .or left first
    let (text', first) := fmtJoinedInner .or right first
    (text ++ text', first)
  | operator, node, first =>
    ((if first then [] else operator.separator) ++
      (if needsParens operator node then '(' :: display node ++ [')'] else display node), false)
termination_by _ predicate => (sizeOf predicate, 1)

end

end KeyBindingContextPredicate

end GpuiFast
