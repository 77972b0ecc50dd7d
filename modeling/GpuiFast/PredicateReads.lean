import GpuiFast.PredicateText
import Mathlib.Tactic.Linarith

/-! What a call returns it returns with more calls too, and calls enough for the length of a source are
enough for the source. The rules by which expressions are read are thus rules without a count. -/

namespace GpuiFast

open List

lemma isPrefixOf?_eq_some_iff {α : Type*} [DecidableEq α] {l₁ l₂ rest : List α} :
    l₁.isPrefixOf? l₂ = some rest ↔ l₂ = l₁ ++ rest := by
  induction l₁ generalizing l₂ with
  | nil => simp [isPrefixOf?]
  | cons a l₁ ih =>
    cases l₂ with
    | nil => simp [isPrefixOf?]
    | cons b l₂ =>
      rw [isPrefixOf?]
      by_cases hab : a = b
      · simp [hab, ih]
      · simp [hab, Ne.symm hab]

namespace KeyBindingContextPredicate

variable {table : CharTable} {source rest : List Char} {minPrecedence : ℕ}
  {operator : ContextOperator} {predicate result : KeyBindingContextPredicate}

lemma operatorAt_eq_some (h : operatorAt source minPrecedence = some (operator, rest)) :
    minPrecedence ≤ operator.precedence ∧ source = operator.text ++ rest := by
  obtain ⟨operator', -, h⟩ := exists_of_findSome?_eq_some h
  split_ifs at h with hle
  obtain ⟨rest', hrest, heq⟩ := Option.map_eq_some_iff.mp h
  obtain ⟨rfl, rfl⟩ := Prod.mk.inj heq
  exact ⟨hle, isPrefixOf?_eq_some_iff.mp hrest⟩

lemma operatorAt_length_lt (h : operatorAt source minPrecedence = some (operator, rest)) :
    rest.length < source.length := by
  rw [(operatorAt_eq_some h).2, length_append]
  cases operator <;> simp [ContextOperator.text]

lemma operatorAt_text (hle : minPrecedence ≤ operator.precedence) :
    operatorAt (operator.text ++ rest) minPrecedence = some (operator, rest) := by
  cases operator <;>
    simp [operatorAt, ContextOperator.all, ContextOperator.text, isPrefixOf?,
      show minPrecedence ≤ _ from hle]

lemma operatorAt_text_of_lt (hlt : operator.precedence < minPrecedence) :
    operatorAt (operator.text ++ rest) minPrecedence = none := by
  cases operator <;>
    simp [operatorAt, ContextOperator.all, ContextOperator.text, isPrefixOf?,
      show ¬minPrecedence ≤ _ from not_le.mpr hlt]

lemma operatorAt_nil : operatorAt [] minPrecedence = none := by
  simp [operatorAt, ContextOperator.all, ContextOperator.text, isPrefixOf?]

lemma operatorAt_close : operatorAt (')' :: rest) minPrecedence = none := by
  simp [operatorAt, ContextOperator.all, ContextOperator.text, isPrefixOf?]

lemma operatorAt_mono {minPrecedence' : ℕ} (h : operatorAt source minPrecedence = none)
    (hle : minPrecedence ≤ minPrecedence') : operatorAt source minPrecedence' = none := by
  cases hat : operatorAt source minPrecedence' with
  | none => rfl
  | some found =>
    obtain ⟨hprecedence, rfl⟩ := @operatorAt_eq_some _ found.2 _ found.1 hat
    rw [operatorAt_text (hle.trans hprecedence)] at h
    cases h

lemma operatorAt_not : operatorAt source precedenceNot = none := by
  cases hat : operatorAt source precedenceNot with
  | none => rfl
  | some found =>
    obtain ⟨operator, rest⟩ := found
    have hle := (operatorAt_eq_some hat).1
    cases operator <;> exact absurd hle (by decide)

section Calls

variable {n m : ℕ} {α β : Type} {answer : KeyBindingContextPredicate × List Char}

lemma bind_eq_ok {x : Except PredicateError α} {f : α → Except PredicateError β} {b : β} :
    (x >>= f) = .ok b ↔ ∃ a, x = .ok a ∧ f a = .ok b := by
  cases x with
  | error e => exact ⟨fun h => (by cases h), fun ⟨_, h, _⟩ => (by cases h)⟩
  | ok a => exact ⟨fun h => ⟨a, rfl, h⟩, fun ⟨_, h, hf⟩ => Except.ok.inj h ▸ hf⟩

lemma parseExpr_eq_ok : parseExpr table (n + 1) source m = .ok answer ↔
    ∃ first, parsePrimary table n source = .ok first ∧
      parseOperators table n first.1 first.2 m = .ok answer := by
  rw [parseExpr, bind_eq_ok]

lemma parseOperators_eq_ok_of_none (h : operatorAt source m = none) :
    parseOperators table (n + 1) predicate source m = .ok (predicate, source) := by
  rw [parseOperators, h]

lemma parseOperators_eq_ok (h : operatorAt source m = some (operator, rest)) :
    parseOperators table (n + 1) predicate source m = .ok answer ↔
      ∃ right, parseExpr table n (skipWhitespace rest) (operator.precedence + 1) = .ok right ∧
        ∃ joined, new operator predicate right.1 = .ok joined ∧
          parseOperators table n joined right.2 m = .ok answer := by
  rw [parseOperators, h]
  simp only [bind_eq_ok]

lemma parsePrimary_paren : parsePrimary table (n + 1) ('(' :: source) = .ok answer ↔
    ∃ rest, parseExpr table n (skipWhitespace source) 0 = .ok (answer.1, ')' :: rest) ∧
      answer.2 = skipWhitespace rest := by
  rw [parsePrimary, bind_eq_ok]
  constructor
  · rintro ⟨⟨inner, rest⟩, hinner, h⟩
    simp only at h
    split at h
    · obtain rfl := Except.ok.inj h
      exact ⟨_, hinner, rfl⟩
    · cases h
  · rintro ⟨rest, hinner, h⟩
    refine ⟨_, hinner, ?_⟩
    simp only [← h]

lemma parsePrimary_not : parsePrimary table (n + 1) ('!' :: source) = .ok answer ↔
    ∃ inner, parseExpr table n (skipWhitespace source) precedenceNot = .ok inner ∧
      answer = (.not inner.1, inner.2) := by
  rw [parsePrimary, bind_eq_ok]
  exact exists_congr (fun inner => and_congr_right (fun _ =>
    ⟨fun h => (Except.ok.inj h).symm, fun h => congrArg Except.ok h.symm⟩))

lemma parsePrimary_name {c : Char} (hparen : c ≠ '(') (hnot : c ≠ '!') :
    parsePrimary table (n + 1) (c :: source) = .ok answer ↔
      (isIdentifierChar table c = true ∧
          answer = (.identifier (.ofList ((c :: source).takeWhile (isNameChar table))),
            skipWhitespace ((c :: source).dropWhile (isNameChar table)))) ∨
        isIdentifierChar table c = false ∧ isVimOperatorChar c = true ∧
          answer = (.identifier (.ofList [c]), skipWhitespace source) := by
  rw [parsePrimary]
  · split_ifs with hidentifier hvim
    · simp only [hidentifier, true_and, Bool.true_eq_false, false_and, or_false]
      exact ⟨fun h => (Except.ok.inj h).symm, fun h => congrArg Except.ok h.symm⟩
    · simp only [hidentifier, hvim, true_and, Bool.false_eq_true, false_and, false_or]
      exact ⟨fun h => (Except.ok.inj h).symm, fun h => congrArg Except.ok h.symm⟩
    · simp [hidentifier, hvim]
  · exact hparen
  · exact hnot

lemma skipWhitespace_length_le (source : List Char) :
    (skipWhitespace source).length ≤ source.length :=
  (KeyContext.skipWhitespace_suffix source).length_le

lemma bind_eq_error {x : Except PredicateError α} {f : α → Except PredicateError β}
    {e : PredicateError} :
    (x >>= f) = .error e ↔ x = .error e ∨ ∃ a, x = .ok a ∧ f a = .error e := by
  cases x with
  | error e' => exact ⟨fun h => .inl (congrArg Except.error (Except.error.inj h)),
      fun h => h.elim (fun h => congrArg Except.error (Except.error.inj h))
        (fun ⟨_, h, _⟩ => (by cases h))⟩
  | ok a => exact ⟨fun h => .inr ⟨a, rfl, h⟩, fun h => h.elim (fun h => (by cases h))
      (fun ⟨_, h, hf⟩ => Except.ok.inj h ▸ hf)⟩

/-- Whether a source is left shorter by whatever call reads it. -/
structure Progress (table : CharTable) (n : ℕ) : Prop where
  expr : ∀ source m answer, parseExpr table n source m = .ok answer →
    answer.2.length < source.length
  operators : ∀ predicate source m answer,
    parseOperators table n predicate source m = .ok answer → answer.2.length ≤ source.length
  primary : ∀ source answer, parsePrimary table n source = .ok answer →
    answer.2.length < source.length

lemma progress (table : CharTable) (n : ℕ) : Progress table n := by
  induction n with
  | zero =>
    refine ⟨?_, ?_, ?_⟩
    · intro source m answer h
      rw [parseExpr] at h
      cases h
    · intro predicate source m answer h
      rw [parseOperators] at h
      cases h
    · intro source answer h
      rw [parsePrimary] at h
      cases h
  | succ n ih =>
    refine ⟨?_, ?_, ?_⟩
    · intro source m answer h
      obtain ⟨first, hfirst, hrest⟩ := parseExpr_eq_ok.mp h
      exact (ih.operators _ _ _ _ hrest).trans_lt (ih.primary _ _ hfirst)
    · intro predicate source m answer h
      cases hat : operatorAt source m with
      | none =>
        rw [parseOperators_eq_ok_of_none hat] at h
        rw [← Except.ok.inj h]
      | some found =>
        obtain ⟨operator, rest⟩ := found
        obtain ⟨right, hright, joined, -, hrest⟩ := (parseOperators_eq_ok hat).mp h
        have hlt := ih.expr _ _ _ hright
        have hle := ih.operators _ _ _ _ hrest
        have hskip := skipWhitespace_length_le rest
        have hoperator := operatorAt_length_lt hat
        omega
    · intro source answer h
      cases source with
      | nil =>
        rw [parsePrimary] at h
        cases h
      | cons c source =>
        have hskip := skipWhitespace_length_le source
        rw [length_cons]
        by_cases hparen : c = '('
        · subst hparen
          obtain ⟨rest, hinner, hanswer⟩ := parsePrimary_paren.mp h
          have hlt : (')' :: rest).length < _ := ih.expr _ _ _ hinner
          have hrest := skipWhitespace_length_le rest
          rw [length_cons] at hlt
          rw [hanswer]
          omega
        · by_cases hnot : c = '!'
          · subst hnot
            obtain ⟨inner, hinner, rfl⟩ := parsePrimary_not.mp h
            have hlt := ih.expr _ _ _ hinner
            show inner.2.length < _
            omega
          · rcases (parsePrimary_name hparen hnot).mp h with ⟨hidentifier, rfl⟩ | ⟨-, -, rfl⟩
            · have hname : isNameChar table c = true := by rw [isNameChar, hidentifier]; rfl
              rw [dropWhile_cons_of_pos hname]
              have hle := skipWhitespace_length_le (source.dropWhile (isNameChar table))
              have hdrop := (dropWhile_suffix (l := source) (isNameChar table)).length_le
              show (skipWhitespace (source.dropWhile (isNameChar table))).length < _
              omega
            · show (skipWhitespace source).length < _
              omega

/-- Whether answers come with as many calls as a source is long enough for. -/
structure Settled (table : CharTable) (n : ℕ) : Prop where
  expr : ∀ source m answer, parseExpr table n source m = .ok answer →
    ∀ n', 2 * source.length + 2 ≤ n' → parseExpr table n' source m = .ok answer
  operators : ∀ predicate source m answer,
    parseOperators table n predicate source m = .ok answer →
    ∀ n', 2 * source.length + 1 ≤ n' → parseOperators table n' predicate source m = .ok answer
  primary : ∀ source answer, parsePrimary table n source = .ok answer →
    ∀ n', 2 * source.length + 1 ≤ n' → parsePrimary table n' source = .ok answer

lemma settled (table : CharTable) (n : ℕ) : Settled table n := by
  induction n with
  | zero =>
    refine ⟨?_, ?_, ?_⟩
    · intro source m answer h
      rw [parseExpr] at h
      cases h
    · intro predicate source m answer h
      rw [parseOperators] at h
      cases h
    · intro source answer h
      rw [parsePrimary] at h
      cases h
  | succ n ih =>
    have hprogress := progress table n
    refine ⟨?_, ?_, ?_⟩
    · intro source m answer h n' hn'
      obtain ⟨n', rfl⟩ := Nat.exists_eq_add_of_le' (Nat.one_le_of_lt hn')
      obtain ⟨first, hfirst, hrest⟩ := parseExpr_eq_ok.mp h
      have hlt := hprogress.primary _ _ hfirst
      exact parseExpr_eq_ok.mpr ⟨first, ih.primary _ _ hfirst n' (by omega),
        ih.operators _ _ _ _ hrest n' (by omega)⟩
    · intro predicate source m answer h n' hn'
      obtain ⟨n', rfl⟩ := Nat.exists_eq_add_of_le' (Nat.one_le_of_lt hn')
      cases hat : operatorAt source m with
      | none =>
        rw [parseOperators_eq_ok_of_none hat] at h ⊢
        exact h
      | some found =>
        obtain ⟨operator, rest⟩ := found
        obtain ⟨right, hright, joined, hnew, hrest⟩ := (parseOperators_eq_ok hat).mp h
        have hlt := hprogress.expr _ _ _ hright
        have hskip := skipWhitespace_length_le rest
        have hoperator := operatorAt_length_lt hat
        exact (parseOperators_eq_ok hat).mpr ⟨right, ih.expr _ _ _ hright n' (by omega), joined,
          hnew, ih.operators _ _ _ _ hrest n' (by omega)⟩
    · intro source answer h n' hn'
      obtain ⟨n', rfl⟩ := Nat.exists_eq_add_of_le' (Nat.one_le_of_lt hn')
      cases source with
      | nil =>
        rw [parsePrimary] at h
        cases h
      | cons c source =>
        have hskip := skipWhitespace_length_le source
        rw [length_cons] at hn'
        by_cases hparen : c = '('
        · subst hparen
          obtain ⟨rest, hinner, hanswer⟩ := parsePrimary_paren.mp h
          exact parsePrimary_paren.mpr ⟨rest, ih.expr _ _ _ hinner n' (by omega), hanswer⟩
        · by_cases hnot : c = '!'
          · subst hnot
            obtain ⟨inner, hinner, rfl⟩ := parsePrimary_not.mp h
            exact parsePrimary_not.mpr ⟨inner, ih.expr _ _ _ hinner n' (by omega), rfl⟩
          · exact (parsePrimary_name hparen hnot).mpr ((parsePrimary_name hparen hnot).mp h)

/-- Whether calls are enough for a source. -/
structure Finishes (table : CharTable) (n : ℕ) : Prop where
  expr : ∀ source m, 2 * source.length + 2 ≤ n →
    parseExpr table n source m ≠ .error .unfinished
  operators : ∀ predicate source m, 2 * source.length + 1 ≤ n →
    parseOperators table n predicate source m ≠ .error .unfinished
  primary : ∀ source, 2 * source.length + 1 ≤ n → parsePrimary table n source ≠ .error .unfinished

lemma new_ne_unfinished (left right : KeyBindingContextPredicate) :
    new operator left right ≠ .error .unfinished := by
  cases operator <;> cases left <;> cases right
  all_goals exact fun h => (by cases h)

lemma finishes (table : CharTable) (n : ℕ) : Finishes table n := by
  induction n with
  | zero =>
    refine ⟨fun _ _ h => ?_, fun _ _ _ h => ?_, fun _ h => ?_⟩
    all_goals exact absurd h (Nat.not_succ_le_zero _)
  | succ n ih =>
    have hprogress := progress table n
    refine ⟨fun source m hn h => ?_, fun predicate source m hn h => ?_, fun source hn h => ?_⟩
    · rw [parseExpr, bind_eq_error] at h
      rcases h with h | ⟨first, hfirst, h⟩
      · exact ih.primary source (by omega) h
      · have hlt := hprogress.primary _ _ hfirst
        exact ih.operators _ _ _ (by omega) h
    · rw [parseOperators] at h
      cases hat : operatorAt source m with
      | none =>
        rw [hat] at h
        cases h
      | some found =>
        obtain ⟨operator, rest⟩ := found
        have hskip := skipWhitespace_length_le rest
        have hoperator := operatorAt_length_lt hat
        simp only [hat, bind_eq_error] at h
        rcases h with h | ⟨right, hright, h | ⟨joined, -, h⟩⟩
        · exact ih.expr _ _ (by omega) h
        · exact new_ne_unfinished _ _ h
        · have hlt := hprogress.expr _ _ _ hright
          exact ih.operators _ _ _ (by omega) h
    · cases source with
      | nil =>
        rw [parsePrimary] at h
        cases h
      | cons c source =>
        have hskip := skipWhitespace_length_le source
        rw [length_cons] at hn
        by_cases hparen : c = '('
        · subst hparen
          rw [parsePrimary, bind_eq_error] at h
          rcases h with h | ⟨inner, -, h⟩
          · exact ih.expr _ _ (by omega) h
          · simp only at h
            split at h <;> cases h
        · by_cases hnot : c = '!'
          · subst hnot
            rw [parsePrimary, bind_eq_error] at h
            rcases h with h | ⟨inner, -, h⟩
            · exact ih.expr _ _ (by omega) h
            · cases h
          · rw [parsePrimary] at h
            · split_ifs at h
              cases h
            · exact hparen
            · exact hnot

theorem parse_finishes (table : CharTable) (source : List Char) :
    parse table source ≠ .error .unfinished := by
  intro h
  rw [parse, bind_eq_error] at h
  rcases h with h | ⟨inner, -, h⟩
  · exact (finishes table _).expr _ _ le_rfl h
  · simp only at h
    split at h <;> cases h

end Calls

def Reads (table : CharTable) (source : List Char) (minPrecedence : ℕ)
    (answer : KeyBindingContextPredicate × List Char) : Prop :=
  ∃ n, parseExpr table n source minPrecedence = .ok answer

def ReadsPrimary (table : CharTable) (source : List Char)
    (answer : KeyBindingContextPredicate × List Char) : Prop :=
  ∃ n, parsePrimary table n source = .ok answer

def ReadsOn (table : CharTable) (predicate : KeyBindingContextPredicate) (source : List Char)
    (minPrecedence : ℕ) (answer : KeyBindingContextPredicate × List Char) : Prop :=
  ∃ n, parseOperators table n predicate source minPrecedence = .ok answer

section Rules

variable {m : ℕ} {first right answer : KeyBindingContextPredicate × List Char}

lemma ReadsPrimary.on (h : ReadsPrimary table source first)
    (hrest : ReadsOn table first.1 first.2 m answer) : Reads table source m answer := by
  obtain ⟨n, h⟩ := h
  obtain ⟨n', hrest⟩ := hrest
  let calls := 2 * source.length + 2 * first.2.length + 2
  exact ⟨calls + 1, parseExpr_eq_ok.mpr ⟨first,
    (settled table n).primary _ _ h calls (by omega),
    (settled table n').operators _ _ _ _ hrest calls (by omega)⟩⟩

lemma ReadsOn.stop (h : operatorAt source m = none) :
    ReadsOn table predicate source m (predicate, source) :=
  ⟨1, parseOperators_eq_ok_of_none h⟩

lemma Reads.on {joined : KeyBindingContextPredicate}
    (h : Reads table (skipWhitespace rest) (operator.precedence + 1) right)
    (hat : operatorAt source m = some (operator, rest))
    (hnew : new operator predicate right.1 = .ok joined)
    (hrest : ReadsOn table joined right.2 m answer) : ReadsOn table predicate source m answer := by
  obtain ⟨n, h⟩ := h
  obtain ⟨n', hrest⟩ := hrest
  let calls := 2 * (skipWhitespace rest).length + 2 * right.2.length + 2
  exact ⟨calls + 1, (parseOperators_eq_ok hat).mpr ⟨right,
    (settled table n).expr _ _ _ h calls (by omega), joined, hnew,
    (settled table n').operators _ _ _ _ hrest calls (by omega)⟩⟩

lemma Reads.paren {inner : KeyBindingContextPredicate}
    (h : Reads table (skipWhitespace source) 0 (inner, ')' :: rest)) :
    ReadsPrimary table ('(' :: source) (inner, skipWhitespace rest) := by
  obtain ⟨n, h⟩ := h
  exact ⟨n + 1, parsePrimary_paren.mpr ⟨rest, h, rfl⟩⟩

lemma Reads.not (h : Reads table (skipWhitespace source) precedenceNot first) :
    ReadsPrimary table ('!' :: source) (.not first.1, first.2) := by
  obtain ⟨n, h⟩ := h
  exact ⟨n + 1, parsePrimary_not.mpr ⟨first, h, rfl⟩⟩

lemma Reads.parse (h : Reads table (skipWhitespace source) 0 (predicate, [])) :
    parse table source = .ok predicate := by
  obtain ⟨n, h⟩ := h
  rw [KeyBindingContextPredicate.parse, bind_eq_ok]
  exact ⟨_, (settled table n).expr _ _ _ h _ le_rfl, rfl⟩

end Rules

inductive IsName (table : CharTable) : List Char → Prop
  | identifier {c : Char} {rest : List Char} : isIdentifierChar table c = true →
    (∀ d ∈ rest, isNameChar table d = true) → IsName table (c :: rest)
  | operator {c : Char} : isVimOperatorChar c = true → IsName table [c]

def Named (table : CharTable) : KeyBindingContextPredicate → Prop
  | .identifier name => IsName table name.toList
  | .equal left right => IsName table left.toList ∧ IsName table right.toList
  | .notEqual left right => IsName table left.toList ∧ IsName table right.toList
  | .descendant parent child => parent.Named table ∧ child.Named table
  | .not predicate => predicate.Named table
  | .and left right => left.Named table ∧ right.Named table
  | .or left right => left.Named table ∧ right.Named table

lemma Named.new {left right joined : KeyBindingContextPredicate} (hleft : left.Named table)
    (hright : right.Named table) (h : new operator left right = .ok joined) :
    joined.Named table := by
  cases operator with
  | child => exact Except.ok.inj h ▸ ⟨hleft, hright⟩
  | and => exact Except.ok.inj h ▸ ⟨hleft, hright⟩
  | or => exact Except.ok.inj h ▸ ⟨hleft, hright⟩
  | eq =>
    cases left <;> cases right <;> first | exact Except.ok.inj h ▸ ⟨hleft, hright⟩ | cases h
  | neq =>
    cases left <;> cases right <;> first | exact Except.ok.inj h ▸ ⟨hleft, hright⟩ | cases h

structure GivesNamed (table : CharTable) (n : ℕ) : Prop where
  expr : ∀ source m answer, parseExpr table n source m = .ok answer → answer.1.Named table
  operators : ∀ predicate source m answer, predicate.Named table →
    parseOperators table n predicate source m = .ok answer → answer.1.Named table
  primary : ∀ source answer, parsePrimary table n source = .ok answer → answer.1.Named table

lemma givesNamed (table : CharTable) (n : ℕ) : GivesNamed table n := by
  induction n with
  | zero =>
    refine ⟨fun source m answer h => ?_, fun predicate source m answer _ h => ?_,
      fun source answer h => ?_⟩
    · rw [parseExpr] at h
      cases h
    · rw [parseOperators] at h
      cases h
    · rw [parsePrimary] at h
      cases h
  | succ n ih =>
    refine ⟨fun source m answer h => ?_, fun predicate source m answer hpredicate h => ?_,
      fun source answer h => ?_⟩
    · obtain ⟨first, hfirst, hrest⟩ := parseExpr_eq_ok.mp h
      exact ih.operators _ _ _ _ (ih.primary _ _ hfirst) hrest
    · cases hat : operatorAt source m with
      | none =>
        rw [parseOperators_eq_ok_of_none hat] at h
        exact Except.ok.inj h ▸ hpredicate
      | some found =>
        obtain ⟨operator, rest⟩ := found
        obtain ⟨right, hright, joined, hnew, hrest⟩ := (parseOperators_eq_ok hat).mp h
        exact ih.operators _ _ _ _ (hpredicate.new (ih.expr _ _ _ hright) hnew) hrest
    · cases source with
      | nil =>
        rw [parsePrimary] at h
        cases h
      | cons c source =>
        by_cases hparen : c = '('
        · subst hparen
          obtain ⟨rest, hinner, -⟩ := parsePrimary_paren.mp h
          exact ih.expr _ _ (answer.1, ')' :: rest) hinner
        · by_cases hnot : c = '!'
          · subst hnot
            obtain ⟨inner, hinner, rfl⟩ := parsePrimary_not.mp h
            exact ih.expr _ _ inner hinner
          · rcases (parsePrimary_name hparen hnot).mp h with ⟨hidentifier, rfl⟩ | ⟨-, hvim, rfl⟩
            · have hname : isNameChar table c = true := by rw [isNameChar, hidentifier]; rfl
              show IsName table (String.ofList _).toList
              rw [String.toList_ofList, takeWhile_cons_of_pos hname]
              exact .identifier hidentifier (fun d hd => mem_takeWhile_imp hd)
            · show IsName table (String.ofList [c]).toList
              rw [String.toList_ofList]
              exact .operator hvim

lemma named_of_parse (h : parse table source = .ok predicate) : predicate.Named table := by
  rw [parse, bind_eq_ok] at h
  obtain ⟨⟨inner, rest⟩, hinner, h⟩ := h
  cases rest with
  | nil => exact Except.ok.inj h ▸ (givesNamed table _).expr _ _ _ hinner
  | cons next rest => cases h

end KeyBindingContextPredicate

end GpuiFast
