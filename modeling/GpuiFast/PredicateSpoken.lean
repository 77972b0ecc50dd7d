import GpuiFast.PredicateReads

/-! A printed predicate without what is in its parentheses is a sequence of operands and operators.
Read back, the operands are first joined at `&&`, then at `||` and last at `>`, which is not how the
predicate was made if it has a `>` where none could be without parentheses. -/

namespace GpuiFast

open List

structure Chain (α : Type) where
  first : α
  rest : List α

namespace Chain

variable {α : Type} {P Q : α → Prop} {f : α → α → α} {a b : Chain α}

def single (a : α) : Chain α := ⟨a, []⟩

def append (a b : Chain α) : Chain α := ⟨a.first, a.rest ++ b.first :: b.rest⟩

def glueFrom (f : α → α → α) (b : Chain α) : α → List α → Chain α
  | last, [] => ⟨f last b.first, b.rest⟩
  | first, second :: rest =>
    ⟨first, (glueFrom f b second rest).first :: (glueFrom f b second rest).rest⟩

def glue (f : α → α → α) (a b : Chain α) : Chain α := glueFrom f b a.first a.rest

def All (P : α → Prop) (a : Chain α) : Prop := P a.first ∧ ∀ b ∈ a.rest, P b

variable {x : α}

lemma all_single (h : P x) : (single x).All P := ⟨h, fun _ hb => (by cases hb)⟩

lemma All.imp (h : a.All P) (himp : ∀ x, P x → Q x) : a.All Q :=
  ⟨himp _ h.1, fun b hb => himp b (h.2 b hb)⟩

lemma All.append (ha : a.All P) (hb : b.All P) : (a.append b).All P := by
  refine ⟨ha.1, fun c hc => ?_⟩
  rcases mem_append.mp hc with hc | hc
  · exact ha.2 c hc
  · rcases mem_cons.mp hc with rfl | hc
    · exact hb.1
    · exact hb.2 c hc

lemma all_glueFrom (hb : b.All P) (hf : ∀ x y, P x → P y → P (f x y)) {xs : List α} (hx : P x)
    (hxs : ∀ y ∈ xs, P y) : (glueFrom f b x xs).All P := by
  induction xs generalizing x with
  | nil => exact ⟨hf _ _ hx hb.1, hb.2⟩
  | cons y xs ih =>
    obtain ⟨hfirst, hrest⟩ := ih (hxs y mem_cons_self)
      (fun z hz => hxs z (mem_cons_of_mem y hz))
    refine ⟨hx, fun c hc => ?_⟩
    rcases mem_cons.mp hc with rfl | hc
    · exact hfirst
    · exact hrest c hc

lemma All.glue (ha : a.All P) (hb : b.All P) (hf : ∀ x y, P x → P y → P (f x y)) :
    (a.glue f b).All P :=
  all_glueFrom hb hf ha.1 ha.2

section Text

def text (separator : List Char) (text : α → List Char) (a : Chain α) : List Char :=
  text a.first ++ a.rest.flatMap (fun b => separator ++ text b)

variable {separator inner : List Char} {t : α → List Char}

lemma text_append :
    (a.append b).text separator t = a.text separator t ++ separator ++ b.text separator t := by
  simp [append, text]

lemma text_glueFrom (hf : ∀ x y, t (f x y) = t x ++ inner ++ t y) (x : α) (xs : List α) :
    (glueFrom f b x xs).text separator t =
      text separator t ⟨x, xs⟩ ++ inner ++ b.text separator t := by
  induction xs generalizing x with
  | nil => simp [glueFrom, text, hf]
  | cons y xs ih =>
    have ih := ih y
    rw [text, text] at ih
    simp only [glueFrom, text, flatMap_cons, append_assoc] at ih ⊢
    rw [ih]

lemma text_glue (hf : ∀ x y, t (f x y) = t x ++ inner ++ t y) :
    (a.glue f b).text separator t = a.text separator t ++ inner ++ b.text separator t :=
  text_glueFrom hf a.first a.rest

end Text

def predicate (join : KeyBindingContextPredicate → KeyBindingContextPredicate →
    KeyBindingContextPredicate) (predicate : α → KeyBindingContextPredicate) (a : Chain α) :
    KeyBindingContextPredicate :=
  a.rest.foldl (fun left b => join left (predicate b)) (predicate a.first)

end Chain

structure Operand where
  text : List Char
  predicate : KeyBindingContextPredicate

abbrev Conjunction := Chain Operand

abbrev Disjunction := Chain Conjunction

/-- The disjunctions between the `>` of a printed predicate. -/
abbrev Spoken := Chain Disjunction

namespace Spoken

def conjunctionText (c : Conjunction) : List Char :=
  c.text ContextOperator.and.spaced Operand.text

def disjunctionText (d : Disjunction) : List Char :=
  d.text ContextOperator.or.spaced conjunctionText

def text (spoken : Spoken) : List Char :=
  Chain.text ContextOperator.child.spaced disjunctionText spoken

def conjunctionPredicate (c : Conjunction) : KeyBindingContextPredicate :=
  c.predicate .and Operand.predicate

def disjunctionPredicate (d : Disjunction) : KeyBindingContextPredicate :=
  d.predicate .or conjunctionPredicate

def predicate (spoken : Spoken) : KeyBindingContextPredicate :=
  Chain.predicate .descendant disjunctionPredicate spoken

def operand (text : List Char) (predicate : KeyBindingContextPredicate) : Spoken :=
  .single (.single (.single ⟨text, predicate⟩))

def inParens (spoken : Spoken) : Spoken :=
  operand ('(' :: spoken.text ++ [')']) spoken.predicate

/-- Joins at a `>`. -/
def child (a b : Spoken) : Spoken := a.append b

/-- Joins at a `||`: a disjunction ends before it and goes on behind it. -/
def or (a b : Spoken) : Spoken := a.glue .append b

def and (a b : Spoken) : Spoken := a.glue (.glue .append) b

def All (P : Operand → Prop) (spoken : Spoken) : Prop :=
  Chain.All (Chain.All (Chain.All P)) spoken

variable {P : Operand → Prop} {a b : Spoken}

lemma all_operand {text : List Char} {predicate : KeyBindingContextPredicate}
    (h : P ⟨text, predicate⟩) : (operand text predicate).All P :=
  Chain.all_single (Chain.all_single (Chain.all_single h))

lemma All.child (ha : a.All P) (hb : b.All P) : (a.child b).All P := Chain.All.append ha hb

lemma All.or (ha : a.All P) (hb : b.All P) : (a.or b).All P :=
  Chain.All.glue ha hb (fun _ _ => Chain.All.append)

lemma All.and (ha : a.All P) (hb : b.All P) : (a.and b).All P :=
  Chain.All.glue ha hb (fun _ _ hx hy => Chain.All.glue hx hy (fun _ _ => Chain.All.append))

lemma text_operand (text : List Char) (predicate : KeyBindingContextPredicate) :
    (operand text predicate).text = text := by
  simp [operand, Spoken.text, disjunctionText, conjunctionText, Chain.text, Chain.single]

lemma text_child : (a.child b).text = a.text ++ ContextOperator.child.spaced ++ b.text :=
  Chain.text_append

lemma text_or : (a.or b).text = a.text ++ ContextOperator.or.spaced ++ b.text :=
  Chain.text_glue (fun _ _ => Chain.text_append)

lemma text_and : (a.and b).text = a.text ++ ContextOperator.and.spaced ++ b.text :=
  Chain.text_glue (fun _ _ => Chain.text_glue (fun _ _ => Chain.text_append))

end Spoken

namespace KeyBindingContextPredicate

def among (operator : LogicalOperator) (node : KeyBindingContextPredicate) (spoken : Spoken) :
    Spoken :=
  if needsParens operator node then spoken.inParens else spoken

def spoken : KeyBindingContextPredicate → Spoken
  | .identifier name => .operand name.toList (.identifier name)
  | .equal left right =>
    .operand (left.toList ++ ContextOperator.eq.spaced ++ right.toList) (.equal left right)
  | .notEqual left right =>
    .operand (left.toList ++ ContextOperator.neq.spaced ++ right.toList) (.notEqual left right)
  | .descendant parent child => parent.spoken.child child.spoken
  | .not (.identifier name) => .operand ('!' :: name.toList) (.not (.identifier name))
  | .not predicate =>
    .operand ('!' :: '(' :: predicate.spoken.text ++ [')']) (.not predicate.spoken.predicate)
  | .and left right => (among .and left left.spoken).and (among .and right right.spoken)
  | .or left right => (among .or left left.spoken).or (among .or right right.spoken)

/-- The predicate with its operators grouped as they are read where they are printed: a `>` that is
an operand of another operator takes all around it for its sides. -/
def regroup (predicate : KeyBindingContextPredicate) : KeyBindingContextPredicate :=
  predicate.spoken.predicate

def amongText (operator : LogicalOperator) (node : KeyBindingContextPredicate) : List Char :=
  if needsParens operator node then '(' :: node.display ++ [')'] else node.display

lemma fmtJoinedInner_eq (operator : LogicalOperator) (node : KeyBindingContextPredicate)
    (first : Bool) : fmtJoinedInner operator node first =
      ((if first then [] else operator.separator) ++ amongText operator node, false) := by
  induction node generalizing operator first with
  | and left right ihLeft ihRight =>
    cases operator with
    | and => simp [fmtJoinedInner, display, ihLeft, ihRight, amongText, needsParens]
    | or => simp [fmtJoinedInner, amongText, needsParens]
  | or left right ihLeft ihRight =>
    cases operator with
    | and => simp [fmtJoinedInner, amongText, needsParens]
    | or => simp [fmtJoinedInner, display, ihLeft, ihRight, amongText, needsParens]
  | _ => cases operator <;> simp [fmtJoinedInner, amongText, needsParens]

variable (left right predicate : KeyBindingContextPredicate)

lemma display_and : display (.and left right) =
    amongText .and left ++ ContextOperator.and.spaced ++ amongText .and right := by
  simp [display, fmtJoinedInner_eq, LogicalOperator.separator]

lemma display_or : display (.or left right) =
    amongText .or left ++ ContextOperator.or.spaced ++ amongText .or right := by
  simp [display, fmtJoinedInner_eq, LogicalOperator.separator]

lemma text_among {operator : LogicalOperator} {node : KeyBindingContextPredicate}
    (h : node.spoken.text = node.display) :
    (among operator node node.spoken).text = amongText operator node := by
  rw [among, amongText]
  split_ifs
  · rw [Spoken.inParens, Spoken.text_operand, h]
  · exact h

lemma not_printed :
    (∃ name, predicate = .identifier name) ∨
      display (.not predicate) = '!' :: '(' :: predicate.display ++ [')'] ∧
        spoken (.not predicate) = .operand ('!' :: '(' :: predicate.spoken.text ++ [')'])
          (.not predicate.spoken.predicate) := by
  cases predicate with
  | identifier name => exact .inl ⟨name, rfl⟩
  | _ => exact .inr ⟨by simp only [display], rfl⟩

lemma text_spoken : predicate.spoken.text = predicate.display := by
  induction predicate with
  | identifier name => rw [spoken, Spoken.text_operand, display]
  | equal left right => rw [spoken, Spoken.text_operand, display]
  | notEqual left right => rw [spoken, Spoken.text_operand, display]
  | descendant parent child ihParent ihChild =>
    rw [spoken, Spoken.text_child, ihParent, ihChild, display]
  | not predicate ih =>
    rcases not_printed predicate with ⟨name, rfl⟩ | ⟨hdisplay, hspoken⟩
    · rw [spoken, Spoken.text_operand, display]
    · rw [hspoken, Spoken.text_operand, ih, hdisplay]
  | and left right ihLeft ihRight =>
    rw [spoken, Spoken.text_and, text_among ihLeft, text_among ihRight, display_and]
  | or left right ihLeft ihRight =>
    rw [spoken, Spoken.text_or, text_among ihLeft, text_among ihRight, display_or]

end KeyBindingContextPredicate

end GpuiFast
