import GpuiFast.KeyContextHolds
import GpuiFast.PredicateSpoken

namespace GpuiFast

open List

namespace KeyBindingContextPredicate

variable {table : CharTable} {text rest : List Char} {level : ℕ}
  {predicate : KeyBindingContextPredicate}

def EndsName (table : CharTable) (rest : List Char) : Prop :=
  ∀ c ∈ rest.head?, isNameChar table c = false

/-- Whether a text is read as a predicate up to operators that bind less tightly than a level, and
not if the operator after it binds more tightly. -/
structure ReadsAs (table : CharTable) (level : ℕ) (text : List Char)
    (predicate : KeyBindingContextPredicate) : Prop where
  head : ∃ c tail, text = c :: tail ∧ isWhitespace c = false
  reads : ∀ rest m answer, EndsName table rest →
    operatorAt (skipWhitespace rest) (level + 1) = none → m ≤ level →
    ReadsOn table predicate (skipWhitespace rest) m answer →
    Reads table (text ++ rest) m answer

lemma isWhitespace_blank : isWhitespace ' ' = true := by decide

lemma isNameChar_of_ascii {c : Char} (hascii : c.toNat < 128)
    (h : isNameChar .asciiOnly c = false) : isNameChar table c = false := by
  rw [← h, isNameChar, isNameChar, isIdentifierChar, isIdentifierChar, table.ascii c hascii]
  rfl

lemma endsName_nil : EndsName table [] := fun _ h => (by cases h)

lemma endsName_blank : EndsName table (' ' :: rest) := by
  rintro c ⟨⟩
  exact isNameChar_of_ascii (by decide) (by decide)

lemma endsName_close : EndsName table (')' :: rest) := by
  rintro c ⟨⟩
  exact isNameChar_of_ascii (by decide) (by decide)

lemma skipWhitespace_of_head {c : Char} {tail : List Char} (hc : isWhitespace c = false) :
    skipWhitespace (c :: tail) = c :: tail := by
  rw [skipWhitespace, dropWhile_cons_of_neg (by simp [hc])]

lemma skipWhitespace_append (h : ∃ c tail, text = c :: tail ∧ isWhitespace c = false) :
    skipWhitespace (text ++ rest) = text ++ rest := by
  obtain ⟨c, tail, rfl, hc⟩ := h
  exact skipWhitespace_of_head hc

lemma skipWhitespace_blank_append (h : ∃ c tail, text = c :: tail ∧ isWhitespace c = false) :
    skipWhitespace (' ' :: (text ++ rest)) = text ++ rest := by
  rw [skipWhitespace, dropWhile_cons_of_pos isWhitespace_blank]
  exact skipWhitespace_append h

lemma operatorText_head (operator : ContextOperator) :
    ∃ c tail, operator.text = c :: tail ∧ isWhitespace c = false := by
  cases operator <;> exact ⟨_, _, rfl, by decide⟩

lemma skipWhitespace_spaced (operator : ContextOperator) :
    skipWhitespace (operator.spaced ++ rest) = operator.text ++ ' ' :: rest := by
  have h := @skipWhitespace_blank_append operator.text (' ' :: rest) (operatorText_head operator)
  simpa [ContextOperator.spaced] using h

lemma isIdentifierChar_of_vim {c : Char} (h : isVimOperatorChar c = true) :
    isIdentifierChar table c = false ∧ isWhitespace c = false ∧ c ≠ '(' ∧ c ≠ '!' := by
  have hcases : c = '>' ∨ c = '<' ∨ c = '~' ∨ c = '"' ∨ c = '?' := by
    simpa [isVimOperatorChar, or_assoc] using h
  have hidentifier : c.toNat < 128 → isIdentifierChar .asciiOnly c = false →
      isIdentifierChar table c = false := by
    intro hascii h
    rw [← h, isIdentifierChar, isIdentifierChar, table.ascii c hascii]
    rfl
  rcases hcases with rfl | rfl | rfl | rfl | rfl
  all_goals exact ⟨hidentifier (by decide) (by decide), by decide, by decide, by decide⟩

lemma isIdentifierChar_facts {c : Char} (h : isIdentifierChar table c = true) :
    isWhitespace c = false ∧ c ≠ '(' ∧ c ≠ '!' := by
  have hne : ∀ d : Char, d.toNat < 128 → isIdentifierChar .asciiOnly d = false → c ≠ d := by
    rintro d hascii hd rfl
    rw [isIdentifierChar, table.ascii c hascii] at h
    rw [isIdentifierChar] at hd
    rw [show CharTable.asciiOnly.isAlphanumeric c = c.isAlphanum from rfl, h] at hd
    cases hd
  refine ⟨?_, hne '(' (by decide) (by decide), hne '!' (by decide) (by decide)⟩
  simp only [isIdentifierChar, Bool.or_eq_true, beq_iff_eq] at h
  rcases h with (h | rfl) | rfl
  · exact table.not_whitespace c h
  · decide
  · decide

lemma IsName.head (h : IsName table text) :
    ∃ c tail, text = c :: tail ∧ isWhitespace c = false := by
  cases h with
  | identifier hc hrest => exact ⟨_, _, rfl, (isIdentifierChar_facts hc).1⟩
  | operator hc => exact ⟨_, _, rfl, (@isIdentifierChar_of_vim table _ hc).2.1⟩

lemma readsPrimary_name (h : IsName table text) (hrest : EndsName table rest) :
    ReadsPrimary table (text ++ rest) (.identifier (.ofList text), skipWhitespace rest) := by
  refine ⟨1, ?_⟩
  cases h with
  | @identifier c tail hc htail =>
    obtain ⟨-, hparen, hnot⟩ := isIdentifierChar_facts hc
    have hall : ∀ d ∈ c :: tail, isNameChar table d = true := by
      intro d hd
      rcases mem_cons.mp hd with rfl | hd
      · rw [isNameChar, hc]
        rfl
      · exact htail d hd
    have hends : rest.takeWhile (isNameChar table) = [] ∧
        rest.dropWhile (isNameChar table) = rest := by
      cases rest with
      | nil => exact ⟨rfl, rfl⟩
      | cons d rest =>
        have hd : ¬isNameChar table d = true := by simp [hrest d rfl]
        exact ⟨takeWhile_cons_of_neg hd, dropWhile_cons_of_neg hd⟩
    have htake : (c :: tail ++ rest).takeWhile (isNameChar table) = c :: tail := by
      rw [takeWhile_append_of_pos hall, hends.1, append_nil]
    have hdrop : (c :: tail ++ rest).dropWhile (isNameChar table) = rest := by
      rw [dropWhile_append_of_pos hall, hends.2]
    refine (parsePrimary_name hparen hnot).mpr (.inl ⟨hc, ?_⟩)
    show _ = (identifier (.ofList ((c :: tail ++ rest).takeWhile (isNameChar table))),
      skipWhitespace ((c :: tail ++ rest).dropWhile (isNameChar table)))
    rw [htake, hdrop]
  | @operator c hc =>
    obtain ⟨hidentifier, -, hparen, hnot⟩ := @isIdentifierChar_of_vim table c hc
    exact (parsePrimary_name hparen hnot).mpr (.inr ⟨hidentifier, hc, rfl⟩)

lemma ReadsAs.primary (hhead : ∃ c tail, text = c :: tail ∧ isWhitespace c = false)
    (h : ∀ rest, EndsName table rest →
      ReadsPrimary table (text ++ rest) (predicate, skipWhitespace rest)) :
    ReadsAs table 4 text predicate :=
  ⟨hhead, fun rest _ _ hrest _ _ hon => (h rest hrest).on hon⟩

lemma ReadsPrimary.not (hhead : ∃ c tail, text = c :: tail ∧ isWhitespace c = false)
    (h : ReadsPrimary table (text ++ rest) (predicate, skipWhitespace rest)) :
    ReadsPrimary table ('!' :: text ++ rest) (.not predicate, skipWhitespace rest) := by
  have hreads : Reads table (text ++ rest) precedenceNot (predicate, skipWhitespace rest) :=
    h.on (ReadsOn.stop operatorAt_not)
  rw [← skipWhitespace_append hhead] at hreads
  exact hreads.not

lemma ReadsAs.paren (h : ReadsAs table level text predicate) (rest : List Char) :
    ReadsPrimary table ('(' :: text ++ [')'] ++ rest) (predicate, skipWhitespace rest) := by
  have hclose : skipWhitespace (')' :: rest) = ')' :: rest := skipWhitespace_of_head (by decide)
  have hreads : Reads table (text ++ ')' :: rest) 0 (predicate, ')' :: rest) := by
    refine h.reads (')' :: rest) 0 _ endsName_close ?_ (Nat.zero_le _) ?_
    · rw [hclose]
      exact operatorAt_close
    · rw [hclose]
      exact ReadsOn.stop operatorAt_close
  rw [← skipWhitespace_append h.head] at hreads
  have hparen := hreads.paren
  rw [append_assoc]
  exact hparen

lemma head_cons {c : Char} (hc : isWhitespace c = false) (tail : List Char) :
    ∃ c' tail', c :: tail = c' :: tail' ∧ isWhitespace c' = false :=
  ⟨c, tail, rfl, hc⟩

lemma readsAs_name (h : IsName table text) : ReadsAs table 4 text (.identifier (.ofList text)) :=
  .primary h.head (fun _ hrest => readsPrimary_name h hrest)

lemma readsAs_comparison {operator : ContextOperator} {left right : List Char}
    (hleft : IsName table left) (hright : IsName table right)
    (hprecedence : operator.precedence = 4)
    (hnew : new operator (.identifier (.ofList left)) (.identifier (.ofList right)) =
      .ok predicate) : ReadsAs table 4 (left ++ operator.spaced ++ right) predicate := by
  refine ⟨?_, fun rest m answer hrest _ hm hon => ?_⟩
  · obtain ⟨c, tail, rfl, hc⟩ := hleft.head
    exact ⟨c, _, rfl, hc⟩
  · have hspaced : EndsName table (operator.spaced ++ (right ++ rest)) := endsName_blank
    have hrightReads : Reads table (skipWhitespace (' ' :: (right ++ rest)))
        (operator.precedence + 1) (.identifier (.ofList right), skipWhitespace rest) := by
      rw [skipWhitespace_blank_append hright.head, hprecedence]
      exact (readsPrimary_name hright hrest).on (ReadsOn.stop operatorAt_not)
    have honLeft : ReadsOn table (.identifier (.ofList left))
        (skipWhitespace (operator.spaced ++ (right ++ rest))) m answer := by
      rw [skipWhitespace_spaced]
      exact hrightReads.on (operatorAt_text (hprecedence ▸ hm)) hnew hon
    rw [append_assoc, append_assoc]
    exact (readsPrimary_name hleft hspaced).on honLeft

section Chains

variable {α : Type} {operator : ContextOperator} {t : α → List Char}
  {p : α → KeyBindingContextPredicate}
  {join : KeyBindingContextPredicate → KeyBindingContextPredicate → KeyBindingContextPredicate}

lemma behind_operand (hprecedence : operator.precedence = level) (hrest : EndsName table rest)
    (hstop : operatorAt (skipWhitespace rest) (level + 1) = none) (xs : List α) :
    EndsName table (xs.flatMap (fun x => operator.spaced ++ t x) ++ rest) ∧
      operatorAt (skipWhitespace (xs.flatMap (fun x => operator.spaced ++ t x) ++ rest))
        (level + 1) = none := by
  cases xs with
  | nil => exact ⟨hrest, hstop⟩
  | cons x xs =>
    rw [flatMap_cons, append_assoc, append_assoc, skipWhitespace_spaced]
    exact ⟨endsName_blank, operatorAt_text_of_lt (hprecedence ▸ Nat.lt_succ_self _)⟩

lemma readsOn_operands (hprecedence : operator.precedence = level)
    (hnew : ∀ left right, new operator left right = .ok (join left right))
    (hrest : EndsName table rest) (hstop : operatorAt (skipWhitespace rest) (level + 1) = none)
    {m : ℕ} (hm : m ≤ level) {answer : KeyBindingContextPredicate × List Char} {xs : List α}
    (hxs : ∀ x ∈ xs, ReadsAs table (level + 1) (t x) (p x)) (first : KeyBindingContextPredicate)
    (hon : ReadsOn table (xs.foldl (fun left x => join left (p x)) first) (skipWhitespace rest) m
      answer) :
    ReadsOn table first
      (skipWhitespace (xs.flatMap (fun x => operator.spaced ++ t x) ++ rest)) m answer := by
  induction xs generalizing first with
  | nil => exact hon
  | cons x xs ih =>
    have hx := hxs x mem_cons_self
    have hnext := ih (fun y hy => hxs y (mem_cons_of_mem x hy)) (join first (p x)) hon
    obtain ⟨hends, hnone⟩ :=
      @behind_operand table rest level α operator t hprecedence hrest hstop xs
    have hright : Reads table (skipWhitespace (' ' :: (t x ++
        (xs.flatMap (fun x => operator.spaced ++ t x) ++ rest)))) (operator.precedence + 1)
        (p x, skipWhitespace (xs.flatMap (fun x => operator.spaced ++ t x) ++ rest)) := by
      rw [skipWhitespace_blank_append hx.head, hprecedence]
      exact hx.reads _ _ _ hends (operatorAt_mono hnone (Nat.le_succ _)) le_rfl
        (ReadsOn.stop hnone)
    rw [flatMap_cons, append_assoc, append_assoc, skipWhitespace_spaced]
    exact hright.on (operatorAt_text (hprecedence ▸ hm)) (hnew _ _) hnext

lemma Chain.readsAs (hprecedence : operator.precedence = level)
    (hnew : ∀ left right, new operator left right = .ok (join left right)) {a : Chain α}
    (ha : a.All (fun x => ReadsAs table (level + 1) (t x) (p x))) :
    ReadsAs table level (a.text operator.spaced t) (a.predicate join p) := by
  refine ⟨?_, fun rest m answer hrest hstop hm hon => ?_⟩
  · obtain ⟨c, tail, htext, hc⟩ := ha.1.head
    rw [Chain.text, htext]
    exact ⟨c, _, rfl, hc⟩
  · obtain ⟨hends, hnone⟩ :=
      @behind_operand table rest level α operator t hprecedence hrest hstop a.rest
    rw [Chain.text, append_assoc]
    exact ha.1.reads _ _ _ hends (operatorAt_mono hnone (Nat.le_succ _)) (hm.trans (Nat.le_succ _))
      (readsOn_operands hprecedence hnew hrest hstop hm ha.2 _ hon)

end Chains

def OperandReads (table : CharTable) (operand : Operand) : Prop :=
  ReadsAs table 4 operand.text operand.predicate

lemma Spoken.readsAs {spoken : Spoken} (h : spoken.All (OperandReads table)) :
    ReadsAs table 1 spoken.text spoken.predicate := by
  have hconjunction : ∀ c : Conjunction, c.All (OperandReads table) →
      ReadsAs table 3 (Spoken.conjunctionText c) (Spoken.conjunctionPredicate c) :=
    fun c hc => Chain.readsAs (show ContextOperator.and.precedence = 3 from rfl)
      (fun _ _ => rfl) hc
  have hdisjunction : ∀ d : Disjunction, d.All (Chain.All (OperandReads table)) →
      ReadsAs table 2 (Spoken.disjunctionText d) (Spoken.disjunctionPredicate d) :=
    fun d hd => Chain.readsAs (show ContextOperator.or.precedence = 2 from rfl)
      (fun _ _ => rfl) (hd.imp hconjunction)
  exact Chain.readsAs (show ContextOperator.child.precedence = 1 from rfl) (fun _ _ => rfl)
    (h.imp hdisjunction)

lemma Spoken.inParens_reads {spoken : Spoken} (h : spoken.All (OperandReads table)) :
    spoken.inParens.All (OperandReads table) :=
  Spoken.all_operand (.primary (head_cons (by decide) _)
    (fun rest _ => (Spoken.readsAs h).paren rest))

lemma among_reads {operator : LogicalOperator} {node : KeyBindingContextPredicate}
    (h : node.spoken.All (OperandReads table)) :
    (among operator node node.spoken).All (OperandReads table) := by
  rw [among]
  split_ifs
  · exact Spoken.inParens_reads h
  · exact h

lemma Named.spoken (h : predicate.Named table) : predicate.spoken.All (OperandReads table) := by
  induction predicate with
  | identifier name =>
    have hname := readsAs_name (show IsName table name.toList from h)
    rw [String.ofList_toList] at hname
    exact Spoken.all_operand hname
  | equal left right =>
    refine Spoken.all_operand (readsAs_comparison h.1 h.2 rfl ?_)
    rw [String.ofList_toList, String.ofList_toList]
    rfl
  | notEqual left right =>
    refine Spoken.all_operand (readsAs_comparison h.1 h.2 rfl ?_)
    rw [String.ofList_toList, String.ofList_toList]
    rfl
  | descendant parent child ihParent ihChild => exact (ihParent h.1).child (ihChild h.2)
  | not predicate ih =>
    rcases not_printed predicate with ⟨name, rfl⟩ | ⟨-, hspoken⟩
    · have hname : IsName table name.toList := h
      refine Spoken.all_operand (.primary (head_cons (by decide) _) (fun rest hrest => ?_))
      have hreads := readsPrimary_name hname hrest
      rw [String.ofList_toList] at hreads
      exact hreads.not hname.head
    · rw [hspoken]
      refine Spoken.all_operand (.primary (head_cons (by decide) _) (fun rest hrest => ?_))
      have hparen := (Spoken.readsAs (ih h)).paren rest
      exact hparen.not (head_cons (by decide) _)
  | and left right ihLeft ihRight =>
    exact (among_reads (ihLeft h.1)).and (among_reads (ihRight h.2))
  | or left right ihLeft ihRight =>
    exact (among_reads (ihLeft h.1)).or (among_reads (ihRight h.2))

theorem parse_display (h : predicate.Named table) :
    parse table predicate.display = .ok predicate.regroup := by
  have hreads := Spoken.readsAs h.spoken
  rw [text_spoken] at hreads
  have hall : Reads table (predicate.display ++ []) 0 (predicate.regroup, []) :=
    hreads.reads [] 0 _ endsName_nil operatorAt_nil (Nat.zero_le _) (ReadsOn.stop operatorAt_nil)
  rw [← skipWhitespace_append hreads.head, append_nil] at hall
  exact hall.parse

def Same (a b : KeyBindingContextPredicate) : Prop :=
  ∀ contexts all, a.evalInner contexts all = b.evalInner contexts all

section Same

variable {a a' b b' c : KeyBindingContextPredicate}

lemma Same.refl (a : KeyBindingContextPredicate) : Same a a := fun _ _ => rfl

lemma Same.trans (h : Same a b) (h' : Same b c) : Same a c :=
  fun contexts all => (h contexts all).trans (h' contexts all)

lemma Same.and (ha : Same a a') (hb : Same b b') : Same (.and a b) (.and a' b') := by
  intro contexts all
  rw [evalInner_and, evalInner_and, ha, hb]

lemma Same.or (ha : Same a a') (hb : Same b b') : Same (.or a b) (.or a' b') := by
  intro contexts all
  rw [evalInner_or, evalInner_or, ha, hb]

lemma Same.not (ha : Same a a') : Same (.not a) (.not a') := by
  intro contexts all
  rw [evalInner, evalInner]
  cases contexts.getLast? with
  | none => rfl
  | some context => simp only [ha _ all]

lemma Same.descendant (ha : Same a a') (hb : Same b b') :
    Same (.descendant a b) (.descendant a' b') := by
  intro contexts all
  rw [evalInner, evalInner]
  cases contexts.getLast? with
  | none => rfl
  | some context => simp only [ha _ all, hb _ _]

lemma same_and_assoc : Same (.and (.and a b) c) (.and a (.and b c)) := by
  intro contexts all
  simp only [evalInner_and, Bool.and_assoc]

lemma same_or_assoc : Same (.or (.or a b) c) (.or a (.or b c)) := by
  intro contexts all
  simp only [evalInner_or, Bool.or_assoc]

end Same

section Append

variable {α : Type}
  {join : KeyBindingContextPredicate → KeyBindingContextPredicate → KeyBindingContextPredicate}
  (hcongr : ∀ a a' b : KeyBindingContextPredicate, Same a a' → Same (join a b) (join a' b))
  (hassoc : ∀ a b c : KeyBindingContextPredicate, Same (join (join a b) c) (join a (join b c)))
  (p : α → KeyBindingContextPredicate)

include hcongr in
lemma same_foldl {a a' : KeyBindingContextPredicate} (h : Same a a') (xs : List α) :
    Same (xs.foldl (fun left x => join left (p x)) a)
      (xs.foldl (fun left x => join left (p x)) a') := by
  induction xs generalizing a a' with
  | nil => exact h
  | cons x xs ih => exact ih (hcongr _ _ _ h)

include hcongr hassoc in
lemma same_foldl_join (a b : KeyBindingContextPredicate) (xs : List α) :
    Same (xs.foldl (fun left x => join left (p x)) (join a b))
      (join a (xs.foldl (fun left x => join left (p x)) b)) := by
  induction xs generalizing b with
  | nil => exact Same.refl _
  | cons x xs ih => exact (same_foldl hcongr p (hassoc _ _ _) xs).trans (ih (join b (p x)))

include hcongr hassoc in
lemma Chain.same_append (a b : Chain α) :
    Same ((a.append b).predicate join p) (join (a.predicate join p) (b.predicate join p)) := by
  rw [Chain.predicate, Chain.append, foldl_append, foldl_cons]
  exact same_foldl_join hcongr hassoc p _ _ b.rest

end Append

def isDescendant : KeyBindingContextPredicate → Bool
  | .descendant _ _ => true
  | _ => false

/-- Whether each `>` stands where it needs no parentheses: not under `&&` or `||`, and not on the
right of another. -/
def Plain : KeyBindingContextPredicate → Prop
  | .identifier _ | .equal _ _ | .notEqual _ _ => True
  | .descendant parent child => parent.Plain ∧ child.Plain ∧ child.isDescendant = false
  | .not predicate => predicate.Plain
  | .and left right =>
    (left.Plain ∧ left.isDescendant = false) ∧ right.Plain ∧ right.isDescendant = false
  | .or left right =>
    (left.Plain ∧ left.isDescendant = false) ∧ right.Plain ∧ right.isDescendant = false

def Spoken.OneConjunction (spoken : Spoken) : Prop := ∃ c, spoken = .single (.single c)

def Spoken.OneDisjunction (spoken : Spoken) : Prop := ∃ d, spoken = .single d

lemma Spoken.OneConjunction.disjunction {spoken : Spoken} (h : Spoken.OneConjunction spoken) :
    Spoken.OneDisjunction spoken := by
  obtain ⟨c, hc⟩ := h
  exact ⟨_, hc⟩

lemma among_oneConjunction {operator : LogicalOperator} {node : KeyBindingContextPredicate}
    (h : needsParens operator node = false → Spoken.OneConjunction node.spoken) :
    Spoken.OneConjunction (among operator node node.spoken) := by
  rw [among]
  split_ifs with hparens
  · exact ⟨_, rfl⟩
  · exact h (Bool.not_eq_true _ ▸ hparens)

lemma among_oneDisjunction {operator : LogicalOperator} {node : KeyBindingContextPredicate}
    (h : Spoken.OneDisjunction node.spoken) :
    Spoken.OneDisjunction (among operator node node.spoken) := by
  rw [among]
  split_ifs
  · exact ⟨_, rfl⟩
  · exact h

lemma Plain.spoken_one (h : predicate.Plain) (hdescendant : predicate.isDescendant = false) :
    Spoken.OneDisjunction predicate.spoken ∧
      (needsParens .and predicate = false → Spoken.OneConjunction predicate.spoken) := by
  have hoperand : ∀ {spoken : Spoken}, Spoken.OneConjunction spoken →
      Spoken.OneDisjunction spoken ∧
        (needsParens .and predicate = false → Spoken.OneConjunction spoken) :=
    fun h => ⟨h.disjunction, fun _ => h⟩
  induction predicate with
  | identifier name => exact hoperand ⟨_, rfl⟩
  | equal left right => exact hoperand ⟨_, rfl⟩
  | notEqual left right => exact hoperand ⟨_, rfl⟩
  | descendant parent child => cases hdescendant
  | not predicate ih =>
    rcases not_printed predicate with ⟨name, rfl⟩ | ⟨-, hspoken⟩
    · exact hoperand ⟨_, rfl⟩
    · exact hoperand ⟨_, hspoken⟩
  | and left right ihLeft ihRight =>
    obtain ⟨⟨hleft, hleft'⟩, hright, hright'⟩ := h
    obtain ⟨c, hc⟩ := among_oneConjunction
      (ihLeft hleft hleft' (fun h => ⟨h.disjunction, fun _ => h⟩)).2
    obtain ⟨c', hc'⟩ := among_oneConjunction
      (ihRight hright hright' (fun h => ⟨h.disjunction, fun _ => h⟩)).2
    refine hoperand ⟨c.append c', ?_⟩
    rw [KeyBindingContextPredicate.spoken, hc, hc']
    rfl
  | or left right ihLeft ihRight =>
    obtain ⟨⟨hleft, hleft'⟩, hright, hright'⟩ := h
    obtain ⟨d, hd⟩ := @among_oneDisjunction .or _
      (ihLeft hleft hleft' (fun h => ⟨h.disjunction, fun _ => h⟩)).1
    obtain ⟨d', hd'⟩ := @among_oneDisjunction .or _
      (ihRight hright hright' (fun h => ⟨h.disjunction, fun _ => h⟩)).1
    refine ⟨⟨d.append d', ?_⟩, fun h => (by cases h)⟩
    rw [KeyBindingContextPredicate.spoken, hd, hd']
    rfl

lemma predicate_among (operator : LogicalOperator) (node : KeyBindingContextPredicate) :
    (among operator node node.spoken).predicate = node.regroup := by
  rw [among]
  split_ifs <;> rfl

/-- A predicate whose `>` need no parentheses says the same as it is read. -/
theorem Plain.same_regroup (h : predicate.Plain) : Same predicate.regroup predicate := by
  induction predicate with
  | identifier name => exact Same.refl _
  | equal left right => exact Same.refl _
  | notEqual left right => exact Same.refl _
  | descendant parent child ihParent ihChild =>
    obtain ⟨hparent, hchild, hdescendant⟩ := h
    obtain ⟨d, hd⟩ := (hchild.spoken_one hdescendant).1
    have hregroup : regroup (.descendant parent child) =
        .descendant parent.regroup child.regroup := by
      rw [regroup, spoken, regroup, regroup, hd]
      exact foldl_append
    rw [hregroup]
    exact (ihParent hparent).descendant (ihChild hchild)
  | not predicate ih =>
    rcases not_printed predicate with ⟨name, rfl⟩ | ⟨-, hspoken⟩
    · exact Same.refl _
    · rw [regroup, hspoken]
      exact (ih h).not
  | and left right ihLeft ihRight =>
    obtain ⟨⟨hleft, hleft'⟩, hright, hright'⟩ := h
    obtain ⟨c, hc⟩ := among_oneConjunction (hleft.spoken_one hleft').2
    obtain ⟨c', hc'⟩ := among_oneConjunction (hright.spoken_one hright').2
    have hjoined : Same (regroup (.and left right)) (.and left.regroup right.regroup) := by
      rw [← predicate_among .and left, ← predicate_among .and right, regroup, spoken, hc, hc']
      exact @Chain.same_append Operand and (fun _ _ _ h => h.and (Same.refl _))
        (fun _ _ _ => same_and_assoc) Operand.predicate c c'
    exact hjoined.trans ((ihLeft hleft).and (ihRight hright))
  | or left right ihLeft ihRight =>
    obtain ⟨⟨hleft, hleft'⟩, hright, hright'⟩ := h
    obtain ⟨d, hd⟩ := @among_oneDisjunction .or _ (hleft.spoken_one hleft').1
    obtain ⟨d', hd'⟩ := @among_oneDisjunction .or _ (hright.spoken_one hright').1
    have hjoined : Same (regroup (.or left right)) (.or left.regroup right.regroup) := by
      rw [← predicate_among .or left, ← predicate_among .or right, regroup, spoken, hd, hd']
      exact @Chain.same_append Conjunction or (fun _ _ _ h => h.or (Same.refl _))
        (fun _ _ _ => same_or_assoc) Spoken.conjunctionPredicate d d'
    exact hjoined.trans ((ihLeft hleft).or (ihRight hright))

def ReadsBack (table : CharTable) (predicate : KeyBindingContextPredicate) : Prop :=
  ∃ readBack, parse table predicate.display = .ok readBack ∧
    ∀ contexts, readBack.eval contexts = predicate.eval contexts

/-- A parsed predicate is printed to be read back the same if grouping its operators as they are
printed does not change what it matches, which it does not where each `>` needs no parentheses. -/
theorem readsBack_iff {source : List Char} (h : parse table source = .ok predicate) :
    (ReadsBack table predicate ↔
        ∀ contexts, predicate.regroup.eval contexts = predicate.eval contexts) ∧
      (predicate.Plain → ReadsBack table predicate) := by
  have hparse := parse_display (named_of_parse h)
  refine ⟨⟨?_, fun hsame => ⟨_, hparse, hsame⟩⟩, fun hplain => ?_⟩
  · rintro ⟨readBack, hreadBack, hsame⟩
    rw [hparse] at hreadBack
    exact Except.ok.inj hreadBack ▸ hsame
  · exact ⟨_, hparse, fun contexts => hplain.same_regroup contexts contexts⟩

theorem readsBack_conjunction :
    ∃ predicate, parse .asciiOnly ['a', '&', '&', '!', 'b'] = .ok predicate ∧
      ReadsBack .asciiOnly predicate := by
  have hparse : parse .asciiOnly ['a', '&', '&', '!', 'b'] =
      .ok (.and (.identifier (.ofList ['a'])) (.not (.identifier (.ofList ['b'])))) := rfl
  exact ⟨_, hparse, (readsBack_iff hparse).2 ⟨⟨trivial, rfl⟩, trivial, rfl⟩⟩

/-- The text `(a > b) || c` is parsed to a predicate that is printed as `a > b || c` and read back
as `a > (b || c)`, which does not match a `c` alone. -/
theorem not_readsBack_parenthesizedChild :
    ∃ predicate, parse .asciiOnly
        ['(', 'a', ' ', '>', ' ', 'b', ')', ' ', '|', '|', ' ', 'c'] = .ok predicate ∧
      ¬ReadsBack .asciiOnly predicate := by
  have hparse : parse .asciiOnly ['(', 'a', ' ', '>', ' ', 'b', ')', ' ', '|', '|', ' ', 'c'] =
      .ok (.or (.descendant (.identifier (.ofList ['a'])) (.identifier (.ofList ['b'])))
        (.identifier (.ofList ['c']))) := rfl
  refine ⟨_, hparse, ?_⟩
  rintro ⟨readBack, hreadBack, hsame⟩
  rw [parse_display (named_of_parse hparse)] at hreadBack
  obtain rfl := Except.ok.inj hreadBack
  exact absurd (hsame [[⟨.ofList ['c'], none⟩]]) (by decide)

end KeyBindingContextPredicate

end GpuiFast
