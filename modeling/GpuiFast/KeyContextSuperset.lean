import GpuiFast.KeyContextHolds

namespace GpuiFast

open List

namespace KeyBindingContextPredicate

/-- `isSuperset` of a predicate that is no disjunction: whether it is the other one, covers what
stands below a parent in it, or covers one of its conjuncts. -/
def includedIn (self other : KeyBindingContextPredicate) : Bool :=
  decide (self = other) ||
    match other with
    | .descendant _ child => self.includedIn child
    | .and left right => self.includedIn left || self.includedIn right
    | _ => false

def isSuperset (self other : KeyBindingContextPredicate) : Bool :=
  decide (self = other) ||
    match self with
    | .or left right => left.isSuperset other || right.isSuperset other
    | self => self.includedIn other

lemma decide_or_includedIn (self other : KeyBindingContextPredicate) :
    (decide (self = other) || self.includedIn other) = self.includedIn other := by
  rw [Bool.or_eq_right_iff_imp, decide_eq_true_eq]
  rintro rfl
  cases self <;> simp [includedIn]

lemma isSuperset_eq (self other : KeyBindingContextPredicate) :
    self.isSuperset other =
      if self = other then true
      else match self, other with
        | .or left right, _ => left.isSuperset other || right.isSuperset other
        | _, .descendant _ child => self.isSuperset child
        | _, .and left right => self.isSuperset left || self.isSuperset right
        | _, _ => false := by
  cases self <;> cases other <;> simp [isSuperset, includedIn, decide_or_includedIn]

variable {stack : List KeyContext} {self other : KeyBindingContextPredicate}

lemma eval_or {left right : KeyBindingContextPredicate} :
    (or left right).eval stack = true ↔ left.eval stack = true ∨ right.eval stack = true := by
  rw [eval, evalInner_or, Bool.or_eq_true]
  rfl

lemma exists_inner_of_includedIn (h : self.includedIn other = true)
    (heval : other.eval stack = true) :
    ∃ outer inner, stack = outer ++ inner ∧ self.eval inner = true := by
  induction other generalizing stack with
  | identifier | equal | notEqual | not | or =>
    simp only [includedIn, Bool.or_false, decide_eq_true_eq] at h
    exact ⟨[], stack, rfl, h ▸ heval⟩
  | descendant parent child _ ihc =>
    rw [includedIn, Bool.or_eq_true, decide_eq_true_eq] at h
    rcases h with rfl | h
    · exact ⟨[], stack, rfl, heval⟩
    · rw [eval, evalInner_descendant] at heval
      obtain ⟨i, -, -, -, hchild⟩ := heval
      obtain ⟨outer, inner, hsplit, hself⟩ := ihc h hchild
      refine ⟨stack.take (i + 1) ++ outer, inner, ?_, hself⟩
      rw [append_assoc, ← hsplit, take_append_drop]
  | and left right ihl ihr =>
    rw [includedIn, Bool.or_eq_true, decide_eq_true_eq] at h
    rcases h with rfl | h
    · exact ⟨[], stack, rfl, heval⟩
    · rw [eval, evalInner_and, Bool.and_eq_true] at heval
      rw [Bool.or_eq_true] at h
      exact h.elim (fun h => ihl h heval.1) (fun h => ihr h heval.2)

lemma exists_inner_of_isSuperset (h : self.isSuperset other = true)
    (heval : other.eval stack = true) :
    ∃ outer inner, stack = outer ++ inner ∧ self.eval inner = true := by
  induction self with
  | or left right ihl ihr =>
    rw [isSuperset, Bool.or_eq_true, decide_eq_true_eq, Bool.or_eq_true] at h
    rcases h with rfl | h | h
    · exact ⟨[], stack, rfl, heval⟩
    · obtain ⟨outer, inner, hsplit, hleft⟩ := ihl h
      exact ⟨outer, inner, hsplit, eval_or.mpr (.inl hleft)⟩
    · obtain ⟨outer, inner, hsplit, hright⟩ := ihr h
      exact ⟨outer, inner, hsplit, eval_or.mpr (.inr hright)⟩
  | identifier | equal | notEqual | descendant | not | and =>
    simp only [isSuperset, decide_or_includedIn] at h
    exact exists_inner_of_includedIn h heval

def SurvivesOuter (predicate : KeyBindingContextPredicate) (stack : List KeyContext) : Prop :=
  ∀ outer inner, stack = outer ++ inner → predicate.eval inner = true → predicate.eval stack = true

variable {predicate : KeyBindingContextPredicate} (outer : List KeyContext)
  {inner : List KeyContext}

lemma NegationFree.survivesOuter (hfree : predicate.NegationFree) (stack : List KeyContext) :
    predicate.SurvivesOuter stack := by
  rintro outer inner rfl h
  exact (eval_somewhereBelow predicate hfree).2.1 outer inner h

lemma Holds.of_isSuperset (hself : self.NegationFree) (hother : other.NegationFree)
    (h : self.isSuperset other = true) (hholds : other.Holds stack) : self.Holds stack := by
  obtain ⟨outer, inner, rfl, heval⟩ :=
    exists_inner_of_isSuperset h ((eval_iff_holds hother stack).mpr hholds)
  exact ((eval_iff_holds hself inner).mp heval).below hself outer

def anyContext : KeyBindingContextPredicate := .or (.equal "" "") (.notEqual "" "")

lemma evalInner_anyContext {contexts : List KeyContext} (h : contexts ≠ [])
    (all : List KeyContext) : anyContext.evalInner contexts all = true := by
  have hfree : anyContext.NegationFree := by decide
  rw [evalInner_iff_holds hfree]
  have hlast := getLast?_eq_some_getLast h
  by_cases hget : (contexts.getLast h).get "" = some ""
  · exact .inl ⟨_, hlast, hget⟩
  · exact .inr ⟨_, hlast, hget⟩

def deeper : ℕ → KeyBindingContextPredicate → KeyBindingContextPredicate
  | 0, predicate => predicate
  | n + 1, predicate => .descendant anyContext (deeper n predicate)

lemma includedIn_deeper (predicate : KeyBindingContextPredicate) (n : ℕ) :
    predicate.includedIn (deeper n predicate) = true := by
  induction n with
  | zero => rw [deeper, ← decide_or_includedIn, decide_eq_true rfl, Bool.true_or]
  | succ n ih => rw [deeper, includedIn, ih, Bool.or_true]

lemma eval_deeper (h : predicate.eval inner = true) :
    (deeper outer.length predicate).eval (outer ++ inner) = true := by
  induction outer with
  | nil => exact h
  | cons context outer ih =>
    have hlt : 0 < (context :: outer ++ inner).length - 1 := by
      have := length_pos_iff.mpr (ne_nil_of_evalInner h)
      rw [length_append, length_cons]
      omega
    rw [length_cons, deeper, eval, evalInner_descendant]
    exact ⟨0, hlt, evalInner_anyContext (by simp) _, fun j hj => absurd hj (Nat.not_lt_zero j), ih⟩

lemma exists_isSuperset_of_inner (h : self.eval inner = true) :
    ∃ other, self.isSuperset other = true ∧ other.eval (outer ++ inner) = true := by
  induction self with
  | or left right ihl ihr =>
    rcases eval_or.mp h with h | h
    · obtain ⟨other, hsuperset, heval⟩ := ihl h
      exact ⟨other, by simp [isSuperset, hsuperset], heval⟩
    · obtain ⟨other, hsuperset, heval⟩ := ihr h
      exact ⟨other, by simp [isSuperset, hsuperset], heval⟩
  | identifier | equal | notEqual | descendant | not | and =>
    refine ⟨deeper outer.length _, ?_, eval_deeper outer h⟩
    simp only [isSuperset, includedIn_deeper, Bool.or_true]

/-- On a stack, a predicate matches wherever one it covers does exactly if none of its matches on an
inner part of the stack is turned off further out. Without negation none ever is. -/
theorem isSuperset_sound_iff (self : KeyBindingContextPredicate) :
    (∀ stack, (∀ other, self.isSuperset other = true → other.eval stack = true →
        self.eval stack = true) ↔ self.SurvivesOuter stack) ∧
      (self.NegationFree → ∀ stack, self.SurvivesOuter stack) := by
  refine ⟨fun stack => ⟨fun hsound => ?_, fun hsurvives other h heval => ?_⟩,
    NegationFree.survivesOuter⟩
  · rintro outer inner rfl h
    obtain ⟨other, hsuperset, heval⟩ := exists_isSuperset_of_inner outer h
    exact hsound other hsuperset heval
  · obtain ⟨outer, inner, hsplit, hself⟩ := exists_inner_of_isSuperset h heval
    exact hsurvives outer inner hsplit hself

theorem isSuperset_sound_editor :
    (identifier "Editor").SurvivesOuter [[⟨"Workspace", none⟩], [⟨"Editor", none⟩]] :=
  (isSuperset_sound_iff (identifier "Editor")).2 (by decide) _

/-- `!X` covers `P > !X`, which matches below an `X` that `!X` does not. -/
theorem not_isSuperset_sound_negated :
    let self := not (identifier "X")
    let other := descendant (identifier "P") (not (identifier "X"))
    let stack : List KeyContext := [[⟨"P", none⟩, ⟨"X", none⟩], [⟨"E", none⟩]]
    self.isSuperset other = true ∧ other.eval stack = true ∧ self.eval stack = false := by
  decide

end KeyBindingContextPredicate

end GpuiFast
