import GpuiFast.Utf8Chars

/-! How `ShellKind` quotes an argument for a Windows program, alone and behind PowerShell, and how
the Microsoft C runtime parses what the program is given. -/
namespace GpuiFast.ShellKind

open List

def isBlank (c : Char) : Bool := c = ' ' || c = '\t'

/-- What `quote_windows`'s loop writes, `slashes` being the backslashes counted so far. -/
def escape (slashes : ℕ) : List Char → List Char
  | [] => replicate (slashes * 2) '\\'
  | c :: rest =>
    if c = '\\' then escape (slashes + 1) rest
    else if c = '"' then replicate (slashes * 2 + 1) '\\' ++ '"' :: escape 0 rest
    else replicate slashes '\\' ++ c :: escape 0 rest

def needsQuoting (arg : List Char) : Bool := arg.any fun c => isBlank c || c = '"'

def quoteWindows (arg : List Char) (enclose : Bool) : List Char :=
  if arg = [] then ['"', '"']
  else if !needsQuoting arg then arg
  else if enclose then '"' :: (escape 0 arg ++ ['"'])
  else escape 0 arg

def needsQuotingPowershell (s : List Char) : Bool :=
  s = [] || s.any fun c => isWhitespace c || c ∈ ['"', '`', '$', '&', '|', '<', '>', ';', '(', ')',
    '[', ']', '{', '}', ',', '\'', '@']

/-- `need_quotes_powershell`'s loop, `quoteCount` being the quotes counted so far. -/
def needQuotesFrom (quoteCount : ℕ) : List Char → Bool
  | [] => false
  | c :: rest =>
    if c = '"' then needQuotesFrom (quoteCount + 1) rest
    else if isWhitespace c && quoteCount % 2 = 0 then true
    else needQuotesFrom quoteCount rest

def needQuotesPowershell (arg : List Char) : Bool := needQuotesFrom 0 arg

def escapePowershellQuotes (s : List Char) : List Char :=
  '\'' :: s.flatMap (fun c => if c = '\'' then ['\'', c] else [c]) ++ ['\'']

def quotePowershell (arg : List Char) : List Char :=
  let psWillQuote := needQuotesPowershell arg
  let crtQuoted := quoteWindows arg (!psWillQuote)
  if !needsQuotingPowershell arg then crtQuoted else escapePowershellQuotes crtQuoted

/-- A single-quoted literal's text, after its opening quote. Only U+0027 closes it here, where
PowerShell also takes U+2018 to U+201B for single quotes. -/
def literal : List Char → List Char
  | '\'' :: '\'' :: rest => '\'' :: literal rest
  | '\'' :: _ => []
  | c :: rest => c :: literal rest
  | [] => []

/-- The text that PowerShell reads a word as. -/
def denoted : List Char → List Char
  | '\'' :: rest => literal rest
  | word => word

/-- What PowerShell passes on to a program for an argument's text. -/
def passed (text : List Char) : List Char :=
  if needQuotesPowershell text then '"' :: (text ++ ['"']) else text

/-- The C runtime's parse: `current` is the argument begun, less the backslashes last read. -/
def parseFrom (quoted : Bool) (current : Option (List Char)) (slashes : ℕ) :
    List Char → List (List Char)
  | [] => (current.map (· ++ replicate slashes '\\')).toList
  | c :: rest =>
    let begun := current.getD []
    if c = '\\' then parseFrom quoted (some begun) (slashes + 1) rest
    else if c = '"' then
      if slashes % 2 = 0 then
        parseFrom (!quoted) (some (begun ++ replicate (slashes / 2) '\\')) 0 rest
      else parseFrom quoted (some (begun ++ replicate (slashes / 2) '\\' ++ ['"'])) 0 rest
    else if isBlank c && !quoted then
      (current.map (· ++ replicate slashes '\\')).toList ++ parseFrom false none 0 rest
    else parseFrom quoted (some (begun ++ replicate slashes '\\' ++ [c])) 0 rest

def parse (text : List Char) : List (List Char) := parseFrom false none 0 text

section

variable (current rest tail : List Char) (slashes count : ℕ) {quoted : Bool}

lemma parseFrom_slashes :
    parseFrom quoted (some current) slashes (replicate count '\\' ++ rest) =
      parseFrom quoted (some current) (slashes + count) rest := by
  induction count generalizing slashes with
  | zero => simp
  | succ count ih =>
    rw [replicate_succ, cons_append, parseFrom]
    simp [ih, Nat.add_assoc, Nat.add_comm 1]

lemma parseFrom_plain {c : Char} (hslash : c ≠ '\\') (hquote : c ≠ '"')
    (hplain : quoted = true ∨ isBlank c = false) :
    parseFrom quoted (some current) slashes (c :: rest) =
      parseFrom quoted (some (current ++ replicate slashes '\\' ++ [c])) 0 rest := by
  rw [parseFrom]
  rcases hplain with rfl | hplain <;> simp [*]

lemma parseFrom_escape_cons {c : Char} (hplain : quoted = true ∨ isBlank c = false) :
    parseFrom quoted (some current) 0 (escape slashes (c :: rest) ++ tail) =
      if c = '\\' then parseFrom quoted (some current) 0 (escape (slashes + 1) rest ++ tail)
      else parseFrom quoted (some (current ++ replicate slashes '\\' ++ [c])) 0
        (escape 0 rest ++ tail) := by
  rw [escape]
  split_ifs with hslash hquote
  · rfl
  · rw [append_assoc, parseFrom_slashes, cons_append, parseFrom]
    have hodd : ¬(0 + (slashes * 2 + 1)) % 2 = 0 := by omega
    have hhalf : (0 + (slashes * 2 + 1)) / 2 = slashes := by omega
    rw [if_neg (by decide), if_pos rfl, if_neg hodd, hhalf, hquote, Option.getD_some]
  · rw [append_assoc, parseFrom_slashes, cons_append, parseFrom_plain _ _ _ hslash hquote hplain,
      Nat.zero_add]

/-- What is escaped parses back, in quotes or without a blank, up to the quote behind it. -/
lemma parseFrom_escape {arg : List Char} (hplain : quoted = true ∨ ∀ c ∈ arg, isBlank c = false) :
    parseFrom quoted (some current) 0 (escape slashes arg ++ '"' :: tail) =
      parseFrom (!quoted) (some (current ++ replicate slashes '\\' ++ arg)) 0 tail := by
  induction arg generalizing slashes current with
  | nil =>
    rw [escape, parseFrom_slashes, parseFrom]
    simp
  | cons c arg ih =>
    have hrest := hplain.imp_right fun h => forall_mem_of_forall_mem_cons h
    rw [parseFrom_escape_cons _ _ _ _ (hplain.imp_right fun h => h c mem_cons_self)]
    split_ifs with hslash
    · rw [ih _ _ hrest, hslash, replicate_succ']
      simp
    · rw [ih _ _ hrest]
      simp

/-- A blank outside quotes ends the argument. -/
lemma parseFrom_escape_blank {arg : List Char} (more : List Char) {blank : Char} (hblank : isBlank blank = true)
    (hplain : ∀ c ∈ arg, isBlank c = false) :
    (parseFrom false (some current) 0 (escape slashes (arg ++ blank :: more) ++ tail)).head? =
      some (current ++ replicate slashes '\\' ++ arg) := by
  induction arg generalizing slashes current with
  | nil =>
    have hslash : blank ≠ '\\' := by rintro rfl; cases hblank
    have hquote : blank ≠ '"' := by rintro rfl; cases hblank
    rw [nil_append, escape, if_neg hslash, if_neg hquote, append_assoc, parseFrom_slashes,
      cons_append, parseFrom]
    simp [hslash, hquote, hblank]
  | cons c arg ih =>
    have hrest := forall_mem_of_forall_mem_cons hplain
    rw [cons_append, parseFrom_escape_cons _ _ _ _ (.inr (hplain c mem_cons_self))]
    split_ifs with hslash
    · rw [ih _ _ hrest, hslash, replicate_succ']
      simp
    · rw [ih _ _ hrest]
      simp

lemma parseFrom_bare {arg : List Char} (h : needsQuoting arg = false) :
    parseFrom false (some current) slashes arg = [current ++ replicate slashes '\\' ++ arg] := by
  induction arg generalizing slashes current with
  | nil => simp [parseFrom]
  | cons c arg ih =>
    simp only [needsQuoting, any_cons, Bool.or_eq_false_iff, decide_eq_false_iff_not] at h ih
    by_cases hslash : c = '\\'
    · rw [parseFrom, if_pos hslash, Option.getD_some, ih _ _ h.2, hslash, replicate_succ']
      simp
    · rw [parseFrom_plain _ _ _ hslash h.1.2 (.inr h.1.1), ih _ _ h.2]
      simp

/-- Text enclosed as it is loses its way at the backslashes before the closing quote. -/
lemma parseFrom_enclosed_iff {arg : List Char} (h : needsQuoting arg = false) :
    parseFrom true (some current) slashes (arg ++ ['"']) =
        [current ++ replicate slashes '\\' ++ arg] ↔
      (replicate slashes '\\' ++ arg).getLast? ≠ some '\\' := by
  induction arg generalizing slashes current with
  | nil =>
    rw [nil_append, parseFrom, if_neg (by decide), if_pos rfl]
    rcases Nat.eq_zero_or_pos slashes with rfl | hpos
    · simp [parseFrom]
    · have hlast : (replicate slashes '\\').getLast? = some '\\' := by
        simp [getLast?_replicate, Nat.ne_of_gt hpos]
      simp only [append_nil, hlast, ne_eq, not_true_eq_false, iff_false]
      intro heq
      split_ifs at heq
      · have := congrArg (·.flatten.length) heq
        simp [parseFrom] at this
        omega
      · have := congrArg (·.flatten.getLast?) heq
        simp [parseFrom, hlast] at this
  | cons c arg ih =>
    simp only [needsQuoting, any_cons, Bool.or_eq_false_iff, decide_eq_false_iff_not] at h ih
    by_cases hslash : c = '\\'
    · have := ih current (slashes + 1) h.2
      rw [cons_append, parseFrom, if_pos hslash, Option.getD_some]
      simpa [hslash, replicate_succ'] using this
    · have := ih (current ++ replicate slashes '\\' ++ [c]) 0 h.2
      rw [cons_append, parseFrom_plain _ _ _ hslash h.1.2 (.inl rfl)]
      cases hlast : arg.getLast? <;> simp_all [getLast?_cons]

end

section

variable (count slashes : ℕ) (arg : List Char)

lemma needQuotesFrom_slashes :
    needQuotesFrom count (replicate slashes '\\' ++ arg) = needQuotesFrom count arg := by
  induction slashes with
  | zero => rfl
  | succ slashes ih =>
    rw [replicate_succ, cons_append, needQuotesFrom, ih]
    simp [isWhitespace]

lemma needQuotesFrom_escape :
    needQuotesFrom count (escape slashes arg) = needQuotesFrom count arg := by
  induction arg generalizing count slashes with
  | nil => simpa [escape] using needQuotesFrom_slashes count (slashes * 2) []
  | cons c arg ih =>
    unfold escape
    split_ifs with hslash hquote
    · rw [ih, hslash, needQuotesFrom]
      simp [isWhitespace]
    · rw [needQuotesFrom_slashes, hquote, needQuotesFrom, needQuotesFrom, ih, if_pos rfl, if_pos rfl]
    · rw [needQuotesFrom_slashes, needQuotesFrom, needQuotesFrom, ih, ih]

lemma needQuotesFrom_concat : needQuotesFrom count (arg ++ ['"']) = needQuotesFrom count arg := by
  induction arg generalizing count with
  | nil => rfl
  | cons c arg ih => rw [cons_append, needQuotesFrom, needQuotesFrom, ih, ih]

/-- One quote more turns the blanks that were in quotes out of them. -/
lemma needQuotesFrom_succ {arg : List Char} (h : needQuotesFrom count arg = false) :
    needQuotesFrom (count + 1) arg = arg.any isWhitespace := by
  induction arg generalizing count with
  | nil => rfl
  | cons c arg ih =>
    by_cases hquote : c = '"'
    · subst hquote
      simpa [isWhitespace, needQuotesFrom] using ih (count + 1) h
    · simp only [needQuotesFrom, if_neg hquote, any_cons] at h ⊢
      cases hspace : isWhitespace c
      · simpa [hspace] using ih count (by simpa [hspace] using h)
      · have hodd : count % 2 = 1 := by
          by_contra heven
          simp [hspace, show count % 2 = 0 by omega] at h
        have hnext : (count + 1) % 2 = 0 := by omega
        simp [hnext]

end

lemma isWhitespace_of_isBlank {c : Char} (h : isBlank c = true) : isWhitespace c = true := by
  simp only [isBlank, Bool.or_eq_true, decide_eq_true_eq] at h
  rcases h with rfl | rfl <;> rfl

lemma parse_open (text : List Char) : parse ('"' :: text) = parseFrom true (some []) 0 text := by
  simp [parse, parseFrom]

lemma parse_enclosed (arg : List Char) : parse ('"' :: (escape 0 arg ++ ['"'])) = [arg] := by
  rw [parse_open, parseFrom_escape _ _ _ (.inl rfl)]
  simp [parseFrom]

lemma parse_quoteWindows (arg : List Char) : parse (quoteWindows arg true) = [arg] := by
  unfold quoteWindows
  rw [if_pos rfl]
  split_ifs with hempty hbare
  · subst hempty
    decide
  · cases arg with
    | nil => exact absurd rfl hempty
    | cons c arg =>
      have hbare : needsQuoting (c :: arg) = false := by simpa using hbare
      have hplain : isBlank c = false := by simp_all [needsQuoting]
      have hbegin : parse (c :: arg) = parseFrom false (some []) 0 (c :: arg) := by
        simp [parse, parseFrom, hplain]
      rw [hbegin, parseFrom_bare _ _ hbare]
      rfl
  · exact parse_enclosed arg

lemma denoted_escapePowershellQuotes (s : List Char) : denoted (escapePowershellQuotes s) = s := by
  rw [escapePowershellQuotes, cons_append, denoted]
  induction s with
  | nil => rfl
  | cons c s ih =>
    by_cases hquote : c = '\''
    · simp [hquote, literal, ih]
    · simp [hquote, literal, ih]

lemma denoted_quotePowershell (arg : List Char) :
    denoted (quotePowershell arg) = quoteWindows arg (!needQuotesPowershell arg) := by
  simp only [quotePowershell]
  split_ifs with hplain
  · simp only [needsQuotingPowershell, Bool.not_eq_true', Bool.or_eq_false_iff, any_eq_false,
      decide_eq_false_iff_not] at hplain
    have hbare : needsQuoting arg = false := by
      simp only [needsQuoting, any_eq_false, Bool.or_eq_true, decide_eq_true_eq, not_or]
      refine fun c hc => ⟨fun hblank => ?_, ?_⟩
      · simpa [isWhitespace_of_isBlank hblank] using hplain.2 c hc
      · rintro rfl
        simpa using hplain.2 _ hc
    have htext : quoteWindows arg (!needQuotesPowershell arg) = arg := by
      simp [quoteWindows, hbare, hplain.1]
    rw [htext]
    unfold denoted
    split
    · have := hplain.2 '\'' mem_cons_self
      simp at this
    · rfl
  · exact denoted_escapePowershellQuotes _

lemma parse_twice_iff (arg : List Char) :
    parse ('"' :: ('"' :: (escape 0 arg ++ ['"'])) ++ ['"']) = [arg] ↔
      ∀ c ∈ arg, isBlank c = false := by
  have hopen : parse ('"' :: ('"' :: (escape 0 arg ++ ['"'])) ++ ['"']) =
      parseFrom false (some []) 0 (escape 0 arg ++ ['"', '"']) := by
    rw [cons_append, cons_append, parse_open]
    simp [parseFrom]
  rw [hopen]
  constructor
  · intro heq
    by_contra! hblank
    obtain ⟨blank, hfind⟩ : ∃ blank, arg.find? isBlank = some blank := by
      simpa [← Option.isSome_iff_exists] using hblank
    obtain ⟨hends, before, more, rfl, hplain⟩ := find?_eq_some_iff_append.mp hfind
    have hhead := parseFrom_escape_blank [] ['"', '"'] 0 more hends
      (by simpa using hplain)
    rw [heq] at hhead
    simp at hhead
  · intro hplain
    rw [parseFrom_escape _ _ _ (.inr hplain)]
    simp [parseFrom]

/-- `quote_powershell` gets an argument through unless it judges PowerShell's quotes wrongly. -/
theorem quotes_arrive_iff (arg : List Char) : parse (quoteWindows arg true) = [arg] ∧
    (parse (passed (denoted (quotePowershell arg))) = [arg] ↔
      (needQuotesPowershell arg = true → needsQuoting arg = true ∨ arg.getLast? ≠ some '\\') ∧
      (needQuotesPowershell arg = false → ∀ c ∈ arg, isBlank c = false)) := by
  refine ⟨parse_quoteWindows arg, ?_⟩
  rw [denoted_quotePowershell]
  by_cases hempty : arg = []
  · subst hempty
    exact iff_of_true (by decide) (by simp)
  cases hneed : needQuotesPowershell arg <;> cases hbare : needsQuoting arg
  case true.true =>
    have htext : needQuotesPowershell (escape 0 arg) = true := by
      rw [needQuotesPowershell, needQuotesFrom_escape, ← needQuotesPowershell, hneed]
    simp [quoteWindows, hempty, hbare, passed, htext, parse_enclosed]
  case true.false =>
    have henclosed := parseFrom_enclosed_iff [] 0 hbare
    simpa [quoteWindows, hempty, hbare, passed, hneed, parse_open] using henclosed
  case false.false =>
    have hparse := parse_quoteWindows arg
    simp_all [quoteWindows, passed, needsQuoting]
  case false.true =>
    have htext : needQuotesPowershell ('"' :: (escape 0 arg ++ ['"'])) = arg.any isWhitespace := by
      rw [needQuotesPowershell, needQuotesFrom, if_pos rfl, needQuotesFrom_concat,
        needQuotesFrom_escape, needQuotesFrom_succ _ hneed]
    simp only [quoteWindows, if_neg hempty, hbare, Bool.not_true, Bool.not_false, if_true,
      Bool.false_eq_true, if_false, passed, htext, false_imp_iff, true_and, true_imp_iff]
    split_ifs with hspace
    · exact parse_twice_iff arg
    · have hplain : ∀ c ∈ arg, isBlank c = false := fun c hc =>
        Bool.eq_false_iff.mpr fun hblank =>
          hspace (any_eq_true.mpr ⟨c, hc, isWhitespace_of_isBlank hblank⟩)
      simpa [parse_enclosed] using hplain

/-- A quote leaves the space behind it in quotes of its own, so that none are expected. -/
theorem splits_at_space :
    parse (passed (denoted (quotePowershell ['"', 'a', ' ', 'b']))) ≠ [['"', 'a', ' ', 'b']] := by
  decide

end GpuiFast.ShellKind
