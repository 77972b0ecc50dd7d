import GpuiFast.KeyContext
import GpuiFast.Utf8Chars
import Mathlib

/-! A key context is written as identifiers and `key = value` pairs between blanks. Parsing takes one of
them after the other and never looks at a character that can be in none: it stays in front of the
first one for ever. -/

namespace GpuiFast

open List

structure CharTable where
  isAlphanumeric : Char → Bool
  ascii : ∀ c, c.toNat < 128 → isAlphanumeric c = c.isAlphanum
  not_whitespace : ∀ c, isAlphanumeric c = true → isWhitespace c = false

def CharTable.asciiOnly : CharTable where
  isAlphanumeric := Char.isAlphanum
  ascii := fun _ _ => rfl
  not_whitespace := by
    intro c h
    simp only [Char.isAlphanum, Char.isAlpha, Char.isUpper, Char.isLower, Char.isDigit,
      Bool.or_eq_true, Bool.and_eq_true, decide_eq_true_eq, ge_iff_le] at h
    simp only [isWhitespace, Bool.or_eq_false_iff, Bool.and_eq_false_iff, decide_eq_false_iff_not,
      beq_eq_false_iff_ne, ne_eq]
    simp only [UInt32.le_iff_toNat_le, ← UInt32.toNat_inj] at h ⊢
    simp at h ⊢
    omega

variable (table : CharTable)

def isIdentifierChar (c : Char) : Bool := table.isAlphanumeric c || c == '_' || c == '-'

def skipWhitespace (source : List Char) : List Char := source.dropWhile isWhitespace

namespace KeyContext

def add (context : KeyContext) (key : String) : KeyContext :=
  if context.contains key then context else context ++ [⟨key, none⟩]

def set (context : KeyContext) (key value : String) : KeyContext :=
  if context.contains key then context else context ++ [⟨key, some value⟩]

/-- What a call of `parse_expr` goes on with. -/
def parseEntry (source : List Char) (context : KeyContext) : List Char × KeyContext :=
  let key := source.takeWhile (isIdentifierChar table)
  let rest := skipWhitespace (source.dropWhile (isIdentifierChar table))
  match rest with
  | '=' :: suffix =>
    let rest := skipWhitespace suffix
    let value := rest.takeWhile (isIdentifierChar table)
    (skipWhitespace (rest.dropWhile (isIdentifierChar table)),
      context.set (.ofList key) (.ofList value))
  | _ => (rest, context.add (.ofList key))

/-- The context after at most so many calls, `none` if there are more to come. -/
def parseExpr : ℕ → List Char → KeyContext → Option KeyContext
  | _, [], context => some context
  | 0, _ :: _, _ => none
  | calls + 1, source, context =>
    let (rest, context) := parseEntry table source context
    parseExpr calls rest context

def parse (calls : ℕ) (source : List Char) : Option KeyContext :=
  parseExpr table calls (skipWhitespace source) []

/-- The calls of `parse_expr` when a source is parsed. -/
inductive Calls (source : List Char) : List Char → KeyContext → Prop
  | start : Calls source (skipWhitespace source) []
  | step {rest : List Char} {context : KeyContext} : Calls source rest context → rest ≠ [] →
    Calls source (parseEntry table rest context).1 (parseEntry table rest context).2

structure ParseEnds (source : List Char) : Prop where
  returns : ∃ calls context, parse table calls source = some context
  consumes : ∀ rest context, Calls table source rest context → rest ≠ [] →
    (parseEntry table rest context).1.length < rest.length

def isContextChar (c : Char) : Bool := isIdentifierChar table c || c == '=' || isWhitespace c

section Calls

variable {table} {source rest : List Char} {context : KeyContext} {c : Char}

lemma mem_dropWhile {p : Char → Bool} (h : c ∈ source) (hc : p c = false) :
    c ∈ source.dropWhile p := by
  rw [← takeWhile_append_dropWhile (p := p) (l := source)] at h
  rcases mem_append.mp h with h | h
  · rw [mem_takeWhile_imp h] at hc
    cases hc
  · exact h

lemma skipWhitespace_suffix (source : List Char) : skipWhitespace source <:+ source :=
  dropWhile_suffix isWhitespace

lemma skipWhitespace_head (source : List Char) :
    ∀ c ∈ (skipWhitespace source).head?, isWhitespace c = false := by
  intro c hc
  have h := head?_dropWhile_not isWhitespace source
  rw [show (source.dropWhile isWhitespace).head? = some c from hc] at h
  exact h

lemma parseEntry_eq (source : List Char) (context : KeyContext) :
    ∃ before, (parseEntry table source context).1 = skipWhitespace before ∧
      (before = source.dropWhile (isIdentifierChar table) ∨
        ∃ suffix, skipWhitespace (source.dropWhile (isIdentifierChar table)) = '=' :: suffix ∧
          before = (skipWhitespace suffix).dropWhile (isIdentifierChar table)) := by
  rw [parseEntry]
  split
  next suffix hsuffix => exact ⟨_, rfl, Or.inr ⟨suffix, hsuffix, rfl⟩⟩
  next => exact ⟨_, rfl, Or.inl rfl⟩

lemma mem_parseEntry (hc : isContextChar table c = false) (h : c ∈ source) :
    c ∈ (parseEntry table source context).1 := by
  simp only [isContextChar, Bool.or_eq_false_iff, beq_eq_false_iff_ne] at hc
  obtain ⟨⟨hidentifier, heq⟩, hblank⟩ := hc
  have hkey := mem_dropWhile h hidentifier
  obtain ⟨before, hbefore, rfl | ⟨suffix, hsuffix, rfl⟩⟩ := @parseEntry_eq table source context
  · rw [hbefore]
    exact mem_dropWhile hkey hblank
  · have hrest : c ∈ '=' :: suffix := hsuffix ▸ mem_dropWhile hkey hblank
    have hvalue : c ∈ suffix := (mem_cons.mp hrest).resolve_left heq
    rw [hbefore]
    exact mem_dropWhile (mem_dropWhile (mem_dropWhile hvalue hblank) hidentifier) hblank

lemma parseExpr_eq_none (hc : isContextChar table c = false) (h : c ∈ source) (calls : ℕ) :
    parseExpr table calls source context = none := by
  induction calls generalizing source context with
  | zero =>
    cases source with
    | nil => cases h
    | cons first rest => rfl
  | succ calls ih =>
    cases source with
    | nil => cases h
    | cons first rest => exact ih (mem_parseEntry hc h)

lemma parseEntry_suffix : (parseEntry table source context).1 <:+ source := by
  have hkey := dropWhile_suffix (l := source) (isIdentifierChar table)
  obtain ⟨before, hbefore, rfl | ⟨suffix, hsuffix, rfl⟩⟩ := @parseEntry_eq table source context
  · rw [hbefore]
    exact (skipWhitespace_suffix _).trans hkey
  · have hequals : '=' :: suffix <:+ source :=
      hsuffix ▸ (skipWhitespace_suffix _).trans hkey
    rw [hbefore]
    exact (skipWhitespace_suffix _).trans ((dropWhile_suffix _).trans
      ((skipWhitespace_suffix _).trans ((suffix_cons '=' suffix).trans hequals)))

lemma parseEntry_length_lt (hne : source ≠ []) (hblank : ∀ c ∈ source.head?, isWhitespace c = false)
    (h : ∀ c ∈ source, isContextChar table c = true) :
    (parseEntry table source context).1.length < source.length := by
  obtain ⟨first, rest, rfl⟩ := exists_cons_of_ne_nil hne
  have hfirst : isWhitespace first = false := hblank first rfl
  have hsuffix : (parseEntry table (first :: rest) context).1 <:+ rest := by
    cases hidentifier : isIdentifierChar table first with
    | true =>
      have hkey : (first :: rest).dropWhile (isIdentifierChar table) =
          rest.dropWhile (isIdentifierChar table) := dropWhile_cons_of_pos hidentifier
      obtain ⟨before, hbefore, rfl | ⟨suffix, hsuffix, rfl⟩⟩ :=
        @parseEntry_eq table (first :: rest) context
      · rw [hbefore, hkey]
        exact (skipWhitespace_suffix _).trans (dropWhile_suffix _)
      · rw [hkey] at hsuffix
        have hequals : '=' :: suffix <:+ rest :=
          hsuffix ▸ (skipWhitespace_suffix _).trans (dropWhile_suffix _)
        rw [hbefore]
        exact (skipWhitespace_suffix _).trans ((dropWhile_suffix _).trans
          ((skipWhitespace_suffix _).trans ((suffix_cons '=' suffix).trans hequals)))
    | false =>
      -- the source starts with the `=` of an empty key
      obtain rfl : first = '=' := by
        have hcontext := h first mem_cons_self
        simpa [isContextChar, hidentifier, hfirst] using hcontext
      have hrest : skipWhitespace (('=' :: rest).dropWhile (isIdentifierChar table)) =
          '=' :: rest := by
        rw [dropWhile_cons_of_neg (by simp [hidentifier]), skipWhitespace,
          dropWhile_cons_of_neg (by simp [hfirst])]
      simp only [parseEntry, hrest]
      exact (skipWhitespace_suffix _).trans ((dropWhile_suffix _).trans
        (skipWhitespace_suffix _))
  exact Nat.lt_succ_of_le hsuffix.length_le

lemma parseEntry_head :
    ∀ c ∈ (parseEntry table source context).1.head?, isWhitespace c = false := by
  obtain ⟨before, hbefore, -⟩ := @parseEntry_eq table source context
  rw [hbefore]
  exact skipWhitespace_head before

lemma parseExpr_isSome (hblank : ∀ c ∈ source.head?, isWhitespace c = false)
    (h : ∀ c ∈ source, isContextChar table c = true) {calls : ℕ} (hcalls : source.length ≤ calls) :
    ∃ result, parseExpr table calls source context = some result := by
  induction calls generalizing source context with
  | zero =>
    obtain rfl := length_eq_zero_iff.mp (Nat.le_zero.mp hcalls)
    exact ⟨context, rfl⟩
  | succ calls ih =>
    cases source with
    | nil => exact ⟨context, rfl⟩
    | cons first rest =>
      have hlt := @parseEntry_length_lt table _ context (cons_ne_nil first rest) hblank h
      exact ih parseEntry_head (fun c hc => h c (parseEntry_suffix.subset hc))
        (Nat.le_of_lt_succ (hlt.trans_le hcalls))

lemma Calls.suffix_and_head (h : Calls table source rest context) :
    rest <:+ source ∧ ∀ c ∈ rest.head?, isWhitespace c = false := by
  induction h with
  | start => exact ⟨skipWhitespace_suffix source, skipWhitespace_head source⟩
  | step hcalls hne ih => exact ⟨parseEntry_suffix.trans ih.1, parseEntry_head⟩

end Calls

/-- Parsing ends on exactly the texts of characters that can be in a context. -/
theorem parse_ends_iff (source : List Char) :
    ParseEnds table source ↔ ∀ c ∈ source, isContextChar table c = true := by
  constructor
  · intro hends c hc
    by_contra hcontext
    have hcontext' : isContextChar table c = false := Bool.not_eq_true _ ▸ hcontext
    obtain ⟨calls, context, hparse⟩ := hends.returns
    have hblank : isWhitespace c = false := by
      simp only [isContextChar, Bool.or_eq_false_iff] at hcontext'
      exact hcontext'.2
    have hnone : parse table calls source = none :=
      parseExpr_eq_none hcontext' (mem_dropWhile hc hblank) calls
    rw [hnone] at hparse
    cases hparse
  · intro h
    refine ⟨⟨source.length, ?_⟩, fun rest context hcalls hne => ?_⟩
    · exact parseExpr_isSome (skipWhitespace_head source)
        (fun c hc => h c ((skipWhitespace_suffix source).subset hc))
        (skipWhitespace_suffix source).length_le
    · obtain ⟨hsuffix, hblank⟩ := hcalls.suffix_and_head
      exact parseEntry_length_lt hne hblank (fun c hc => h c (hsuffix.subset hc))

/-- A parenthesis is parsed as an empty identifier in front of itself. -/
theorem not_parse_ends_paren : ¬ParseEnds .asciiOnly ['('] := by
  intro hends
  obtain ⟨calls, context, hparse⟩ := hends.returns
  have hnone : parse .asciiOnly calls ['('] = none :=
    parseExpr_eq_none (c := '(') (by decide) (by decide) calls
  rw [hnone] at hparse
  cases hparse

end KeyContext

end GpuiFast
