import Mathlib

/-! A text as its characters, and the offsets of their UTF-8 encodings. -/

namespace GpuiFast

/-- The characters of Unicode's White_Space. -/
def isWhitespace (c : Char) : Bool :=
  (9 ≤ c.val && c.val ≤ 13) || c.val == 32 || c.val == 0x85 || c.val == 0xA0 || c.val == 0x1680 ||
    (0x2000 ≤ c.val && c.val ≤ 0x200A) || c.val == 0x2028 || c.val == 0x2029 || c.val == 0x202F ||
    c.val == 0x205F || c.val == 0x3000

/-- The number of bytes of some characters. -/
def utf8Len (chars : List Char) : ℕ := (chars.map Char.utf8Size).sum

@[simp]
lemma utf8Len_nil : utf8Len [] = 0 := rfl

variable (a : List Char) (c : Char) (b : List Char)

@[simp]
lemma utf8Len_cons (chars : List Char) : utf8Len (c :: chars) = c.utf8Size + utf8Len chars := by
  simp [utf8Len]

@[simp]
lemma utf8Len_append : utf8Len (a ++ b) = utf8Len a + utf8Len b := by
  simp [utf8Len]

lemma utf8Len_pos {text : List Char} (hne : text ≠ []) : 0 < utf8Len text := by
  obtain ⟨c, rest, rfl⟩ := List.exists_cons_of_ne_nil hne
  have hc := c.utf8Size_pos
  rw [utf8Len_cons]
  omega

/-- Characters with their offsets, the first at the given one. -/
def charIndicesFrom : ℕ → List Char → List (ℕ × Char)
  | _, [] => []
  | ix, c :: chars => (ix, c) :: charIndicesFrom (ix + c.utf8Size) chars

def charIndices (chars : List Char) : List (ℕ × Char) := charIndicesFrom 0 chars

lemma charIndicesFrom_append (ix : ℕ) (a b : List Char) :
    charIndicesFrom ix (a ++ b) = charIndicesFrom ix a ++ charIndicesFrom (ix + utf8Len a) b := by
  induction a generalizing ix with
  | nil => simp [charIndicesFrom]
  | cons c a ih => simp [charIndicesFrom, ih, Nat.add_assoc]

lemma charIndices_concat : charIndices (a ++ [c]) = charIndices a ++ [(utf8Len a, c)] := by
  simp [charIndices, charIndicesFrom_append, charIndicesFrom]

/-- The characters before an offset. -/
def takeBytes : ℕ → List Char → List Char
  | _, [] => []
  | n, c :: chars => if c.utf8Size ≤ n then c :: takeBytes (n - c.utf8Size) chars else []

/-- The characters from an offset on. -/
def dropBytes : ℕ → List Char → List Char
  | _, [] => []
  | n, c :: chars => if c.utf8Size ≤ n then dropBytes (n - c.utf8Size) chars else c :: chars

/-- The first offset of a character from the given one on. -/
def ceilCharBoundary : ℕ → List Char → ℕ
  | _, [] => 0
  | n, c :: chars => if n = 0 then 0 else c.utf8Size + ceilCharBoundary (n - c.utf8Size) chars

@[simp]
lemma takeBytes_append : takeBytes (utf8Len a) (a ++ b) = a := by
  induction a with
  | nil =>
    cases b with
    | nil => rfl
    | cons c b =>
      have hc := c.utf8Size_pos
      rw [List.nil_append, utf8Len_nil, takeBytes, if_neg (by omega)]
  | cons c a ih => simp [takeBytes, ih]

@[simp]
lemma dropBytes_append : dropBytes (utf8Len a) (a ++ b) = b := by
  induction a with
  | nil =>
    cases b with
    | nil => rfl
    | cons c b =>
      have hc := c.utf8Size_pos
      rw [List.nil_append, utf8Len_nil, dropBytes, if_neg (by omega)]
  | cons c a ih => simp [dropBytes, ih]

lemma ceilCharBoundary_succ :
    ceilCharBoundary (utf8Len a + 1) (a ++ c :: b) = utf8Len (a ++ [c]) := by
  induction a with
  | nil =>
    have hc := c.utf8Size_pos
    have hzero : ceilCharBoundary (1 - c.utf8Size) b = 0 := by
      rw [Nat.sub_eq_zero_of_le hc]
      cases b <;> simp [ceilCharBoundary]
    simp [ceilCharBoundary, hzero]
  | cons d a ih =>
    have hsub : utf8Len (d :: a) + 1 - d.utf8Size = utf8Len a + 1 := by
      rw [utf8Len_cons]
      omega
    rw [List.cons_append, ceilCharBoundary, if_neg (by omega), hsub, ih]
    simp

end GpuiFast
