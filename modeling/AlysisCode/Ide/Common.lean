/-
What the durable IDE stores have in common: clock readings and identifiers.

A store reads its clock as a float and does two things with it: it compares
readings, and it adds a duration to one (the ledger also subtracts one).  Nothing is
assumed of that arithmetic — a sum may round to its left operand — so `Clock` asks
for the operations and no laws.
-/
import Mathlib.Order.Lattice
import Mathlib.Order.Nat
import Mathlib.Data.Nat.Cast.Defs

namespace AlysisCode

/-- The finite numbers a clock may return, in their order, with float addition and
subtraction and the integers they contain. -/
class Clock (T : Type) extends LinearOrder T, Add T, Sub T, NatCast T

/-- Whole seconds. -/
instance : Clock Nat where

/-! ### Identifiers

`_IDENTIFIER_RE` and `_ERROR_CODE_RE` are the same two patterns in the three stores;
`fullmatch` of each is a test on the first character and one on every later one.
-/

/-- An ASCII letter, a digit, or one of the punctuation marks of the identifier pattern. -/
def isIdentifierChar (c : Char) : Bool :=
  c.isAlphanum || c == '.' || c == '_' || c == ':' || c == '@' || c == '/' || c == '-'

/-- `_IDENTIFIER_RE.fullmatch(value) is not None`. -/
def matchesIdentifier (value : String) : Bool :=
  match value.toList with
  | [] => false
  | c :: rest => c.isAlphanum && rest.all isIdentifierChar

def isErrorCodeChar (c : Char) : Bool :=
  c.isLower || c.isDigit || c == '_' || c == '.' || c == '-'

/-- `_ERROR_CODE_RE.fullmatch(value) is not None`. -/
def matchesErrorCode (value : String) : Bool :=
  match value.toList with
  | [] => false
  | c :: rest => c.isLower && rest.all isErrorCodeChar

/-- `str.isspace` of one character. -/
def isSpace (c : Char) : Bool :=
  let n := c.toNat
  (9 ≤ n && n ≤ 13) || (28 ≤ n && n ≤ 32) || n == 0x85 || n == 0xA0 || n == 0x1680 ||
    (0x2000 ≤ n && n ≤ 0x200A) || n == 0x2028 || n == 0x2029 || n == 0x202F ||
    n == 0x205F || n == 0x3000

def strip (value : String) : String :=
  String.ofList ((value.toList.dropWhile isSpace).reverse.dropWhile isSpace).reverse

/-! ### Identifiers have no spaces to strip -/

theorem isSpace_of_isIdentifierChar {c : Char} (h : isIdentifierChar c = true) :
    isSpace c = false := by
  have hn : 32 < c.toNat ∧ c.toNat < 133 := by
    unfold isIdentifierChar at h
    delta Char.isAlphanum Char.isAlpha Char.isUpper Char.isLower Char.isDigit at h
    simp only [Bool.or_eq_true, Bool.and_eq_true, decide_eq_true_eq, beq_iff_eq, ge_iff_le,
      UInt32.le_iff_toNat_le, Char.reduceToNat, Char.toNat_val] at h
    rcases h with (((((((h | h) | h) | rfl) | rfl) | rfl) | rfl) | rfl) | rfl
    · omega
    · omega
    · omega
    all_goals decide
  simp only [isSpace, Bool.or_eq_false_iff, Bool.and_eq_false_iff, decide_eq_false_iff_not,
    beq_eq_false_iff_ne]
  omega

variable {value : String}

theorem isIdentifierChar_of_matches (h : matchesIdentifier value = true) :
    ∀ c ∈ value.toList, isIdentifierChar c = true := by
  unfold matchesIdentifier at h
  split at h
  · cases h
  · rename_i c rest heq
    rw [Bool.and_eq_true, List.all_eq_true] at h
    intro c' hc'
    rw [heq, List.mem_cons] at hc'
    rcases hc' with rfl | hc'
    · simp [isIdentifierChar, h.1]
    · exact h.2 c' hc'

theorem dropWhile_of_none {α : Type} {p : α → Bool} {l : List α} (h : ∀ a ∈ l, p a = false) :
    l.dropWhile p = l := by
  cases l with
  | nil => rfl
  | cons a rest =>
    have ha : ¬ p a = true := by simp [h a List.mem_cons_self]
    exact List.dropWhile_cons_of_neg ha

theorem strip_of_none (hnone : ∀ c ∈ value.toList, isSpace c = false) : strip value = value := by
  have hrev : ∀ c ∈ value.toList.reverse, isSpace c = false := fun c hc =>
    hnone c (List.mem_reverse.mp hc)
  unfold strip
  rw [dropWhile_of_none hnone, dropWhile_of_none hrev, List.reverse_reverse, String.ofList_toList]

theorem strip_of_matches (h : matchesIdentifier value = true) : strip value = value :=
  strip_of_none fun c hc => isSpace_of_isIdentifierChar (isIdentifierChar_of_matches h c hc)

end AlysisCode
