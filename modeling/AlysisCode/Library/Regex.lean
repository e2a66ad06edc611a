/-
Whether a regular expression occurs in a text.

Only the occurrence counts, not what was captured or how long the match is, so an expression
is read as the texts it can take off the front, one continuation after another.
-/
import AlysisCode.Library.Unicode

/-- An expression, read against the character in front and the text that follows. -/
inductive Regex where
  | empty
  /-- One character of the class. -/
  | one (p : Char → Bool)
  /-- One or more characters of the class. -/
  | many (p : Char → Bool)
  /-- `\b` -/
  | boundary
  | seq (a b : Regex)
  | alt (a b : Regex)

namespace Regex

/-- What is asked of the rest of a text: of the character in front of it, and of it. -/
abbrev Rest := Option Char → List Char → Bool

/-- The rest behind some more characters of the class. -/
def more (p : Char → Bool) (k : Rest) : Rest
  | previous, [] => k previous []
  | previous, c :: rest => k previous (c :: rest) || (p c && more p k (some c) rest)

/-- The expression takes something off the front, and the rest is as asked. -/
def accepts : Regex → Rest → Rest
  | .empty, k => k
  | .one p, k => fun _ t =>
    match t with
    | c :: rest => p c && k (some c) rest
    | [] => false
  | .many p, k => fun _ t =>
    match t with
    | c :: rest => p c && more p k (some c) rest
    | [] => false
  | .boundary, k => fun previous t =>
    (previous.any Text.isWordChar != t.head?.any Text.isWordChar) && k previous t
  | .seq a b, k => accepts a (accepts b k)
  | .alt a b, k => fun previous t => accepts a k previous t || accepts b k previous t

def searchFrom (r : Regex) : Rest
  | previous, [] => r.accepts (fun _ _ => true) previous []
  | previous, c :: rest =>
    r.accepts (fun _ _ => true) previous (c :: rest) || searchFrom r (some c) rest

/-- `re.search(r, t) is not None`. -/
def search (r : Regex) (t : List Char) : Bool := searchFrom r none t

/-! ### Building expressions -/

/-- A text in lower case, under `re.IGNORECASE`. -/
def text (s : String) : Regex := s.toList.foldr (fun c r => .seq (.one (Text.caseless c)) r) .empty

/-- `(?:a|b|…)` -/
def oneOf (rs : List Regex) : Regex :=
  match rs with
  | [] => .one fun _ => false
  | r :: rest => rest.foldl .alt r

def sequence (rs : List Regex) : Regex := rs.foldr .seq .empty

/-- `(?:r)?` -/
def optional (r : Regex) : Regex := .alt r .empty

end Regex
