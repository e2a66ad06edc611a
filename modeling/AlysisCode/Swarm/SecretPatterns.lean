/-
What the redaction of swarm texts takes for a secret.

Two patterns, both of which ignore the case: an assignment of a value to a key that names a
secret, and a token that begins as the tokens of some services do.  Neither needs to go back:
what a part of one may take, the part behind it does not begin with.
-/
import AlysisCode.Ide.Common
import AlysisCode.Library.Substitute
import AlysisCode.Library.Unicode

namespace AlysisCode.Swarm

open Substitute Text

/-! ### Parts of patterns -/

/-- The text begins with a character of each class in turn. -/
def starts : List (Char → Bool) → List Char → Bool
  | [], _ => true
  | _ :: _, [] => false
  | p :: ps, c :: rest => p c && starts ps rest

/-- A word in lower case, whatever the case of the text. -/
def word (s : String) : List (Char → Bool) := s.toList.map caseless

/-- One of the characters, whatever its case. -/
def anyOf (s : String) (c : Char) : Bool := s.toList.any (caseless · c)

/-- The length of a run of characters of a class. -/
def run (p : Char → Bool) (t : List Char) : Nat := (t.takeWhile p).length

/-- `[A-Za-z0-9]`, with the four letters of other alphabets that ignoring the case adds. -/
def isLetterOrDigit (c : Char) : Bool :=
  c.isAlphanum || [0x130, 0x131, 0x17F, 0x212A].contains c.toNat

def firstOf (lengths : List Nat) : Nat := (lengths.find? (0 < ·)).getD 0

/-! ### `_SECRET_TOKEN_RE` -/

/-- A run of enough characters behind what stands in front of it. -/
def takeRun (front : Nat) (p : Char → Bool) (least : Nat) (t : List Char) : Nat :=
  let n := run p (t.drop front)
  if least ≤ n then front + n else 0

/-- The tokens of one kind: what stands in front, and what the run behind it is. -/
structure TokenForm where
  lead : List Char → Nat
  inRun : Char → Bool
  least : Nat

def TokenForm.take (form : TokenForm) (t : List Char) : Nat :=
  match form.lead t with
  | 0 => 0
  | n + 1 => takeRun (n + 1) form.inRun form.least t

/-- A character of each class in turn. -/
def literal (ps : List (Char → Bool)) (t : List Char) : Nat :=
  if starts ps t then ps.length else 0

/-- `sk-[A-Za-z0-9_-]{8,}` -/
def apiKey : TokenForm where
  lead := literal (word "sk-")
  inRun := fun c => isLetterOrDigit c || c == '_' || c == '-'
  least := 8

/-- `gh[opusr]_[A-Za-z0-9]{12,}` -/
def githubToken : TokenForm where
  lead := literal (word "gh" ++ [anyOf "opusr", (· == '_')])
  inRun := isLetterOrDigit
  least := 12

/-- `xox[baprs]-[A-Za-z0-9-]{8,}` -/
def slackToken : TokenForm where
  lead := literal (word "xox" ++ [anyOf "baprs", (· == '-')])
  inRun := fun c => isLetterOrDigit c || c == '-'
  least := 8

/-- `[A-Za-z0-9._~+/=-]` -/
def isCredential (c : Char) : Bool := isLetterOrDigit c || "._~+/=-".toList.contains c

/-- `Bearer\s+` -/
def bearerLead (t : List Char) : Nat :=
  match literal (word "bearer") t with
  | 0 => 0
  | n + 1 => if run isSpace (t.drop (n + 1)) = 0 then 0 else n + 1 + run isSpace (t.drop (n + 1))

/-- `Bearer\s+[A-Za-z0-9._~+/=-]{8,}` -/
def bearerToken : TokenForm where
  lead := bearerLead
  inRun := isCredential
  least := 8

def tokenForms : List TokenForm := [apiKey, githubToken, slackToken, bearerToken]

/-- `_SECRET_TOKEN_RE` -/
def takeToken (t : List Char) : Nat := firstOf (tokenForms.map (·.take t))

/-! ### `_SECRET_ASSIGNMENT_RE` -/

/-- `\b` -/
def isBoundary (previous : Option Char) (t : List Char) : Bool :=
  previous.any isWordChar != t.head?.any isWordChar

/-- A key: a word, or two with `_` or `-` between them or nothing. -/
structure KeyForm where
  first : String
  second : Option String

/-- `[_-]?` -/
def takeJoint (t : List Char) : Nat := if t.head?.any fun c => c == '_' || c == '-' then 1 else 0

/-- The second word of a key. -/
def takeSecond (second : String) (t : List Char) : Nat :=
  if starts (word second) (t.drop (takeJoint t)) then takeJoint t + second.length else 0

def KeyForm.take (form : KeyForm) (t : List Char) : Nat :=
  if starts (word form.first) t then
    match form.second with
    | none => form.first.length
    | some second =>
      match takeSecond second (t.drop form.first.length) with
      | 0 => 0
      | n + 1 => form.first.length + (n + 1)
  else 0

/-- `api[_-]?key|access[_-]?token|auth[_-]?token|password|passwd|secret|credential` -/
def keyForms : List KeyForm :=
  [⟨"api", some "key"⟩, ⟨"access", some "token"⟩, ⟨"auth", some "token"⟩, ⟨"password", none⟩,
    ⟨"passwd", none⟩, ⟨"secret", none⟩, ⟨"credential", none⟩]

def takeKey (t : List Char) : Nat := firstOf (keyForms.map (·.take t))

/-- `[^\s,;]` -/
def isSolid (c : Char) : Bool := !(isSpace c || c == ',' || c == ';')

/-- The value of an assignment: a quotation, if it is closed, or up to the next gap. -/
def takeValue (t : List Char) : Nat :=
  match t with
  | [] => 0
  | c :: rest =>
    if (c == '"' || c == '\'') && rest.contains c then run (· != c) rest + 2 else run isSolid t

/-- Where the sign of an assignment has to stand. -/
def signAt (t : List Char) : Nat := takeKey t + run isSpace (t.drop (takeKey t))

/-- Where the value of an assignment has to begin. -/
def valueAt (t : List Char) : Nat := signAt t + 1 + run isSpace (t.drop (signAt t + 1))

/-- The text has a key, a sign and a value. -/
def isAssignment (t : List Char) : Bool :=
  0 < takeKey t && (t[signAt t]?.any fun c => c == ':' || c == '=') &&
    0 < takeValue (t.drop (valueAt t))

/-- `_SECRET_ASSIGNMENT_RE` -/
def takeAssignment (previous : Option Char) (t : List Char) : Nat :=
  if isBoundary previous t && isAssignment t then
    valueAt t + takeValue (t.drop (valueAt t))
  else 0

example : takeToken "Bearer \u2003abc.def~x ".toList = 17 := by decide +kernel

example : takeAssignment none "API_Key = 'x y', z".toList = 15 := by decide +kernel

end AlysisCode.Swarm
