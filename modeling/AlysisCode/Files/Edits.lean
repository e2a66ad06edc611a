/-
The edits of `fs_edit`.

An edit is a dict.  It replaces or extends every occurrence of a target, a range of lines, a point
between two lines, or an end of the text; the next one is applied to what the last has made of it.
Its lines are those of `str.splitlines`.
-/
import AlysisCode.Ide.Python
import AlysisCode.Library.EndedLines

namespace AlysisCode.Files

open Text

variable {F : Type}

/-! ### Texts -/

/-- The text between the occurrences of the target, which do not overlap.  `skip` characters belong
to an occurrence. -/
def segmentsFrom (target : List Char) (skip : Nat) (segment : List Char) :
    List Char → List (List Char)
  | [] => [segment]
  | c :: rest =>
    if 0 < skip then segmentsFrom target (skip - 1) segment rest
    else if target.isPrefixOf (c :: rest) then
      segment :: segmentsFrom target (target.length - 1) [] rest
    else segmentsFrom target 0 (segment ++ [c]) rest

/-- `content.split(target)` -/
def segments (target content : List Char) : List (List Char) := segmentsFrom target 0 [] content

/-- `content.count(target)` -/
def countText (target content : List Char) : Nat := (segments target content).length - 1

/-- `content.replace(target, replacement)` -/
def replaceText (target replacement content : List Char) : List Char :=
  List.intercalate replacement (segments target content)

/-! ### Fields of an edit -/

/-- `_FS_EDIT_OPERATIONS` -/
inductive Operation where
  | replaceExact
  | insertBeforeExact
  | insertAfterExact
  | replaceLines
  | insertBeforeLine
  | insertAfterLine
  | append
  | prepend
  deriving DecidableEq

/-- The operation of a name; `replace` is an alias. -/
def Operation.ofName (name : String) : Option Operation :=
  if name = "replace" ∨ name = "replace_exact" then some .replaceExact
  else if name = "insert_before_exact" then some .insertBeforeExact
  else if name = "insert_after_exact" then some .insertAfterExact
  else if name = "replace_lines" then some .replaceLines
  else if name = "insert_before_line" then some .insertBeforeLine
  else if name = "insert_after_line" then some .insertAfterLine
  else if name = "append" then some .append
  else if name = "prepend" then some .prepend
  else none

/-- What an edit raises: the number of the edit, its operation and what the message names. -/
inductive EditError where
  | notAnObject (index : Nat)
  | missingOp (index : Nat)
  | unsupportedOp (index : Nat) (op : String)
  | requiresString (index : Nat) (op : Operation) (key : String)
  | requiresInteger (index : Nat) (op : Operation) (key : String)
  | belowOne (index : Nat) (op : Operation) (key : String)
  | matchCountInvalid (index : Nat) (op : Operation)
  | emptyTarget (index : Nat) (op : Operation)
  | matched (index : Nat) (op : Operation) (count : Nat) (expected : Option Int)
  | reversedRange (index : Nat) (op : Operation) (endLine startLine : Nat)
  | beyondEnd (index : Nat) (op : Operation) (key : String) (line totalLines : Nat)
  | expectedOldInvalid (index : Nat) (op : Operation)
  | expectedOldDiffers (index : Nat) (op : Operation) (selected expected : List Char)
  deriving DecidableEq

def requireEditString (edit : List (String × Json F)) (key : String) (index : Nat)
    (op : Operation) : Except EditError (List Char) :=
  match Json.get edit key with
  | .str value => .ok value.toList
  | _ => .error (.requiresString index op key)

def requireEditLineNumber (edit : List (String × Json F)) (key : String) (index : Nat)
    (op : Operation) : Except EditError Nat :=
  match Json.get edit key with
  | .int value => if value < 1 then .error (.belowOne index op key) else .ok value.toNat
  | _ => .error (.requiresInteger index op key)

/-- `_optional_expected_match_count`; `True` and `False` are integers to Python. -/
def optionalExpectedMatchCount (edit : List (String × Json F)) (index : Nat) (op : Operation) :
    Except EditError (Option Int) :=
  match Json.get edit "expected_match_count" with
  | .null => .ok none
  | .int value => if value < 0 then .error (.matchCountInvalid index op) else .ok (some value)
  | .bool value => .ok (some (if value then 1 else 0))
  | _ => .error (.matchCountInvalid index op)

def countMatches (content target : List Char) (index : Nat) (op : Operation) :
    Except EditError Nat :=
  if target = [] then .error (.emptyTarget index op) else .ok (countText target content)

def validateMatchCount (count : Nat) (expectedCount : Option Int) (index : Nat) (op : Operation) :
    Except EditError Unit :=
  match expectedCount with
  | none => if count = 1 then .ok () else .error (.matched index op count none)
  | some expected => if count = expected then .ok () else .error (.matched index op count expected)

/-! ### Line edits -/

def contentLines (content : List Char) : List (List Char) := splitlinesKeepends content

def validateLineRange (lines : List (List Char)) (startLine endLine : Nat) (index : Nat)
    (op : Operation) : Except EditError Unit :=
  if endLine < startLine then .error (.reversedRange index op endLine startLine)
  else if lines.length < startLine then
    .error (.beyondEnd index op "start_line" startLine lines.length)
  else if lines.length < endLine then .error (.beyondEnd index op "end_line" endLine lines.length)
  else .ok ()

def lineSelection (lines : List (List Char)) (startLine endLine : Nat) : List Char :=
  ((lines.take endLine).drop (startLine - 1)).flatten

def canonicalLineText (t : List Char) : List Char :=
  replaceText ['\r'] ['\n'] (replaceText ['\r', '\n'] ['\n'] t)

def validateExpectedOld (selected : List Char) (edit : List (String × Json F)) (index : Nat)
    (op : Operation) : Except EditError Unit :=
  match Json.get edit "expected_old" with
  | .null => .ok ()
  | .str expectedOld =>
    if selected ≠ expectedOld.toList ∧
        canonicalLineText selected ≠ canonicalLineText expectedOld.toList then
      .error (.expectedOldDiffers index op (selected.take 500) (expectedOld.toList.take 500))
    else .ok ()
  | _ => .error (.expectedOldInvalid index op)

def applyLineEdit (content : List Char) (edit : List (String × Json F)) (index : Nat)
    (op : Operation) : Except EditError (List Char) := do
  let lines := contentLines content
  if op = .replaceLines then
    let startLine ← requireEditLineNumber edit "start_line" index op
    let endLine ← requireEditLineNumber edit "end_line" index op
    validateLineRange lines startLine endLine index op
    validateExpectedOld (lineSelection lines startLine endLine) edit index op
    let replacement ← requireEditString edit "replacement" index op
    .ok ((lines.take (startLine - 1)).flatten ++ replacement ++ (lines.drop endLine).flatten)
  else
    let line ← requireEditLineNumber edit "line" index op
    if lines.length < line then .error (.beyondEnd index op "line" line lines.length)
    else
      let insertContent ← requireEditString edit "content" index op
      if op = .insertBeforeLine then
        .ok ((lines.take (line - 1)).flatten ++ insertContent ++ (lines.drop (line - 1)).flatten)
      else .ok ((lines.take line).flatten ++ insertContent ++ (lines.drop line).flatten)

/-! ### Edits -/

def applyTargetEdit (content : List Char) (edit : List (String × Json F)) (index : Nat)
    (op : Operation) : Except EditError (List Char) := do
  let target ← requireEditString edit "target" index op
  let text ← requireEditString edit (if op = .replaceExact then "replacement" else "content") index op
  let expectedCount ← optionalExpectedMatchCount edit index op
  let count ← countMatches content target index op
  validateMatchCount count expectedCount index op
  if count = 0 then .ok content
  else if op = .replaceExact then .ok (replaceText target text content)
  else if op = .insertBeforeExact then .ok (replaceText target (text ++ target) content)
  else .ok (replaceText target (target ++ text) content)

def applySingleFsEdit (content : List Char) (edit : List (String × Json F)) (index : Nat) :
    Except EditError (List Char) :=
  match Json.get edit "op" with
  | .str rawOp =>
    match Operation.ofName (strip rawOp) with
    | none => .error (.unsupportedOp index (strip rawOp))
    | some .append => (requireEditString edit "content" index .append).map (content ++ ·)
    | some .prepend => (requireEditString edit "content" index .prepend).map (· ++ content)
    | some .replaceLines => applyLineEdit content edit index .replaceLines
    | some .insertBeforeLine => applyLineEdit content edit index .insertBeforeLine
    | some .insertAfterLine => applyLineEdit content edit index .insertAfterLine
    | some op => applyTargetEdit content edit index op
  | _ => .error (.missingOp index)

/-- The loop of `prepare_fs_edit`; an edit that is no dict is `none`. -/
def applyEdits (content : List Char) (index : Nat) :
    List (Option (List (String × Json F))) → Except EditError (List Char)
  | [] => .ok content
  | none :: _ => .error (.notAnObject index)
  | some edit :: rest =>
    match applySingleFsEdit content edit index with
    | .error e => .error e
    | .ok content => applyEdits content (index + 1) rest

end AlysisCode.Files
