/-
The frontmatter of a knowledge entry.

`knowledge_base.py` writes a dict as lines `key: value` and `  - item` between two lines
`---`, every value as a JSON string, and reads it back line by line.  What the writer joins
with `\n` the reader cuts with `str.splitlines`, which knows more line ends.
-/
import Mathlib.Data.List.DropRight
import AlysisCode.Ide.Python
import AlysisCode.Library.JsonText

namespace AlysisCode.Knowledge

open Text

variable {F : Type} [Json.Floats F]

/-- A value of the dict that is written: a string or `None`, or a list of strings. -/
inductive Field where
  | scalar (value : Option String)
  | list (items : List String)
  deriving DecidableEq

/-- A `ValueError` with its text, or the `TypeError` of a loop over no iterable. -/
inductive EntryError where
  | value (text : String)
  | type
  deriving DecidableEq

def rstrip (t : List Char) : List Char := t.rdropWhile isSpace

/-- `"\n".join(lines)` -/
def joinLines (lines : List (List Char)) : List Char := ['\n'].intercalate lines

def marker : List Char := ['-', '-', '-']

/-- What begins the line of an item. -/
def bullet : List Char := [' ', ' ', '-', ' ']

/-! ### Writing -/

def frontmatterScalar : Option String → List Char
  | none => ['n', 'u', 'l', 'l']
  | some value => Json.quote false value

def fieldLines : String × Field → List (List Char)
  | (key, .list items) =>
    (key.toList ++ [':']) :: items.map fun item => bullet ++ frontmatterScalar (some item)
  | (key, .scalar value) => [key.toList ++ ':' :: ' ' :: frontmatterScalar value]

def serializeFrontmatter (data : List (String × Field)) : List Char :=
  joinLines (marker :: data.flatMap fieldLines ++ [marker])

/-! ### Reading -/

def parseFrontmatterScalar (raw : List Char) : Json F :=
  let text := stripWhere isSpace raw
  if text.isEmpty then .str ""
  else
    match Json.loads (String.ofList text) with
    | some v => v
    | none => .str (String.ofList text)

/-- The lines in front of the one that closes the frontmatter, and those behind it. -/
def untilMarker : List (List Char) → Option (List (List Char) × List (List Char))
  | [] => none
  | line :: rest =>
    if stripWhere isSpace line = marker then some ([], rest)
    else (untilMarker rest).map fun found => (line :: found.1, found.2)

/-- The dict so far, and `current_list_key`. -/
structure Reading (F : Type) where
  data : List (String × Json F)
  key : Option String

def readLine (python : Python F) (r : Reading F) (line : List Char) :
    Except EntryError (Reading F) :=
  let stripped := rstrip line
  if bullet.isPrefixOf stripped then
    match r.key with
    | none => .error (.value "knowledge entry list item missing key")
    | some key =>
      match (r.data.lookup key).getD (.arr []) with
      | .arr items =>
        let item := python.text (parseFrontmatterScalar (F := F) (stripped.drop 4))
        .ok { r with data := Json.assign r.data key (.arr (items ++ [.str item])) }
      | _ => .error (.value "knowledge entry frontmatter list state is invalid")
  else
    match stripped.dropWhile (· != ':') with
    | [] => .error (.value ("invalid knowledge frontmatter line: " ++ String.ofList stripped))
    | _ :: raw =>
      let key := stripWhere isSpace (stripped.takeWhile (· != ':'))
      if key.isEmpty then
        .error (.value "knowledge entry frontmatter key cannot be empty")
      else if (stripWhere isSpace raw).isEmpty then
        .ok ⟨Json.assign r.data (String.ofList key) (.arr []), some (String.ofList key)⟩
      else
        .ok ⟨Json.assign r.data (String.ofList key) (parseFrontmatterScalar raw), none⟩

/-- `_parse_frontmatter`: the dict, and the body. -/
def parseFrontmatter (python : Python F) (text : List Char) :
    Except EntryError (List (String × Json F) × List Char) :=
  match splitlines text with
  | [] => .error (.value "knowledge entry is missing YAML frontmatter")
  | first :: rest =>
    if stripWhere isSpace first ≠ marker then
      .error (.value "knowledge entry is missing YAML frontmatter")
    else
      match untilMarker rest with
      | none => .error (.value "knowledge entry frontmatter is not terminated")
      | some (lines, bodyLines) => do
        let r ← lines.foldlM (readLine python) ⟨[], none⟩
        return (r.data, rstrip (joinLines bodyLines) ++ ['\n'])

end AlysisCode.Knowledge

/-! ### Entries

Knowledge entries, and the markdown they are kept in.

An entry is written as its frontmatter and its body.  What is read back is an entry again:
texts stripped, empty ones `None` or left out, and the status words of old task attempts
replaced by the ones in use.
-/

namespace AlysisCode.Knowledge

open Text

variable {F : Type}

/-- `_SUPPORTED_KNOWLEDGE_KINDS` -/
inductive KnowledgeEntryKind where
  | taskAttempt
  | issue
  | fact
  | decision
  deriving DecidableEq, Repr

def KnowledgeEntryKind.text : KnowledgeEntryKind → String
  | .taskAttempt => "task_attempt"
  | .issue => "issue"
  | .fact => "fact"
  | .decision => "decision"

def KnowledgeEntryKind.ofText (text : String) : Option KnowledgeEntryKind :=
  [taskAttempt, issue, fact, decision].find? (·.text == text)

structure KnowledgeEntry where
  kind : KnowledgeEntryKind
  (id title createdAt taskId source status : String)
  result : Option String := none
  (paths relatedTasks tags : List String := [])
  (reportPath patchPath verifyArtifactPath budgetArtifactPath sessionArtifactDir signature
    decisionKey : Option String := none)
  resolves : List String := []
  captureArtifactPath : Option String := none
  body : List Char := []
  deriving DecidableEq

/-! ### Writing -/

variable (python : Python F) (e : KnowledgeEntry)

def KnowledgeEntry.toFrontmatterPayload : List (String × Field) :=
  [("kind", .scalar (some e.kind.text)), ("id", .scalar (some e.id)),
    ("title", .scalar (some e.title)), ("created_at", .scalar (some e.createdAt)),
    ("task_id", .scalar (some e.taskId)), ("source", .scalar (some e.source)),
    ("status", .scalar (some e.status)), ("result", .scalar e.result), ("paths", .list e.paths),
    ("related_tasks", .list e.relatedTasks), ("tags", .list e.tags),
    ("report_path", .scalar e.reportPath), ("patch_path", .scalar e.patchPath),
    ("verify_artifact_path", .scalar e.verifyArtifactPath),
    ("budget_artifact_path", .scalar e.budgetArtifactPath),
    ("session_artifact_dir", .scalar e.sessionArtifactDir), ("signature", .scalar e.signature),
    ("decision_key", .scalar e.decisionKey), ("resolves", .list e.resolves),
    ("capture_artifact_path", .scalar e.captureArtifactPath)]

def KnowledgeEntry.toMarkdown : List Char :=
  serializeFrontmatter e.toFrontmatterPayload ++ '\n' :: rstrip e.body ++ ['\n']

/-! ### Reading -/

/-- `str(value or "").strip()` -/
def strippedText (value : Json F) : String :=
  strip (python.text (python.orElse value (.str "")))

def optionalText (value : Json F) : Option String :=
  stripped (python.text (python.orElse value (.str "")))

/-- `for item in value` -/
def iterate : Json F → Except EntryError (List (Json F))
  | .arr items => .ok items
  | .str s => .ok (s.toList.map fun c => .str (String.ofList [c]))
  | .obj members => .ok (members.map fun m => .str m.1)
  | _ => .error .type

/-- `tuple(str(item).strip() for item in value or [] if str(item).strip())` -/
def strippedItems (value : Json F) : Except EntryError (List String) := do
  let items ← iterate (python.orElse value (.arr []))
  return (items.map fun item => strip (python.text item)).filter (· != "")

def normalizeTaskAttemptStatus (kind : KnowledgeEntryKind) (status : String)
    (result : Option String) : String :=
  if kind ≠ .taskAttempt then status
  else
    let text := strip status
    if ["accepted", "pending", "rejected"].contains text then text
    else if text = "success" then "accepted"
    else if text = "failure" then "rejected"
    else
      let normalizedResult := strip (result.getD "")
      if normalizedResult = "success" then "accepted"
      else if normalizedResult = "failure" then "rejected"
      else text

def normalizeTaskAttemptResult (kind : KnowledgeEntryKind) (result : Option String)
    (status : String) : Option String :=
  if kind ≠ .taskAttempt then result
  else
    let text := strip (result.getD "")
    if text ≠ "" then some text
    else
      let legacyStatus := strip status
      if ["success", "failure"].contains legacyStatus then some legacyStatus else none

def fromMarkdown [Json.Floats F] (python : Python F) (text : List Char) :
    Except EntryError KnowledgeEntry := do
  let (frontmatter, body) ← parseFrontmatter python text
  let get := Json.get frontmatter
  let kindText := strippedText python (get "kind")
  match KnowledgeEntryKind.ofText kindText with
  | none => .error (.value ("unsupported knowledge kind: " ++ kindText))
  | some kind => do
    let paths ← strippedItems python (get "paths")
    let relatedTasks ← strippedItems python (get "related_tasks")
    let tags ← strippedItems python (get "tags")
    let resolves ← strippedItems python (get "resolves")
    return {
      kind := kind
      id := strippedText python (get "id")
      title := strippedText python (get "title")
      createdAt := strippedText python (get "created_at")
      taskId := strippedText python (get "task_id")
      source := strippedText python (get "source")
      status := normalizeTaskAttemptStatus kind (strippedText python (get "status"))
        (optionalText python (get "result"))
      result := normalizeTaskAttemptResult kind (optionalText python (get "result"))
        (strippedText python (get "status"))
      paths := paths
      relatedTasks := relatedTasks
      tags := tags
      reportPath := optionalText python (get "report_path")
      patchPath := optionalText python (get "patch_path")
      verifyArtifactPath := optionalText python (get "verify_artifact_path")
      budgetArtifactPath := optionalText python (get "budget_artifact_path")
      sessionArtifactDir := optionalText python (get "session_artifact_dir")
      signature := optionalText python (get "signature")
      decisionKey := optionalText python (get "decision_key")
      resolves := resolves
      captureArtifactPath := optionalText python (get "capture_artifact_path")
      body := body }

/-- What reading in text mode makes of line ends. -/
def universalNewlines : List Char → List Char
  | '\r' :: '\n' :: rest => '\n' :: universalNewlines rest
  | '\r' :: rest => '\n' :: universalNewlines rest
  | c :: rest => c :: universalNewlines rest
  | [] => []

/-- `load_knowledge_entry`, of the file that the entry was published in. -/
def loadPublished [Json.Floats F] (python : Python F) (e : KnowledgeEntry) :
    Except EntryError KnowledgeEntry :=
  fromMarkdown python (universalNewlines e.toMarkdown)

/-! ### What reading has to give back -/

def trimmedItems (items : List String) : List String := (items.map strip).filter (· != "")

/-- The entry with every field of the frontmatter trimmed; what is empty then is absent. -/
def KnowledgeEntry.trimmed : KnowledgeEntry where
  kind := e.kind
  id := strip e.id
  title := strip e.title
  createdAt := strip e.createdAt
  taskId := strip e.taskId
  source := strip e.source
  status := strip e.status
  result := e.result.bind stripped
  paths := trimmedItems e.paths
  relatedTasks := trimmedItems e.relatedTasks
  tags := trimmedItems e.tags
  reportPath := e.reportPath.bind stripped
  patchPath := e.patchPath.bind stripped
  verifyArtifactPath := e.verifyArtifactPath.bind stripped
  budgetArtifactPath := e.budgetArtifactPath.bind stripped
  sessionArtifactDir := e.sessionArtifactDir.bind stripped
  signature := e.signature.bind stripped
  decisionKey := e.decisionKey.bind stripped
  resolves := trimmedItems e.resolves
  captureArtifactPath := e.captureArtifactPath.bind stripped
  body := e.body

end AlysisCode.Knowledge
