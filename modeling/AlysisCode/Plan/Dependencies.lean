/-
Whether a task changes anything, as far as its wording tells.

The words of a task are read as actions: each is reduced to a canonical form, and what counts
is which of them are actions that change files, which only look, and which begin a clause.
-/
import AlysisCode.Ide.Common
import AlysisCode.Library.Casefold
import AlysisCode.Library.Regex

namespace AlysisCode.Plan

open Text

/-! ### Words and phrases -/

def mutatingTaskActions : List String := [
  "add", "build", "change", "configure", "create", "document", "edit", "enable", "fix",
  "implement", "improve", "make", "migrate", "modify", "patch", "refactor", "remove", "rename",
  "repair", "support", "test", "touch", "update", "upgrade", "wire", "write"]

def weakMutatingTaskActions : List String := ["change", "test"]

def nonMutatingTaskActions : List String := [
  "analyse", "analyze", "assess", "audit", "compare", "diagnose", "examine", "explain", "explore",
  "find", "identify", "inspect", "investigate", "locate", "map", "report", "review", "summarise",
  "summarize", "survey", "triage", "understand"]

def nonMutatingTaskPhrases : List String := [
  "analysis only", "explain the issue", "investigate and report", "no code changes",
  "no file changes", "read current", "read-only", "readonly", "report findings", "report only",
  "review and report", "summarize findings", "summarise findings"]

def reportOnlyDocumentationPhrases : List String := [
  "document findings", "document the findings", "findings documented", "findings are documented",
  "root cause documented", "root cause is documented", "summary documented",
  "summary is documented"]

def nounProneMutatingTaskActions : List String := [
  "build", "change", "make", "patch", "repair", "support", "test"]

def taskActionClauseConnectors : List String := [
  "and", "must", "need", "needs", "require", "requires", "should", "then", "to", "will"]

def taskActionTokenCanonicalMap : List (String × String) := [
  ("added", "add"), ("adding", "add"), ("adds", "add"), ("analysed", "analyse"),
  ("analyses", "analyse"), ("analysing", "analyse"), ("analyzed", "analyze"),
  ("analyzes", "analyze"), ("analyzing", "analyze"), ("assessed", "assess"),
  ("assesses", "assess"), ("assessing", "assess"), ("audited", "audit"), ("auditing", "audit"),
  ("audits", "audit"), ("changed", "change"), ("changes", "change"), ("changing", "change"),
  ("built", "build"), ("building", "build"), ("builds", "build"), ("compared", "compare"),
  ("compares", "compare"), ("comparing", "compare"), ("configured", "configure"),
  ("configures", "configure"), ("configuring", "configure"), ("created", "create"),
  ("creates", "create"), ("creating", "create"), ("documented", "document"),
  ("documenting", "document"), ("documents", "document"), ("diagnosed", "diagnose"),
  ("diagnoses", "diagnose"), ("diagnosing", "diagnose"), ("edited", "edit"), ("editing", "edit"),
  ("edits", "edit"), ("enabled", "enable"), ("enables", "enable"), ("enabling", "enable"),
  ("explained", "explain"), ("explaining", "explain"), ("explains", "explain"),
  ("examined", "examine"), ("examines", "examine"), ("examining", "examine"),
  ("explored", "explore"), ("explores", "explore"), ("exploring", "explore"), ("found", "find"),
  ("finding", "find"), ("finds", "find"), ("fixed", "fix"), ("fixes", "fix"), ("fixing", "fix"),
  ("identified", "identify"), ("identifies", "identify"), ("identifying", "identify"),
  ("improved", "improve"), ("improves", "improve"), ("improving", "improve"),
  ("implemented", "implement"), ("implementing", "implement"), ("implements", "implement"),
  ("inspected", "inspect"), ("inspecting", "inspect"), ("inspects", "inspect"),
  ("investigated", "investigate"), ("investigates", "investigate"),
  ("investigating", "investigate"), ("located", "locate"), ("locates", "locate"),
  ("locating", "locate"), ("made", "make"), ("makes", "make"), ("making", "make"),
  ("mapped", "map"), ("mapping", "map"), ("maps", "map"), ("migrated", "migrate"),
  ("migrates", "migrate"), ("migrating", "migrate"), ("modified", "modify"),
  ("modifies", "modify"), ("modifying", "modify"), ("patched", "patch"), ("patches", "patch"),
  ("patching", "patch"), ("refactored", "refactor"), ("refactoring", "refactor"),
  ("refactors", "refactor"), ("removed", "remove"), ("removes", "remove"), ("removing", "remove"),
  ("renamed", "rename"), ("renames", "rename"), ("renaming", "rename"), ("repaired", "repair"),
  ("repairing", "repair"), ("repairs", "repair"), ("reported", "report"), ("reporting", "report"),
  ("reports", "report"), ("read", "read"), ("reading", "read"), ("reads", "read"),
  ("reviewed", "review"), ("reviewing", "review"), ("reviews", "review"), ("surveyed", "survey"),
  ("surveying", "survey"), ("surveys", "survey"), ("summarised", "summarise"),
  ("summarises", "summarise"), ("summarising", "summarise"), ("summarized", "summarize"),
  ("summarizes", "summarize"), ("summarizing", "summarize"), ("supported", "support"),
  ("supporting", "support"), ("supports", "support"), ("tested", "test"), ("testing", "test"),
  ("tests", "test"), ("touched", "touch"), ("touches", "touch"), ("touching", "touch"),
  ("triaged", "triage"), ("triages", "triage"), ("triaging", "triage"),
  ("understood", "understand"), ("understanding", "understand"), ("understands", "understand"),
  ("updated", "update"), ("updates", "update"), ("updating", "update"), ("upgraded", "upgrade"),
  ("upgrades", "upgrade"), ("upgrading", "upgrade"), ("wired", "wire"), ("wires", "wire"),
  ("wiring", "wire"), ("writes", "write"), ("writing", "write"), ("written", "write"),
  ("wrote", "write")]

/-! ### Words of a text -/

/-- `r.finditer(t)` for an expression of one character of `first` and any of `more`: each
match with the text between the last one and it. -/
def scanWords (first more : Char → Bool) (gap : List Char) :
    Option (List Char) → List Char → List (List Char × List Char)
  | none, [] => []
  | some word, [] => [(gap, word)]
  | none, c :: rest =>
    if first c then scanWords first more gap (some [c]) rest
    else scanWords first more (gap ++ [c]) none rest
  | some word, c :: rest =>
    if more c then scanWords first more gap (some (word ++ [c])) rest
    else (gap, word) :: scanWords first more [c] none rest

/-- `_TASK_ACTION_WORD_RE.finditer(t)`. -/
def taskActionWords (t : List Char) : List (List Char × List Char) :=
  scanWords Char.isLower (fun c => c.isLower || c.isDigit || c == '_' || c == '-') [] none t

/-- `phrase in t`. -/
def contains (t phrase : List Char) : Bool := t.tails.any phrase.isPrefixOf

/-- `"\n".join(parts)`. -/
def joinLines (parts : List (List Char)) : List Char := ['\n'].intercalate parts

/-- `normalized_text_list`: what the entries are stripped to, without the empty ones. -/
def normalizedTextList (value : List String) : List (List Char) :=
  (value.map fun item => stripWhere isSpace item.toList).filter (!·.isEmpty)

def normalizeTaskActionToken (token : List Char) : String :=
  let folded := String.ofList (casefold token)
  (taskActionTokenCanonicalMap.lookup folded).getD folded

def normalizedTaskActionTokens (t : List Char) : List String :=
  (taskActionWords (casefold t)).map fun found => normalizeTaskActionToken found.2

def firstTaskActionWord (t : List Char) : String :=
  match (taskActionWords (casefold t)).find? fun found =>
      !(["a", "an", "the", "to"].contains (String.ofList found.2)) with
  | some found => normalizeTaskActionToken found.2
  | none => ""

/-- The loop of `_has_mutating_task_action_clause`; `previousToken` is `none` before the
first word. -/
def mutatingClauseFrom (allowedTokens : List String) (previousToken : Option String) :
    List (List Char × List Char) → Bool
  | [] => false
  | (gap, word) :: rest =>
    let token := normalizeTaskActionToken word
    let startsClause := previousToken.isNone ||
      gap.any (fun c => c == '\n' || c == '.' || c == ';' || c == ':') ||
      (gap.contains ',' && !nounProneMutatingTaskActions.contains token) ||
      previousToken.any taskActionClauseConnectors.contains
    (startsClause && mutatingTaskActions.contains token &&
      !weakMutatingTaskActions.contains token && !allowedTokens.contains token) ||
      mutatingClauseFrom allowedTokens (some token) rest

def hasMutatingTaskActionClause (t : List Char) (allowedTokens : List String) : Bool :=
  mutatingClauseFrom allowedTokens none (taskActionWords (casefold t))

def taskTextBlob (title description : List Char) (acceptanceCriteria : List (List Char)) :
    List Char :=
  stripWhere isSpace (joinLines (title :: description :: acceptanceCriteria))

def isClearlyNonMutatingTask (title description : List Char)
    (acceptanceCriteria : List (List Char)) : Bool :=
  let rawText := taskTextBlob title description acceptanceCriteria
  let text := casefold rawText
  if text.isEmpty then false
  else
    let tokens := normalizedTaskActionTokens text
    let firstTitleWord := firstTaskActionWord title
    let nonMutatingTitle := nonMutatingTaskActions.contains firstTitleWord
    let explicitPhrase := nonMutatingTaskPhrases.any fun p => contains text p.toList
    let documentationPhrase := reportOnlyDocumentationPhrases.any fun p => contains text p.toList
    let mutatingClause :=
      hasMutatingTaskActionClause rawText (if documentationPhrase then ["document"] else [])
    if nonMutatingTitle && documentationPhrase && !mutatingClause then true
    else if explicitPhrase && !mutatingClause then true
    else if firstTitleWord == "read" && !mutatingClause then true
    else if nonMutatingTitle && !mutatingClause then true
    else if tokens.any mutatingTaskActions.contains then false
    else if tokens.any nonMutatingTaskActions.contains then !mutatingClause
    else if nonMutatingTitle then true
    else explicitPhrase

example : isClearlyNonMutatingTask "Review auth".toList "and report findings".toList [] = true := by
  decide +kernel

end AlysisCode.Plan

/-! ### The dependencies of tasks

The dependencies of a plan's tasks, declared and inferred.

A task that declares no dependency but speaks of what comes before it is given its nearest
earlier task that fits.  The scheduler infers this each time it looks at the tasks;
`apply_ordered_dependency_inference` writes it into the tasks it is told to touch.
-/

namespace AlysisCode.Plan

open Text

/-- A task of a plan, with the fields its scheduling reads. -/
structure PlanTask where
  id : String
  (title description status : String := "")
  (dependencies acceptanceCriteria estimatedFiles writeScope : List String := [])
  parallelGroup : String := ""
  deriving DecidableEq

structure InferredTaskDependency where
  (taskId dependsOn reason : String)
  deriving DecidableEq

/-! ### The wording of a task -/

/-- `\s+` -/
def spaces : Regex := .many isSpace

/-- `next\s+(?:task|step|change|item|phase|work)` -/
def nextItem : Regex :=
  .sequence [.text "next", spaces,
    .oneOf (["task", "step", "change", "item", "phase", "work"].map Regex.text)]

/-- `follow[- ]?up` -/
def followUp : Regex :=
  .sequence [.text "follow", .optional (.one fun c => c == '-' || c == ' '), .text "up"]

/-- `r"\b(?:…)\b"` -/
def wholeWords (rs : List Regex) : Regex := .sequence [.boundary, .oneOf rs, .boundary]

/-- `_ORDERING_SIGNAL_RE`. -/
def orderingSignal : Regex := wholeWords [.text "after",
  .sequence [.text "based", spaces, .text "on"],
  .sequence [.text "depend", .optional (.oneOf [.text "s", .text "ed", .text "ing"]), spaces,
    .text "on"],
  followUp,
  .text "following",
  nextItem,
  .text "once",
  .text "previous",
  .text "prior",
  .text "subsequent",
  .text "then"]

/-- `_EXPLICIT_PREVIOUS_RE`. -/
def explicitPrevious : Regex := wholeWords [.sequence [.text "after", spaces, .text "that"],
  .sequence [.text "after", spaces, .text "the", spaces, .text "previous"],
  .sequence [.text "after", spaces, .text "the", spaces, .text "prior"],
  followUp,
  .sequence [.text "following", spaces, .text "that"],
  nextItem,
  .sequence [.text "previous", spaces, .text "task"],
  .sequence [.text "prior", spaces, .text "task"],
  .text "then"]

def nonDependencyStatuses : List String :=
  ["cancelled", "canceled", "done", "skipped", "superseded"]

def tokenStopwords : List String := [
  "add", "after", "and", "app", "change", "create", "docs", "file", "fix", "for", "from",
  "implementation", "make", "modify", "new", "src", "task", "test", "tests", "the", "then",
  "this", "update", "with"]

namespace PlanTask

variable (task : PlanTask)

/-- The task's identifier, stripped. -/
def taskId : String := strip task.id

def taskDependencies : List String := (task.dependencies.map strip).filter (· ≠ "")

/-- `_task_is_read_only`. -/
def isReadOnly : Bool :=
  isClearlyNonMutatingTask (stripWhere isSpace task.title.toList)
    (stripWhere isSpace task.description.toList) (normalizedTextList task.acceptanceCriteria)

/-- `_task_text`. -/
def text : List Char :=
  joinLines ([task.title.toList, task.description.toList] ++
    normalizedTextList task.acceptanceCriteria ++ normalizedTextList task.estimatedFiles ++
    normalizedTextList task.writeScope)

end PlanTask

/-- `re.sub(r"[./\\_-]+", " ", t)`. -/
def replaceSeparators : List Char → List Char
  | [] => []
  | c :: rest =>
    let separator := fun (c : Char) => c == '.' || c == '/' || c == '\\' || c == '_' || c == '-'
    if separator c then
      if rest.head?.any separator then replaceSeparators rest else ' ' :: replaceSeparators rest
    else c :: replaceSeparators rest

/-- A character of `[a-z0-9]` under `re.IGNORECASE`. -/
def isTokenStart (c : Char) : Bool :=
  c.isAlphanum || c.toNat == 0x130 || c.toNat == 0x131 || c.toNat == 0x17F || c.toNat == 0x212A

def dependencyTokens (t : List Char) : List String :=
  let words := scanWords isTokenStart (fun c => isTokenStart c || c == '_' || c == '-') [] none
    (replaceSeparators (casefold t))
  (words.map fun found => casefold found.2).filterMap fun token =>
    if token.length ≤ 2 || tokenStopwords.contains (String.ofList token) then none
    else some (String.ofList token)

def canonicalStatus (status : String) : String :=
  let value := String.ofList ((stripWhere isSpace status.toList).flatMap lowerAscii)
  if value = "todo" ∨ value = "" then "planned" else value

/-! ### Inference -/

/-- The task is one a predecessor is inferred for. -/
def PlanTask.cued (task : PlanTask) : Bool :=
  task.taskId ≠ "" && !task.isReadOnly && task.taskDependencies.isEmpty &&
    orderingSignal.search task.text

/-- `previous` can be the predecessor inferred for `task`. -/
def eligible (task previous : PlanTask) : Bool :=
  let explicit := explicitPrevious.search task.text
  previous.taskId ≠ "" && !nonDependencyStatuses.contains (canonicalStatus previous.status) &&
    (!previous.isReadOnly || explicit) &&
    (explicit || (dependencyTokens task.text).any (dependencyTokens previous.text).contains)

/-- `infer_ordered_predecessor_dependency`: the task has no dependencies, so no candidate is
passed over for being one. -/
def inferOrderedPredecessorDependency (tasks : List PlanTask) (task : PlanTask) :
    Option InferredTaskDependency :=
  if task.cued then
    let previousTasks := tasks.takeWhile fun candidate => candidate.taskId ≠ task.taskId
    (previousTasks.reverse.find? (eligible task)).map fun previous =>
      { taskId := task.taskId
        dependsOn := previous.taskId
        reason := "ordered predecessor cue" }
  else none

/-- One task of the loop of `apply_ordered_dependency_inference`, among all of them. -/
def applyToTask (touchedTaskIds : List String) (tasks : List PlanTask) (task : PlanTask) :
    PlanTask × Option InferredTaskDependency :=
  if !touchedTaskIds.contains task.taskId || canonicalStatus task.status ≠ "planned" then
    (task, none)
  else
    match inferOrderedPredecessorDependency tasks task with
    | none => (task, none)
    | some dependency =>
      if task.taskDependencies.contains dependency.dependsOn then (task, none)
      else
        ({ task with dependencies := task.taskDependencies ++ [dependency.dependsOn] },
          some dependency)

/-- The loop, with the tasks it is done with and those to come. -/
def applyFrom (touchedTaskIds : List String) (done : List PlanTask) :
    List PlanTask → List PlanTask × List InferredTaskDependency
  | [] => (done, [])
  | task :: rest =>
    let (task', inferred) := applyToTask touchedTaskIds (done ++ task :: rest) task
    let (tasks, later) := applyFrom touchedTaskIds (done ++ [task']) rest
    (tasks, inferred.toList ++ later)

/-- `apply_ordered_dependency_inference`: the tasks afterwards, and what was inferred. -/
def applyOrderedDependencyInference (touchedTaskIds : List String) (tasks : List PlanTask) :
    List PlanTask × List InferredTaskDependency :=
  applyFrom touchedTaskIds [] tasks

/-- `_effective_dependencies` of the scheduler. -/
def effectiveDependencies (tasks : List PlanTask) (task : PlanTask) : List String :=
  if task.taskDependencies.isEmpty then
    ((inferOrderedPredecessorDependency tasks task).map (·.dependsOn)).toList
  else task.taskDependencies

/-- Tasks "T01" and "T02" of a plan, in order. -/
example : inferOrderedPredecessorDependency [{ id := "T01", title := "Implement auth API" },
      { id := "T02", title := "Next task updates auth docs" }]
    { id := "T02", title := "Next task updates auth docs" } =
      some ⟨"T02", "T01", "ordered predecessor cue"⟩ := by
  decide +kernel

end AlysisCode.Plan
