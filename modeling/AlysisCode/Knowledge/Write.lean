/-
The four writers of knowledge entries, up to the entry that each of them publishes.

The clock, the random suffix of an identifier and the path of a file below the workspace are
the host's.
-/
import AlysisCode.Knowledge.Entry
import AlysisCode.Library.Runs

namespace AlysisCode.Knowledge

open Text Runs

/-- What the writers ask their surroundings. -/
structure Host (P : Type) where
  /-- `_now_iso()` -/
  nowIso : String
  /-- `uuid4().hex[:8]` -/
  suffix : String
  /-- `_repo_rel`, of a path below the root. -/
  repoRel : P → String

variable {P : Type}

/-- The fields of a task that the writers read. -/
structure Task where
  id : String := ""
  title : String := ""
  (dependencies writeScope estimatedFiles : List String := [])

/-- The files an entry points to. -/
structure Artifacts (P : Type) where
  (report patch verify budget session : Option P := none)

/-! ### Texts -/

/-- `value or default` -/
def orDefault (value default : String) : String := if value = "" then default else value

def normalizePathValue (value : String) : String :=
  let cleaned := dropDotSlashes (replaceBackslash (strip value).toList)
  String.ofList (cleaned.rdropWhile (· == '/'))

def sanitizeComponent (value : String) : String :=
  let safe := (strip value).toList.map fun c => if isAlnum c || c == '-' || c == '_' then c else '_'
  orDefault (String.ofList safe) "item"

/-- `_timestamp_slug`; with the colons gone there is no `+00:00` left to replace. -/
def timestampSlug (value : String) : String :=
  String.ofList (value.toList.filter fun c => c != '-' && c != ':' && c != '.')

variable (host : Host P)

/-- `_unique_entry_identity`, the identifier. -/
def entryIdentity (kind : KnowledgeEntryKind) (taskId source createdAt : String) : String :=
  kind.text ++ "-" ++ sanitizeComponent taskId ++ "-" ++ sanitizeComponent source ++ "-" ++
    timestampSlug createdAt ++ "-" ++ host.suffix

/-- `dict.fromkeys(_normalize_path_value(path) for path in paths if …)` -/
def normalizedPaths (paths : List String) : List String :=
  firsts id ((paths.map normalizePathValue).filter (· != ""))

/-- `[str(item).strip() for item in values if str(item).strip()]` -/
def nonBlank (values : List String) : List String := (values.map strip).filter (· != "")

def normalizeResolveIds (values : List String) : List String := firsts id (nonBlank values)

/-- `str(task.get("id") or "").strip() or "task"` -/
def Task.taskId (task : Task) : String := orDefault (strip task.id) "task"

/-- `related_tasks or […]`, each once. -/
def relatedTasks (task : Task) (related : List String) : List String :=
  firsts id (nonBlank (if related.isEmpty then nonBlank task.dependencies else related))

/-! ### Bodies -/

def textLine (label text : String) : String := "- " ++ label ++ ": " ++ text

def quotedLine (label text : String) : String := textLine label ("`" ++ text ++ "`")

def optionalLine (label missing : String) : Option String → String
  | some value => quotedLine label value
  | none => textLine label missing

/-- The items of a section, or the line that says there are none. -/
def sectionItems (render : String → String) (missing : String) (items : List String) :
    List String :=
  if items.isEmpty then [missing] else items.map render

def pathLines (paths : List String) : List String :=
  sectionItems (fun path => "- `" ++ path ++ "`") "- (none)" paths

def resolvesLines (ids : List String) : List String :=
  sectionItems (quotedLine "Resolves") "- Resolves: (none)" ids

def artifactLines (a : Artifacts P) : List String :=
  [optionalLine "Report" "(none)" (a.report.map host.repoRel),
    optionalLine "Patch" "(none)" (a.patch.map host.repoRel),
    optionalLine "Verify Artifact" "(none)" (a.verify.map host.repoRel),
    optionalLine "Budget Artifact" "(none)" (a.budget.map host.repoRel),
    optionalLine "Session Artifacts" "(none retained)" (a.session.map host.repoRel)]

/-- `"\n".join(body_lines).rstrip() + "\n"` -/
def bodyOf (lines : List String) : List Char :=
  rstrip (joinLines (lines.map String.toList)) ++ ['\n']

def KnowledgeEntry.withArtifacts (a : Artifacts P) (e : KnowledgeEntry) : KnowledgeEntry :=
  { e with
    reportPath := a.report.map host.repoRel
    patchPath := a.patch.map host.repoRel
    verifyArtifactPath := a.verify.map host.repoRel
    budgetArtifactPath := a.budget.map host.repoRel
    sessionArtifactDir := a.session.map host.repoRel }

/-! ### The writers -/

/-- The arguments of `write_task_attempt_entry`. -/
structure TaskAttemptArgs (P : Type) where
  task : Task
  source : String
  result : Option String
  summary : String
  changedFiles : List String
  verifySummary : Option String
  artifacts : Artifacts P
  acceptanceState : Option String := none
  resolves : List String := []
  createdAt : Option String := none
  extraTags : List String := []

variable (args : TaskAttemptArgs P)

/-- `str(result or "").strip() or None` -/
def TaskAttemptArgs.rawResult : Option String := args.result.bind stripped

def TaskAttemptArgs.normalizedAcceptanceState : String :=
  orDefault (strip (args.acceptanceState.getD ""))
    (if args.rawResult = some "success" then "accepted" else "rejected")

def TaskAttemptArgs.effectivePaths : List String :=
  let fallbackPaths := args.task.writeScope.map strip ++ args.task.estimatedFiles.map strip
  normalizedPaths (if args.changedFiles.isEmpty then fallbackPaths else args.changedFiles)

def writeTaskAttemptEntry : KnowledgeEntry :=
  let created := orDefault (args.createdAt.getD "") host.nowIso
  let taskId := args.task.taskId
  let taskTitle := orDefault (strip args.task.title) taskId
  let state := args.normalizedAcceptanceState
  let resolveIds := normalizeResolveIds args.resolves
  let bodyLines :=
    ["# Task Attempt: " ++ taskId, "", optionalLine "Raw Result" "(resolution only)" args.rawResult,
      quotedLine "Acceptance State" state, quotedLine "Source" args.source,
      textLine "Summary" (orDefault args.summary "(none)"), "", "## Changed Files", ""] ++
    pathLines args.effectivePaths ++ ["", "## Lifecycle", ""] ++ resolvesLines resolveIds ++
    ["", "## Verification", "",
      textLine "Summary" (orDefault (args.verifySummary.getD "") "(none)"), "",
      "## Related Artifacts", ""] ++ artifactLines host args.artifacts
  KnowledgeEntry.withArtifacts host args.artifacts {
    kind := .taskAttempt
    id := entryIdentity host .taskAttempt taskId args.source created
    title := taskId ++ ": " ++ taskTitle
    createdAt := created
    taskId := taskId
    source := args.source
    status := state
    result := args.rawResult
    paths := args.effectivePaths
    relatedTasks := nonBlank args.task.dependencies
    tags := firsts id (args.source :: state :: args.rawResult.toList ++ nonBlank args.extraTags)
    resolves := resolveIds
    body := bodyOf bodyLines }

/-- The arguments of `write_issue_entry_for_task_id`. -/
structure IssueArgs (P : Type) where
  (taskId source title summary : String)
  pathsInScope : List String := []
  artifacts : Artifacts P
  relatedTasks : List String := []
  tags : List String := []
  createdAt : Option String := none
  status : String := "open"
  signature : Option String := none
  resolves : List String := []

def writeIssueEntryForTaskId (args : IssueArgs P) : KnowledgeEntry :=
  let created := orDefault (args.createdAt.getD "") host.nowIso
  let paths := normalizedPaths args.pathsInScope
  let signature := args.signature.bind stripped
  let resolveIds := normalizeResolveIds args.resolves
  let bodyLines :=
    ["# Issue: " ++ args.title, "", quotedLine "Status" args.status,
      quotedLine "Source" args.source, optionalLine "Signature" "(none)" signature,
      textLine "Summary" (orDefault args.summary "(none)"), "", "## Related Paths", ""] ++
    pathLines paths ++ ["", "## Lifecycle", ""] ++ resolvesLines resolveIds ++
    ["", "## Related Artifacts", ""] ++ artifactLines host args.artifacts
  KnowledgeEntry.withArtifacts host args.artifacts {
    kind := .issue
    id := entryIdentity host .issue args.taskId args.source created
    title := args.title
    createdAt := created
    taskId := args.taskId
    source := args.source
    status := args.status
    paths := paths
    relatedTasks := firsts id (nonBlank args.relatedTasks)
    tags := firsts id (args.source :: args.status :: nonBlank args.tags)
    signature := signature
    resolves := resolveIds
    body := bodyOf bodyLines }

/-- What the arguments of `write_fact_entry` and `write_decision_entry` have in common. -/
structure CaptureArgs (P : Type) where
  task : Task
  (source title summary : String)
  pathsInScope : List String := []
  artifacts : Artifacts P
  captureArtifactPath : Option P := none
  relatedTasks : List String := []
  tags : List String := []
  createdAt : Option String := none

/-- The paths and the artifacts, as both of them list them. -/
def captureLines (args : CaptureArgs P) : List String :=
  ["", "## Related Paths", ""] ++ pathLines (normalizedPaths args.pathsInScope) ++
    ["", "## Related Artifacts", ""] ++ artifactLines host args.artifacts ++
    [optionalLine "Capture Artifact" "(none)" (args.captureArtifactPath.map host.repoRel)]

def writeFactEntry (args : CaptureArgs P) : KnowledgeEntry :=
  let created := orDefault (args.createdAt.getD "") host.nowIso
  let taskId := args.task.taskId
  let bodyLines :=
    ["# Fact: " ++ args.title, "", "- Status: `recorded`", quotedLine "Source" args.source,
      textLine "Summary" (orDefault args.summary "(none)")] ++ captureLines host args
  KnowledgeEntry.withArtifacts host args.artifacts {
    kind := .fact
    id := entryIdentity host .fact taskId args.source created
    title := args.title
    createdAt := created
    taskId := taskId
    source := args.source
    status := "recorded"
    paths := normalizedPaths args.pathsInScope
    relatedTasks := Knowledge.relatedTasks args.task args.relatedTasks
    tags := firsts id ("fact" :: args.source :: nonBlank args.tags)
    captureArtifactPath := args.captureArtifactPath.map host.repoRel
    body := bodyOf bodyLines }

def writeDecisionEntry (args : CaptureArgs P) (decisionKey status : String) : KnowledgeEntry :=
  let created := orDefault (args.createdAt.getD "") host.nowIso
  let taskId := args.task.taskId
  let bodyLines :=
    ["# Decision: " ++ args.title, "", quotedLine "Decision Key" decisionKey,
      quotedLine "Status" status, quotedLine "Source" args.source,
      textLine "Summary" (orDefault args.summary "(none)")] ++ captureLines host args
  KnowledgeEntry.withArtifacts host args.artifacts {
    kind := .decision
    id := entryIdentity host .decision taskId args.source created
    title := args.title
    createdAt := created
    taskId := taskId
    source := args.source
    status := status
    paths := normalizedPaths args.pathsInScope
    relatedTasks := Knowledge.relatedTasks args.task args.relatedTasks
    tags := firsts id ("decision" :: args.source :: status :: nonBlank args.tags)
    decisionKey := some decisionKey
    captureArtifactPath := args.captureArtifactPath.map host.repoRel
    body := bodyOf bodyLines }

/-- A call of one of the writers. -/
inductive Draft (P : Type) where
  | taskAttempt (args : TaskAttemptArgs P)
  | issue (args : IssueArgs P)
  | fact (args : CaptureArgs P)
  | decision (args : CaptureArgs P) (decisionKey status : String)

/-- The entry that the call builds. -/
def Draft.entry : Draft P → KnowledgeEntry
  | .taskAttempt args => writeTaskAttemptEntry host args
  | .issue args => writeIssueEntryForTaskId host args
  | .fact args => writeFactEntry host args
  | .decision args decisionKey status => writeDecisionEntry host args decisionKey status

theorem body_entry (draft : Draft P) : ∃ t, (draft.entry host).body = rstrip t ++ ['\n'] := by
  cases draft with
  | taskAttempt args | issue args | fact args | decision args decisionKey status => exact ⟨_, rfl⟩

end AlysisCode.Knowledge
