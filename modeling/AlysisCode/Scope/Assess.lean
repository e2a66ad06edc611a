/-
Assessing the files a task changed against the scope it was allowed.

Every changed path, normalised, goes through one chain of rules, and the first that applies
says what becomes of it.  `ruleFor` is that chain; `assessScopeChanges` records its answers.
An adjacent path may be amended into the scope, and `applyScopeAmendments` writes it there.
-/
import AlysisCode.Scope.Support

namespace AlysisCode.Scope

open Collect Plan Text

/-! ### Adjacent paths -/

def nonAdjacentDirNames : List String := ["node_modules", "vendor", "dist", "build", "target"]

def testFilenameStemPrefixes : List String := ["test_", "test-"]

def testFilenameStemSuffixes : List String := ["_test", "-test", ".test", ".spec", "_spec"]

def generatedArtifactNameSuffixes : List String := [".map", ".lock", ".sum", ".snap"]

def generatedArtifactNameMarkers : List String :=
  [".generated.", ".g.", ".min.", ".pb.", "_pb2.", ".d.ts"]

def managedLockfileNames : List String :=
  ["package-lock.json", "pnpm-lock.yaml", "yarn.lock", "bun.lockb", "Cargo.lock", "poetry.lock",
    "uv.lock", "pdm.lock", "Pipfile.lock", "constraints.txt", "requirements.lock",
    "requirements.lock.txt"]

def inferredFileExtensions : List String :=
  ["py", "cjs", "js", "jsx", "mjs", "cts", "mts", "ts", "tsx", "rs", "go", "java", "kt", "kts",
    "c", "h", "cc", "cpp", "cxx", "hpp", "hxx", "cs", "php", "rb", "bash", "sh", "swift", "cfg",
    "conf", "css", "csv", "env", "html", "ini", "json", "md", "scss", "sql", "svg", "toml", "txt",
    "xml", "yaml", "yml"]

def staticGlobPrefixDir (pattern : List Char) : List Char :=
  let path := PurePath.ofText pattern
  let static := path.parts.takeWhile fun part => !hasGlob part
  let static := if static.length = path.parts.length then static.dropLast else static
  if static.isEmpty then []
  else if path.root.isEmpty then Posix.join static
  else path.root ++ Posix.join static.tail

def declaredScopeDirectory (pattern : List Char) : Option (List Char) :=
  let normalized := rstripSlash (normalizePath pattern)
  if normalized.isEmpty then none
  else
    let directory := if hasGlob normalized then staticGlobPrefixDir normalized
      else (PurePath.ofText normalized).parent.text
    if directory.isEmpty || directory == ['.'] || directory == ['/'] then none
    else some directory

def declaredScopeDirectories (allowedPatterns : List (List Char)) : List (List Char) :=
  (allowedPatterns.filterMap declaredScopeDirectory).foldl (keepOne id) []

def pathIsUnderDeclaredDirectory (path : List Char) (directories : List (List Char)) :
    Option (List Char) :=
  let parent := (PurePath.ofText path).parent.text
  if parent.isEmpty || parent == ['.'] then none
  else directories.find? fun directory =>
    parent == directory || (directory ++ ['/']).isPrefixOf parent

def pathCanBeAdjacent (path : List Char) : Bool :=
  if path.isEmpty || startsWith path "." || startsWith path "../" then false
  else
    let pure := PurePath.ofText path
    if pure.parts.any (isOneOf nonAdjacentDirNames) then false else pure.name.contains '.'

/-- `name.rsplit(".", 1)[1]`, of a name with a dot. -/
def extensionOf (name : List Char) : List Char := (name.reverse.takeWhile (· != '.')).reverse

/-- The extension is one of `_INFERRED_FILE_EXTENSIONS`. -/
def hasInferredExtension (path : List Char) : Bool :=
  isOneOf inferredFileExtensions (casefold (extensionOf (PurePath.ofText path).name))

def likelyLegitimateMissingScope (path : List Char) (allowedPatterns : List (List Char)) : Bool :=
  let normalized := rstripSlash (normalizePath path)
  if !pathCanBeAdjacent normalized then false
  else if !hasInferredExtension normalized then false
  else (pathIsUnderDeclaredDirectory normalized (declaredScopeDirectories allowedPatterns)).isSome

def filenameStem (name : List Char) : List Char :=
  if name.contains '.' then (name.reverse.dropWhile (· != '.')).tail.reverse else name

def testFilenameSubjects (name : List Char) : List (List Char) :=
  let stem := filenameStem name
  let subjects :=
    ((testFilenameStemPrefixes.filter (startsWith (casefold stem) ·)).map fun front =>
      stem.drop front.length) ++
    ((testFilenameStemSuffixes.filter (endsWith (casefold stem) ·)).map fun suffix =>
      stem.take (stem.length - suffix.length))
  (subjects.filter (!·.isEmpty)).map casefold

def siblingTestSource (path : List Char) (declaredFiles : List (List Char)) : Option (List Char) :=
  let subjects := testFilenameSubjects (PurePath.ofText path).name
  declaredFiles.find? fun declared =>
    let declaredStem := casefold (filenameStem (PurePath.ofText declared).name)
    !declaredStem.isEmpty && subjects.contains declaredStem

def generatedArtifactSource (path : List Char) (declaredFiles : List (List Char)) :
    Option (List Char) :=
  let pure := PurePath.ofText path
  let name := pure.name
  if isOneOf managedLockfileNames name then none
  else if !(generatedArtifactNameSuffixes.any (endsWith (casefold name) ·) ||
      generatedArtifactNameMarkers.any (contains (casefold name) ·.toList)) then none
  else declaredFiles.find? fun declared =>
    let declaredPure := PurePath.ofText declared
    let stem := filenameStem declaredPure.name
    declaredPure.parent = pure.parent && declaredPure.name != name && !stem.isEmpty &&
      stem.isPrefixOf name && (name.drop stem.length).head?.any "._-".toList.contains

def declaredScopeFiles (allowedPatterns : List (List Char)) : List (List Char) :=
  (allowedPatterns.filter fun pattern =>
    !pattern.isEmpty && !hasGlob pattern && (PurePath.ofText pattern).name.contains '.').map
      fun pattern => rstripSlash (normalizePath pattern)

/-- `repr` of a list of strings. -/
abbrev ReprList := List (List Char) → String

variable (repr : ReprList)

/-- `allowed_patterns or ['(none)']`, written out. -/
def shownPatterns (allowedPatterns : List (List Char)) : String :=
  repr (if allowedPatterns.isEmpty then ["(none)".toList] else allowedPatterns)

/-- Why a path is adjacent. -/
structure Adjacency where
  reasonCode : String
  evidence : String
  sourcePath : Option (List Char)

/-- `_adjacent_scope_classification`; `newPaths` is `none` when creation is not known. -/
def adjacentScopeClassification (path : List Char)
    (allowedPatterns scopeDirectories declaredFiles : List (List Char))
    (newPaths : Option (List (List Char))) : Option Adjacency :=
  if !pathCanBeAdjacent path then none
  else
    let shown := String.ofList path
    match siblingTestSource path declaredFiles with
    | some source => some {
        reasonCode := "sibling_test_file_for_declared_path",
        evidence := s!"{shown} is a sibling test file for declared scope path " ++
          String.ofList source,
        sourcePath := some source }
    | none =>
      match generatedArtifactSource path declaredFiles with
      | some source => some {
          reasonCode := "generated_artifact_of_declared_path",
          evidence := s!"{shown} is a generated artifact of declared scope path " ++
            String.ofList source,
          sourcePath := some source }
      | none =>
        match pathIsUnderDeclaredDirectory path scopeDirectories with
        | none => none
        | some covering =>
          if !hasInferredExtension path then none
          else if newPaths.any (!·.contains path) then none
          else
            let created := if newPaths.isSome then "created" else "wrote"
            some {
              reasonCode := "new_file_in_declared_scope_directory",
              evidence := s!"{shown} was {created} under {String.ofList covering}/, already " ++
                s!"covered by write_scope {shownPatterns repr allowedPatterns}",
              sourcePath := none }

def suggestedScopePatternFor (path : List Char) : List Char :=
  let normalized := rstripSlash (normalizePath path)
  if normalized.isEmpty then []
  else
    let parent := (PurePath.ofText normalized).parent.text
    if parent.isEmpty || parent == ['.'] then normalized else parent ++ "/**".toList

/-- `suggested_scope_patterns_for`, up to its limit. -/
def suggestedScopePatternsFor (paths : List (List Char)) : List (List Char) :=
  (paths.foldl (fun patterns path =>
    let pattern := suggestedScopePatternFor path
    if pattern.isEmpty || patterns.contains pattern then patterns
    else patterns ++ [pattern]) []).take 20

/-! ### The assessment -/

structure ScopeViolationDiagnostic where
  path : List Char
  (classification reasonCode evidence recommendedAction : String)
  allowed : Bool := false
  sourcePath : Option (List Char) := none
  suggestedPattern : List Char := []

structure ScopeAmendment where
  path : List Char
  pattern : List Char
  reasonCode : String
  evidence : String
  suggestedPattern : List Char := []
  sourcePath : Option (List Char) := none

structure ForbiddenPathHint where
  path : List Char
  reasonCode : String
  evidence : String

/-- What a call of `assess_scope_changes` is given beside the files and the patterns. -/
structure Inputs where
  workspace : Workspace
  /-- `_forbidden_path_records_for_task(task)`: what the task's text forbids. -/
  forbidden : List ForbiddenPathHint
  extraDiagnostics : List ScopeViolationDiagnostic
  amendAdjacent : Bool
  newPaths : Option (List (List Char))
  repr : ReprList

/-- What becomes of a path. -/
inductive Rule where
  | forbidden (record : ForbiddenPathHint)
  | protectedPath
  | ancestor
  | companion (source : Option ScopeCompanionExpansion)
  | inScope
  | adjacent (why : Adjacency)
  | likelyMissing
  | unrelated

def Rule.blocks : Rule → Bool
  | .forbidden _ | .protectedPath | .likelyMissing | .unrelated => true
  | _ => false

variable (inputs : Inputs)

/-- The hint that forbids the path: of two with one key, the later. -/
def forbiddenRecord (rel : List Char) : Option ForbiddenPathHint :=
  inputs.forbidden.reverse.find? fun record => foldedKey record.path == foldedKey rel

def Inputs.normalizedNewPaths : Option (List (List Char)) :=
  inputs.newPaths.map fun paths => paths.map fun path => rstripSlash (normalizePath path)

/-- The loop body of `assess_scope_changes`: the first rule that applies. -/
def ruleFor (allowedPatterns : List (List Char)) (rel : List Char) : Rule :=
  let expansions := companionExpansionsForPatterns inputs.workspace allowedPatterns
  match forbiddenRecord inputs rel with
  | some record => .forbidden record
  | none =>
    if isProtectedScopePath rel then .protectedPath
    else if (ancestorDirectoryScopePatterns inputs.workspace allowedPatterns).contains rel then
      .ancestor
    else
      match companionSourceForPath inputs.workspace rel expansions with
      | some source => .companion (some source)
      | none =>
        if pathMatchesAnyPattern inputs.workspace rel (expansions.map (·.companionPath)) then
          .companion none
        else if pathMatchesAnyPattern inputs.workspace rel
            (expandSupportFilePatterns inputs.workspace allowedPatterns) then .inScope
        else
          let adjacency := adjacentScopeClassification inputs.repr rel allowedPatterns
            (declaredScopeDirectories allowedPatterns) (declaredScopeFiles allowedPatterns)
            inputs.normalizedNewPaths
          match adjacency, inputs.amendAdjacent with
          | some why, true => .adjacent why
          | _, _ =>
            if likelyLegitimateMissingScope rel allowedPatterns then .likelyMissing
            else .unrelated

/-- The lists that the loop fills. -/
structure Recorded where
  diagnostics : List ScopeViolationDiagnostic
  (blockingPaths effectiveChangedFiles inScopePaths adjacentPaths : List (List Char) := [])
  amendments : List ScopeAmendment := []

def Recorded.block (recorded : Recorded) (rel : List Char) (d : ScopeViolationDiagnostic) :
    Recorded :=
  { recorded with
    diagnostics := recorded.diagnostics ++ [d]
    blockingPaths := recorded.blockingPaths ++ [rel]
    effectiveChangedFiles := recorded.effectiveChangedFiles ++ [rel] }

def record (allowedPatterns : List (List Char)) (recorded : Recorded) (rel : List Char)
    (rule : Rule) : Recorded :=
  let shown := String.ofList rel
  let uncovered :=
    s!"{shown} is not covered by allowed scope {shownPatterns repr allowedPatterns}"
  match rule with
  | .forbidden hint => recorded.block rel {
      path := rel, classification := "forbidden_path_violation", reasonCode := hint.reasonCode,
      evidence := hint.evidence, recommendedAction := "reject_hard" }
  | .protectedPath => recorded.block rel {
      path := rel, classification := "protected_path", reasonCode := "protected_or_system_path",
      evidence := s!"{shown} is a protected agent-internal, version-control or " ++
        "out-of-workspace path that no task scope may cover",
      recommendedAction := "reject_hard" }
  | .ancestor =>
    { recorded with effectiveChangedFiles := recorded.effectiveChangedFiles ++ [rel] }
  | .companion source =>
    { recorded with
      diagnostics := recorded.diagnostics ++ [{
        path := rel, classification := "expected_companion_file",
        reasonCode := "allowed_ecosystem_companion",
        evidence := match source with
          | some companion => companion.evidence
          | none => s!"{shown} matches an ecosystem companion rule",
        recommendedAction := "allow_and_record", allowed := true,
        sourcePath := source.map (·.sourcePath) }]
      effectiveChangedFiles := recorded.effectiveChangedFiles ++ [rel] }
  | .inScope =>
    { recorded with
      inScopePaths := recorded.inScopePaths ++ [rel]
      effectiveChangedFiles := recorded.effectiveChangedFiles ++ [rel] }
  | .adjacent why =>
    { recorded with
      amendments := recorded.amendments ++ [{
        path := rel, pattern := rel, reasonCode := why.reasonCode, evidence := why.evidence,
        suggestedPattern := suggestedScopePatternFor rel, sourcePath := why.sourcePath }]
      adjacentPaths := recorded.adjacentPaths ++ [rel]
      diagnostics := recorded.diagnostics ++ [{
        path := rel, classification := "adjacent_to_declared_scope",
        reasonCode := why.reasonCode, evidence := why.evidence,
        recommendedAction := "amend_scope_and_continue", allowed := true,
        sourcePath := why.sourcePath, suggestedPattern := suggestedScopePatternFor rel }]
      effectiveChangedFiles := recorded.effectiveChangedFiles ++ [rel] }
  | .likelyMissing => recorded.block rel {
      path := rel, classification := "likely_legitimate_missing_scope",
      reasonCode := "same_area_code_path_outside_scope", evidence := uncovered,
      recommendedAction := "create_scope_delta_proposal",
      suggestedPattern := suggestedScopePatternFor rel }
  | .unrelated => recorded.block rel {
      path := rel, classification := "dangerous_unrelated_path",
      reasonCode := "path_not_covered_by_task_scope", evidence := uncovered,
      recommendedAction := "reject_and_replan",
      suggestedPattern := suggestedScopePatternFor rel }

/-- One changed file more, normalised, unless it is there or a runtime artifact. -/
def assessOne (workspace : Workspace) (normalized : List (List Char)) (raw : List Char) :
    List (List Char) :=
  let rel := rstripSlash (normalizePath raw)
  if rel.isEmpty || normalized.contains rel || isRuntimeArtifactPath workspace rel then normalized
  else normalized ++ [rel]

def assessedPaths (workspace : Workspace) (changedFiles : List (List Char)) : List (List Char) :=
  changedFiles.foldl (assessOne workspace) []

/-- `triage == SCOPE_TRIAGE_UNRELATED` -/
def isUnrelatedTriage (classification : String) : Bool :=
  !(["adjacent_to_declared_scope", "expected_companion_file", "scratch_diagnostic_artifact",
    "protected_path", "forbidden_path_violation"].contains classification)

structure ScopeAssessment where
  ok : Bool
  blockingPaths : List (List Char)
  diagnostics : List ScopeViolationDiagnostic
  effectiveChangedFiles : List (List Char)
  expandedAllowedScope : List (List Char)
  companionExpansions : List ScopeCompanionExpansion
  inScopePaths : List (List Char)
  adjacentPaths : List (List Char)
  amendments : List ScopeAmendment
  suggestedScopePatterns : List (List Char)

/-- The loop of `assess_scope_changes`. -/
def recordAll (changedFiles allowedPatterns : List (List Char)) : Recorded :=
  (assessedPaths inputs.workspace changedFiles).foldl (fun recorded rel =>
    record inputs.repr allowedPatterns recorded rel (ruleFor inputs allowedPatterns rel))
    { diagnostics := inputs.extraDiagnostics }

def assessScopeChanges (changedFiles allowedPatterns : List (List Char)) : ScopeAssessment :=
  let recorded := recordAll inputs changedFiles allowedPatterns
  { ok := recorded.blockingPaths.isEmpty
    blockingPaths := recorded.blockingPaths
    diagnostics := recorded.diagnostics
    effectiveChangedFiles := recorded.effectiveChangedFiles
    expandedAllowedScope := expandSupportFilePatterns inputs.workspace allowedPatterns
    companionExpansions := companionExpansionsForPatterns inputs.workspace allowedPatterns
    inScopePaths := recorded.inScopePaths
    adjacentPaths := recorded.adjacentPaths
    amendments := recorded.amendments
    suggestedScopePatterns := suggestedScopePatternsFor ((recorded.diagnostics.filter fun d =>
        !d.allowed && isUnrelatedTriage d.classification).map (·.path)) }

/-! ### Amending the scope -/

/-- The loop of `apply_scope_amendments`: the scope, and what was added to it. -/
def addAmendment (state : List (List Char) × List (List Char)) (amendment : ScopeAmendment) :
    List (List Char) × List (List Char) :=
  let (existing, added) := state
  let pattern := rstripSlash (normalizePath amendment.pattern)
  if pattern.isEmpty || (existing.map foldedKey).contains (foldedKey pattern) then state
  else (existing ++ [pattern], added ++ [pattern])

/-- `apply_scope_amendments`: the task's `write_scope` afterwards, and what was added. -/
def applyScopeAmendments (writeScope : List (List Char)) (amendments : List ScopeAmendment) :
    List (List Char) × List (List Char) :=
  let existing := (writeScope.map (stripWhere isSpace)).filter (!·.isEmpty)
  let (scope, added) := amendments.foldl addAmendment (existing, [])
  (if added.isEmpty then writeScope else scope, added)

end AlysisCode.Scope
