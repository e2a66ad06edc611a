/-
What a scope reaches beyond its own patterns.

An allowed pattern brings support files with it: the package file and the test configuration
next to a Python file, and what the manifests of the workspace name as companions.  Some paths
no scope may cover, and some are left out of every assessment because running the program
makes them.
-/
import AlysisCode.Library.Collect
import AlysisCode.Library.PurePath
import AlysisCode.Plan.Scope

namespace AlysisCode.Scope

open Collect Plan Text

/-! ### Files that running the program makes -/

def rootRuntimeArtifactDirNames : List String :=
  [".alysis", ".alysis_images", ".git", "alysis-feedback"]

def runtimeCacheDirNames : List String :=
  ["__pycache__", ".mypy_cache", ".pytest_cache", ".ruff_cache"]

def runtimeArtifactFileNames : List String := [".coverage"]

def runtimeArtifactFileSuffixes : List String := [".pyc", ".pyo"]

/-- `t.endswith(suffix)` -/
def endsWith (t : List Char) (suffix : String) : Bool := suffix.toList.isSuffixOf t

/-- `t.startswith(start)` -/
def startsWith (t : List Char) (start : String) : Bool := start.toList.isPrefixOf t

/-- `t in names` -/
def isOneOf (names : List String) (t : List Char) : Bool := names.contains (String.ofList t)

/-- What an assessment reads of a workspace. -/
structure Tree where
  isDir : List Char → Bool
  isFile : List Char → Bool
  /-- `_companion_patterns_for_path`: lockfiles, as the manifests of the workspace name them. -/
  companionPatterns : List Char → List (List Char)
  /-- `_rust_entrypoint_support_patterns_for_path` -/
  rustEntrypoints : List Char → List (List Char)

/-- The `root` of a call, where one is given. -/
abbrev Workspace := Option Tree

/-- A manifest lies in the directory with these names. -/
def Tree.hasManifest (tree : Tree) (names : List (List Char)) : Bool :=
  tree.isFile (Posix.join (names ++ ["Cargo.toml".toList]))

/-- The loop of `_is_rust_target_runtime_artifact` over the names before the last. -/
def targetBelowManifest (tree : Tree) (above : List (List Char)) : List (List Char) → Bool
  | [] | [_] => false
  | name :: rest =>
    (name == "target".toList && tree.hasManifest above) ||
      targetBelowManifest tree (above ++ [name]) rest

variable (workspace : Workspace)

def isRustTargetRuntimeArtifact (parts : List (List Char)) : Bool :=
  match workspace, parts with
  | some tree, first :: _ =>
    if first = "target".toList then tree.hasManifest [] else targetBelowManifest tree [] parts
  | _, _ => false

def isRuntimeArtifactPath (path : List Char) : Bool :=
  match (PurePath.ofText (normalizePath path)).parts with
  | [] => false
  | first :: rest =>
    let parts := first :: rest
    let filename := parts.getLast (List.cons_ne_nil first rest)
    isOneOf rootRuntimeArtifactDirNames first || parts.any (isOneOf runtimeCacheDirNames) ||
      isRustTargetRuntimeArtifact workspace parts || isOneOf runtimeArtifactFileNames filename ||
      runtimeArtifactFileSuffixes.any (endsWith filename)

/-! ### Paths no scope may cover -/

/-- `_AGENT_INTERNAL_SCOPE_PREFIXES` -/
def ignoredInternalPrefixes : List String := rootRuntimeArtifactDirNames ++ [".forge"]

def protectedScopePrefixes : List String := ignoredInternalPrefixes ++ [".hg", ".svn"]

def isIgnoredInternalPath (path : List Char) : Bool :=
  ignoredInternalPrefixes.any fun p => path == p.toList || startsWith path (p ++ "/")

def isAgentInternalScopePath (path : List Char) : Bool :=
  isIgnoredInternalPath (normalizePath path) || isRuntimeArtifactPath none (normalizePath path)

/-- `_WINDOWS_ABSOLUTE_PATH_RE` matches. -/
def isWindowsAbsolute (path : List Char) : Bool :=
  match path with
  | drive :: ':' :: '/' :: _ => drive.isAlpha
  | _ => false

def isProtectedScopePath (path : List Char) : Bool :=
  let cleaned := rstripSlash (normalizePath path)
  if cleaned.isEmpty then false
  else if startsWith cleaned "/" || cleaned == "..".toList || startsWith cleaned "../" ||
      isWindowsAbsolute cleaned then true
  else if isAgentInternalScopePath cleaned then true
  else (PurePath.ofText cleaned).parts.head?.any (isOneOf protectedScopePrefixes)

/-! ### Support files -/

def isPythonFilePath (path : List Char) : Bool := endsWith path ".py" && path.contains '/'

def isPythonTestFile (path : PurePath) : Bool :=
  path.parts.dropLast.contains "tests".toList &&
    (startsWith path.name "test_" || endsWith path.name "_test.py")

def supportsPythonPackageInit (path : PurePath) : Bool :=
  let parentName := path.parent.name
  if parentName.isEmpty || parentName == ['.'] then false
  else if parentName == "tests".toList then true
  else !isOneOf broadNonPackageDirNames parentName

/-- `_support_file_patterns_for_path`, of a path that is normalised. -/
def supportFilePatternsForPath (path : List Char) : List (List Char) :=
  match normalizeRepoPathEntry path with
  | none => []
  | some normalized =>
    let purePath := PurePath.ofText normalized
    let parent := purePath.parent.text
    let python :=
      if !hasGlob normalized && isPythonFilePath normalized && !parent.isEmpty &&
          parent != ['.'] then
        (if purePath.name != "__init__.py".toList && supportsPythonPackageInit purePath then
          [parent ++ "/__init__.py".toList] else []) ++
        (if isPythonTestFile purePath then [parent ++ "/conftest.py".toList] else [])
      else []
    match workspace with
    | none => python
    | some tree => python ++ tree.companionPatterns normalized ++ tree.rustEntrypoints normalized

def contributed (pattern : List Char) : List (List Char) :=
  match normalizeRepoPathEntry pattern with
  | none => []
  | some normalized => normalized :: supportFilePatternsForPath workspace normalized

def expandSupportFilePatterns (patterns : List (List Char)) : List (List Char) :=
  patterns.foldl (fun expanded pattern =>
    (contributed workspace pattern).foldl (keepOne scopePatternIdentityKey) expanded) []

/-- The directories above a pattern that is a path. -/
def parentsOf (pattern : List Char) : List (List Char) :=
  match normalizeRepoPathEntry pattern with
  | none => []
  | some normalized =>
    if hasGlob normalized then [] else (PurePath.ofText normalized).parentTexts

def ancestorDirectoryScopePatterns (patterns : List (List Char)) : List (List Char) :=
  (expandSupportFilePatterns workspace patterns).foldl (fun ancestors pattern =>
    (parentsOf pattern).foldl (keepOne id) ancestors) []

/-! ### Companions -/

structure ScopeCompanionExpansion where
  sourcePath : List Char
  companionPath : List Char
  reasonCode : String
  evidence : String
  deriving DecidableEq

/-- `_scope_pattern_identity_key(path).casefold()` -/
def foldedKey (path : List Char) : List Char := casefold (scopePatternIdentityKey path)

def companionExpansionsOf (pattern : List Char) : List ScopeCompanionExpansion :=
  match normalizeRepoPathEntry pattern, workspace with
  | some normalized, some tree =>
    (tree.companionPatterns normalized).map fun companion => {
      sourcePath := normalized, companionPath := companion, reasonCode := "ecosystem_companion",
      evidence := s!"{String.ofList companion} is a repo-aware companion for " ++
        String.ofList normalized }
  | _, _ => []

def companionExpansionsForPatterns (patterns : List (List Char)) : List ScopeCompanionExpansion :=
  patterns.foldl (fun expansions pattern =>
    (companionExpansionsOf workspace pattern).foldl (keepOne (foldedKey ·.companionPath))
      expansions) []

def companionSourceForPath (path : List Char) (expansions : List ScopeCompanionExpansion) :
    Option ScopeCompanionExpansion :=
  expansions.find? fun e => scopePathMatchesPattern (workspace.map Tree.isDir) path e.companionPath

def pathMatchesAnyPattern (path : List Char) (patterns : List (List Char)) : Bool :=
  patterns.any (scopePathMatchesPattern (workspace.map Tree.isDir) path)

end AlysisCode.Scope
