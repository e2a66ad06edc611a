/-
The files a task claims, and the paths its claims cover.

A claim is a path or a shell pattern, normalised from what the plan says.  A path is in a
claim's scope if it is that path, matches that pattern, names the same readme, or lies in the
directory the claim names, when the repository has such a directory.

Claims are normalised without a repository root here, as the scheduler does it; the root only
matters for matching, which asks it what is a directory.
-/
import AlysisCode.Library.Glob
import AlysisCode.Plan.Dependencies

namespace AlysisCode.Plan

open Text

/-! ### Paths -/

/-- `value.rstrip("/")`. -/
def rstripSlash (value : List Char) : List Char :=
  (value.reverse.dropWhile (· == '/')).reverse

def normalizePath (value : List Char) : List Char :=
  dropDotSlashes (replaceBackslash (stripWhere isSpace value))

def hasGlob (value : List Char) : Bool := value.any fun c => c == '*' || c == '?' || c == '['

/-- `while t and t[0] in p: t = t[1:].lstrip()`: once a character of `p` is taken, everything
of `p` and all whitespace goes, up to the first other character. -/
def trimLoop (p : Char → Bool) (t : List Char) : List Char :=
  if t.head?.any p then t.dropWhile fun c => p c || isSpace c else t

def stripWrappingPunctuation (value : List Char) : List Char :=
  let unquoted := stripWhere (fun c => c == '`' || c == '\'' || c == '"') (stripWhere isSpace value)
  let back := (trimLoop (",;:.)]\x7d".toList.contains ·) unquoted.reverse).reverse
  trimLoop ("([\x7b:".toList.contains ·) back

def specialFilenames : List String :=
  ["README", "README.md", "Dockerfile", "Makefile", "LICENSE", "NOTICE", "CHANGELOG"]

def broadNonPackageDirNames : List String :=
  ["app", "apps", "bin", "doc", "docs", "example", "examples", "lib", "scripts", "src", "tool",
    "tools"]

/-- `_EXTENSIONLESS_FILE_RE.fullmatch(value) is not None`. -/
def matchesExtensionless (value : List Char) : Bool :=
  !value.isEmpty && value.all fun c => c.isAlphanum || c == '_' || c == '-'

/-- A normalised path that names no file of the repository. -/
def outsideRepo (cleaned : List Char) : Bool :=
  cleaned.isEmpty || cleaned.head? == some '/' || "../".toList.isPrefixOf cleaned ||
    contains cleaned "://".toList || cleaned.contains '\n' || cleaned.contains '\t'

/-- A trailing slash stands for everything below. -/
def expandSlash (cleaned : List Char) : List Char :=
  if cleaned.getLast? = some '/' then rstripSlash cleaned ++ "/**".toList else cleaned

/-- `normalize_repo_path_entry` with `allow_extensionless_file`, without a root. -/
def normalizeRepoPathEntry (value : List Char) : Option (List Char) :=
  let cleaned := normalizePath (stripWrappingPunctuation value)
  if outsideRepo cleaned || cleaned.contains ' ' || cleaned = ['.'] || cleaned = ['.', '.'] then
    none
  else
    let cleaned := expandSlash cleaned
    if specialFilenames.contains (String.ofList cleaned) then some cleaned
    else if hasGlob cleaned then some cleaned
    else if cleaned.contains '/' || cleaned.contains '.' then some cleaned
    else if !broadNonPackageDirNames.contains (String.ofList cleaned) &&
        matchesExtensionless cleaned then some cleaned
    else none

/-! ### Claims -/

def isRootReadmeAlias (value : List Char) : Bool :=
  let normalized := rstripSlash (normalizePath value)
  !normalized.contains '/' && ["README", "README.md"].contains (String.ofList normalized)

def scopePatternIdentityKey (value : List Char) : List Char :=
  let normalized := rstripSlash (normalizePath value)
  if isRootReadmeAlias normalized then "__readme_alias__".toList else normalized

/-- The patterns without those that have the identity of an earlier one. -/
def dedupeByIdentity (patterns : List (List Char)) : List (List Char) :=
  patterns.foldl (fun kept pattern =>
    if (kept.map scopePatternIdentityKey).contains (scopePatternIdentityKey pattern) then kept
    else kept ++ [pattern]) []

def normalizeRepoPathList (value : List String) : List (List Char) :=
  dedupeByIdentity ((normalizedTextList value).filterMap normalizeRepoPathEntry)

def normalizeClaimedScopePatterns (task : PlanTask) : List (List Char) :=
  dedupeByIdentity
    (normalizeRepoPathList task.writeScope ++ normalizeRepoPathList task.estimatedFiles)

def isExplicitRepoPathPattern (value : List Char) : Bool :=
  (normalizeRepoPathEntry value).any fun normalized => !hasGlob normalized

/-! ### Matching -/

/-- `pattern.replace("/**/", "/")`. -/
def dropAnyDirectories : List Char → List Char
  | '/' :: '*' :: '*' :: '/' :: rest => '/' :: dropAnyDirectories rest
  | c :: rest => c :: dropAnyDirectories rest
  | [] => []

def scopeGlobVariants (pattern : List Char) : List (List Char) :=
  if contains pattern "/**/".toList && dropAnyDirectories pattern ≠ pattern then
    [pattern, dropAnyDirectories pattern]
  else [pattern]

/-- A repository's directories, by the path below its root; `none` where no root is given. -/
abbrev Root := Option (List Char → Bool)

def isExistingDirectoryScope (root : Root) (pattern : List Char) : Bool :=
  match root with
  | none => false
  | some isDir => !hasGlob pattern && !isRootReadmeAlias pattern && isDir pattern

def normalizeScopeMatchPattern (value : List Char) : Option (List Char) :=
  match normalizeRepoPathEntry value with
  | some normalized => some normalized
  | none =>
    let cleaned := normalizePath (stripWrappingPunctuation value)
    if outsideRepo cleaned || cleaned = ['.'] || cleaned = ['.', '.'] then none
    else some (expandSlash cleaned)

def scopePathMatchesPattern (root : Root) (path pattern : List Char) : Bool :=
  let normalizedPath := rstripSlash (normalizePath path)
  match normalizeScopeMatchPattern pattern with
  | none => false
  | some normalizedPattern =>
    if normalizedPath.isEmpty || normalizedPattern.isEmpty then false
    else if normalizedPath.head? = some '/' || "../".toList.isPrefixOf normalizedPath then false
    else if isRootReadmeAlias normalizedPath && isRootReadmeAlias normalizedPattern then true
    else if hasGlob normalizedPattern then
      (scopeGlobVariants normalizedPattern).any (Glob.fnmatchcase normalizedPath ·)
    else if normalizedPath = normalizedPattern then true
    else isExistingDirectoryScope root normalizedPattern &&
      (rstripSlash normalizedPattern ++ ['/']).isPrefixOf normalizedPath

example : normalizeRepoPathEntry "(./src\\app.py),".toList = some "src/app.py".toList := by
  decide +kernel

example : scopePathMatchesPattern none "./src/a/b.py".toList "src/".toList = true := by
  decide +kernel

end AlysisCode.Plan
