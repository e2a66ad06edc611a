/-
Deciding a request.

A request is normalised first: its paths become relative to the workspace, or are found to be
outside it.  What is sensitive or outside is decided by the overrides alone.  Otherwise the
matching rules are ranked, by how specific they are, then by how restrictive, then by age,
and the first in rank decides.

Windows paths are normalised by `ntpath`, which asks the operating system; what it answers is
left open.
-/
import Mathlib.Algebra.GroupWithZero.Nat
import Mathlib.Data.List.MinMax
import Mathlib.Data.Prod.Lex
import AlysisCode.Library.Glob
import AlysisCode.Library.PurePath
import AlysisCode.Permission.Basic

namespace AlysisCode.Permission

open Runs Text

inductive Platform where
  | auto
  | windows
  | posix
  deriving DecidableEq, Repr

structure PermissionRequest where
  toolName : String
  paths : List String := []
  command : Option String := none
  workspaceRoot : Option String := none
  platform : Platform := .auto
  sensitive : Bool := false
  externalDirectory : Bool := false
  deriving DecidableEq

structure PermissionEvaluation where
  decision : PolicyEffect
  reason : String
  matchedRuleId : Option String
  matchedRuleSource : Option String
  specificity : Int
  deriving DecidableEq

structure NormalizedRequest where
  toolName : List Char
  paths : List (List Char)
  command : Option (List Char)
  (windows sensitive externalDirectory : Bool)
  deriving DecidableEq

/-- The machine: `os.name == "nt"`, and its `ntpath`. -/
structure Host where
  nt : Bool
  ntNormpath : List Char → List Char
  /-- `ntpath.relpath`; `none` is its `ValueError`. -/
  ntRelpath : List Char → List Char → Option (List Char)
  ntIsabs : List Char → Bool

/-! ### The request -/

def validateKind (kind : String) : Except PermissionPolicyError (List Char) :=
  let normalized := casefold (stripWhere isSpace kind.toList)
  if normalized.isEmpty || maxSourceLength < normalized.length || normalized.any isControl then
    .error (.validation "Permission scope kind is invalid.")
  else .ok normalized

variable (host : Host)

/-- `_select_platform`: whether the paths are Windows paths. -/
def selectPlatform (platform : Platform) (values : List String) : Bool :=
  match platform with
  | .windows => true
  | .posix => false
  | .auto => values.any (fun value => windowsAbsolute value.toList) || host.nt

/-- A path's place in the workspace, if it has one, and whether it is outside. -/
abbrev Place := Option (List Char) × Bool

/-- The place of a relative path in normal form, with `/` for its separators. -/
def placeOf (absolute : List Char → Bool) (fold : List Char → List Char)
    (normalized : List Char) : Place :=
  if normalized = [] ∨ normalized = ['.'] then (some ['.'], false)
  else if normalized = ['.', '.'] ∨ "../".toList.isPrefixOf normalized ∨ absolute normalized then
    (none, true)
  else (some (fold normalized), false)

def normalizeWindowsWorkspacePath (value : List Char) (root : Option String) : Place :=
  let raw := (stripWhere isSpace value).map fun c => if c = '/' then '\\' else c
  let normal := fun (raw : List Char) => placeOf windowsAbsolute casefold
    ((host.ntNormpath raw).map fun c => if c = '\\' then '/' else c)
  if windowsAbsolute raw then
    match root with
    | none => (none, true)
    | some root =>
      if !windowsAbsolute root.toList then (none, true)
      else
        match host.ntRelpath (host.ntNormpath raw) (host.ntNormpath root.toList) with
        | none => (none, true)
        | some relative =>
          if relative = ['.', '.'] ∨ "..\\".toList.isPrefixOf relative ∨ host.ntIsabs relative then
            (none, true)
          else normal relative
  else normal raw

def normalizePosixWorkspacePath (value : List Char) (root : Option String) : Place :=
  let raw := replaceBackslash (stripWhere isSpace value)
  let normal := fun (raw : List Char) => placeOf Posix.isabs id (Posix.normpath raw)
  if Posix.isabs raw then
    match root with
    | none => (none, true)
    | some root =>
      let slashed := replaceBackslash root.toList
      if !Posix.isabs slashed then (none, true)
      else
        let root := Posix.normpath slashed
        let normalizedAbsolute := Posix.normpath raw
        if Posix.commonpath root normalizedAbsolute ≠ root then (none, true)
        else normal (Posix.relpath normalizedAbsolute root)
  else normal raw

def normalizeWorkspacePath (value : String) (root : Option String) (windows : Bool) :
    Except PermissionPolicyError Place :=
  if (stripWhere isSpace value.toList).isEmpty || value.toList.contains '\x00' then
    .error (.validation "Permission request path is invalid.")
  else if windows then .ok (normalizeWindowsWorkspacePath host value.toList root)
  else .ok (normalizePosixWorkspacePath value.toList root)

/-- The platform a request's paths are read for. -/
def PermissionRequest.windows (request : PermissionRequest) : Bool :=
  selectPlatform host request.platform (request.paths.take 1 ++ request.workspaceRoot.toList)

def normalizeRequest (request : PermissionRequest) :
    Except PermissionPolicyError NormalizedRequest := do
  let toolName ← validateKind request.toolName
  let windows := request.windows host
  let places ← request.paths.mapM fun path =>
    normalizeWorkspacePath host path request.workspaceRoot windows
  let command := request.command.map fun command => normalizeCommandText command.toList
  .ok { toolName
        paths := places.filterMap (·.1)
        command := if windows then command.map casefold else command
        windows
        sensitive := request.sensitive
        externalDirectory := request.externalDirectory || places.any (·.2) }

/-! ### Matching -/

/-- A part of the regular expression a path pattern is turned into. -/
inductive GlobPart where
  | lit (c : Char)
  /-- `[^/]` -/
  | one
  /-- `[^/]*` -/
  | segment
  /-- `.*` -/
  | anything
  /-- `(?:.*/)?` -/
  | directories
  /-- `(?:/.*)?` -/
  | subtree
  deriving DecidableEq

/-- The parts of a pattern, from the character in front of the rest and the parts so far, the
last one first. -/
def globParts (previous : Option Char) (parts : List GlobPart) : List Char → List GlobPart
  | [] => parts.reverse
  | '*' :: '*' :: '/' :: rest => globParts (some '/') (.directories :: parts) rest
  | ['*', '*'] =>
    -- the slash in front is matched together with what is below it
    if previous = some '/' then (.subtree :: parts.tail).reverse
    else (.anything :: parts).reverse
  | '*' :: '*' :: rest => globParts (some '*') (.anything :: parts) rest
  | '*' :: rest => globParts (some '*') (.segment :: parts) rest
  | '?' :: rest => globParts (some '?') (.one :: parts) rest
  | c :: rest => globParts (some c) (.lit c :: parts) rest

/-- `re.fullmatch` of the parts. -/
def matchesParts : List GlobPart → List Char → Bool
  | [], t => t.isEmpty
  | .lit d :: parts, t =>
    match t with
    | c :: rest => c == d && matchesParts parts rest
    | [] => false
  | .one :: parts, t =>
    match t with
    | c :: rest => c != '/' && matchesParts parts rest
    | [] => false
  | .segment :: parts, t => Glob.skipWhile (· != '/') (matchesParts parts) t
  | .anything :: parts, t => Glob.skipWhile (· != '\n') (matchesParts parts) t
  | .directories :: parts, t =>
    let afterSlash := fun (u : List Char) =>
      match u with
      | c :: rest => c == '/' && matchesParts parts rest
      | [] => false
    matchesParts parts t || Glob.skipWhile (· != '\n') afterSlash t
  | .subtree :: parts, t =>
    matchesParts parts t ||
      match t with
      | c :: rest => c == '/' && Glob.skipWhile (· != '\n') (matchesParts parts) rest
      | [] => false

def pathGlobMatches (path pattern : List Char) : Bool :=
  matchesParts (globParts none [] pattern) path

example : pathGlobMatches "src/a/b.py".toList "src/**/*.py".toList = true := by decide

example : pathGlobMatches "src".toList "src/**".toList = true := by decide

/-- A pattern as it is compared on the request's platform. -/
def foldedFor (windows : Bool) (pattern : String) : List Char :=
  if windows then casefold pattern.toList else pattern.toList

/-- `normalize_command_pattern`. -/
def commandPatternFor (windows : Bool) (pattern : String) : List Char :=
  if windows then casefold (normalizeCommandText pattern.toList)
  else normalizeCommandText pattern.toList

def ruleMatches (rule : PermissionRule) (request : NormalizedRequest) : Bool :=
  (match rule.toolPattern with
    | some pattern => Glob.fnmatchcase request.toolName pattern.toList
    | none => true) &&
  (match rule.commandPattern with
    | some pattern =>
      match request.command with
      | some command => Glob.fnmatchcase command (commandPatternFor request.windows pattern)
      | none => false
    | none => true) &&
  match rule.pathPattern with
  | some pattern =>
    let matching := fun path => pathGlobMatches path (foldedFor request.windows pattern)
    !request.paths.isEmpty &&
      -- an allow must cover every path, a guard protects any of them
      if rule.effect = .allow then request.paths.all matching else request.paths.any matching
  | none => true

/-! ### Ranking -/

/-- A wildcard, as the ranking counts them. -/
def isWildcard (c : Char) : Bool := c == '*' || c == '?'

namespace PermissionRule

variable (rule : PermissionRule)

def patterns : List (List Char) :=
  ([rule.toolPattern, rule.pathPattern, rule.commandPattern].flatMap Option.toList).map
    String.toList

def selectorCount : Nat := rule.patterns.length

def exactCount : Nat := rule.patterns.countP fun pattern => !pattern.any isWildcard

def literalCount : Nat := (rule.patterns.map (List.countP fun c => !isWildcard c)).sum

def wildcardCount : Nat := (rule.patterns.map (List.countP isWildcard)).sum

/-- `_rule_specificity`. -/
def specificity : Int :=
  rule.selectorCount * 1000000 + rule.exactCount * 100000 + min rule.literalCount 9999 * 10 -
    min rule.wildcardCount 9

end PermissionRule

/-- At equal specificity, fail closed: deny, then ask, then allow. -/
def PolicyEffect.precedence : PolicyEffect → Nat
  | .allow => 0
  | .ask => 1
  | .deny => 2

/-- Ranks are compared part by part. -/
instance rankOrder : LinearOrder (Int ×ₗ ℕ ×ₗ Int) :=
  @Prod.Lex.instLinearOrder Int (ℕ ×ₗ Int) Int.instLinearOrder
    (@Prod.Lex.instLinearOrder ℕ Int Nat.instLinearOrder Int.instLinearOrder)

instance rankPreorder : Preorder (Int ×ₗ ℕ ×ₗ Int) := rankOrder.toPartialOrder.toPreorder

instance rankDecidable : DecidableLT (Int ×ₗ ℕ ×ₗ Int) := rankOrder.toDecidableLT

/-- What matching rules are compared by; earlier rules win what is left of a tie. -/
def rank (rule : PermissionRule) : Int ×ₗ ℕ ×ₗ Int :=
  toLex (rule.specificity, toLex (rule.effect.precedence, -(rule.order : Int)))

/-! ### Evaluating -/

/-- An override that applies to a request. -/
structure Candidate where
  effect : PolicyEffect
  reason : String
  ruleId : String

/-- The specificity of a built-in decision. -/
def builtinSpecificity : Int := 2147483647

namespace PermissionPolicy

variable (policy : PermissionPolicy)

variable (request : NormalizedRequest)

def candidates : List Candidate :=
  (if request.sensitive then
    [⟨policy.sensitiveOverride, "sensitive_resource_requires_approval", "override:sensitive"⟩]
  else []) ++
  if request.externalDirectory then
    [⟨policy.externalDirectoryOverride, "external_directory_requires_approval",
      "override:external_directory"⟩]
  else []

/-- `_evaluate_safety_overrides`: of two overrides a denial comes first, then the one for
what is sensitive. -/
def evaluateSafetyOverrides : Option PermissionEvaluation :=
  let key := fun (c : Candidate) =>
    toLex (decide (c.effect = .deny), decide (c.ruleId = "override:sensitive"))
  ((policy.candidates request).argmax key).map fun c =>
    { decision := c.effect
      reason := c.reason
      matchedRuleId := some c.ruleId
      matchedRuleSource := some "builtin_safety"
      specificity := builtinSpecificity }

def matching : List PermissionRule :=
  policy.listRules.filter (ruleMatches · request)

/-- What the matching rule of the highest rank decides. -/
def evaluateRules : PermissionEvaluation :=
  match (policy.matching request).argmax rank with
  | none =>
    { decision := .ask
      reason := "no_matching_rule"
      matchedRuleId := none
      matchedRuleSource := none
      specificity := 0 }
  | some winner =>
    { decision := winner.effect
      reason := "matched_rule"
      matchedRuleId := some winner.id
      matchedRuleSource := some winner.source
      specificity := winner.specificity }

def evaluate (host : Host) (request : PermissionRequest) :
    Except PermissionPolicyError PermissionEvaluation := do
  let normalized ← normalizeRequest host request
  match policy.evaluateSafetyOverrides normalized with
  | some safety => .ok safety
  | none => .ok (policy.evaluateRules normalized)

end PermissionPolicy

end AlysisCode.Permission
