/-
The session scope of an approval request.

A caller of an approval may propose a scope for which the answer is to hold: a dict, with
values of any kind.  `approvalSessionScopeForRequest` reports a scope of its own, built from
what it has checked, and a key; what it cannot check it reports as unsupported.

`int` of a text or a float and SHA-256 are the host's.
-/
import AlysisCode.Ide.Python
import AlysisCode.Library.JsonText
import AlysisCode.Permission.Evaluate

namespace AlysisCode.Approval

open Permission (isHexDigit)

/-- How `int(value)` fails: a `TypeError` or `ValueError`, or an `OverflowError`. -/
inductive IntError where
  | value
  | overflow
  deriving DecidableEq

structure Host (F : Type) extends Python F where
  /-- `int(value)` of a text or a float. -/
  int : Json F → Except IntError Int
  /-- `hashlib.sha256(text.encode()).hexdigest()` -/
  sha256 : String → String

variable {F : Type}

/-! ### Requests and reports -/

structure ApprovalRequest (F : Type) where
  kind : String
  files : List String := []
  command : Option String := none
  metadata : List (String × Json F) := []
  allowForSessionScope : Option (List (String × Json F)) := none

structure ApprovalSessionScope (F : Type) where
  supported : Bool
  scope : Option (List (String × Json F))
  key : Option String
  warning : Option String

def scopeExactCommandHash : String := "exact_command_hash"

def scopeExactFileSet : String := "exact_file_set"

def scopeExactVerifyCommandSet : String := "exact_verify_command_set"

def scopeExplicitBackendSafeKind : String := "explicit_backend_safe_kind"

def supportedApprovalScopes : List String :=
  [scopeExactCommandHash, scopeExactFileSet, scopeExactVerifyCommandSet,
    scopeExplicitBackendSafeKind]

def fileScopeKinds : List String :=
  ["fs_write", "fs_edit", "fs_move", "fs_copy", "fs_delete", "fs_mkdir", "git_apply_patch"]

def commandScopeKinds : List String := ["shell_run", "shell_background"]

def isCommandLikeKind (kind : String) : Bool :=
  commandScopeKinds.contains kind || "custom_tool_run:".toList.isPrefixOf kind.toList ||
    "mcp_".toList.isPrefixOf kind.toList || "mcp_tool_run:".toList.isPrefixOf kind.toList

/-- `str(request.kind or "approval")` -/
def ApprovalRequest.scopeKind (request : ApprovalRequest F) : String :=
  if request.kind = "" then "approval" else request.kind

/-- The scope a request proposes: its own, or one among its metadata. -/
def ApprovalRequest.rawScope (request : ApprovalRequest F) : Option (List (String × Json F)) :=
  match request.allowForSessionScope with
  | some scope => some scope
  | none =>
    match Json.get request.metadata "allow_for_session_scope" with
    | .obj scope => some scope
    | _ => none

/-- `ensure_ascii=True, sort_keys=True, separators=(",", ":")` -/
def canonical : Json.Style where
  ascii := true
  spaced := false
  sortKeys := true

/-- `_SHA256_PATTERN.fullmatch(value) is not None`. -/
def matchesSha256 (value : String) : Bool :=
  value.toList.length == 64 && value.toList.all isHexDigit

/-- `str(file).strip().replace("\\", "/")` -/
def normalizeFile (file : String) : String := (strip file).map fun c => if c = '\\' then '/' else c

def normalizeFiles (files : List String) : List String :=
  (Runs.firsts id ((files.map normalizeFile).filter (· ≠ ""))).insertionSort (· ≤ ·)

/-! ### The scopes that are reported -/

section Members

def commandHashMembers (kind commandHash : String) : List (String × Json F) :=
  [("type", .str scopeExactCommandHash), ("algorithm", .str "sha256"), ("kind", .str kind),
    ("command_hash", .str commandHash)]

def fileSetMembers (kind operation filesHash : String) (files : List String) :
    List (String × Json F) :=
  [("type", .str scopeExactFileSet), ("algorithm", .str "sha256"), ("kind", .str kind),
    ("operation", .str operation), ("files_hash", .str filesHash),
    ("file_count", .int files.length), ("files", .arr (files.map .str))]

def verifyCommandSetMembers (kind commandsHash : String) (commandCount : Int) :
    List (String × Json F) :=
  [("type", .str scopeExactVerifyCommandSet), ("algorithm", .str "sha256"), ("kind", .str kind),
    ("commands_hash", .str commandsHash), ("command_count", .int commandCount)]

def safeKindMembers (kind safeKind : String) : List (String × Json F) :=
  [("type", .str scopeExplicitBackendSafeKind), ("kind", .str kind), ("safe_kind", .str safeKind)]

end Members

variable [Floats : Json.Floats F]

def supported (scope : List (String × Json F)) : ApprovalSessionScope F where
  supported := true
  scope := some scope
  key := some (Json.dumps canonical (.obj scope))
  warning := none

omit Floats in
/-- Every warning begins the same way. -/
def unsupported (why : String) : ApprovalSessionScope F where
  supported := false
  scope := none
  key := none
  warning := some ("Allow for session is unavailable because " ++ why)

variable (host : Host F)

def sha256Json (v : Json F) : String := host.sha256 (Json.dumps canonical v)

omit Floats in
def positiveInt (host : Host F) : Json F → Except IntError (Option Int)
  | .bool _ => .ok none
  | .int n => .ok (if 0 < n then some n else none)
  | .null | .arr _ | .obj _ => .ok none
  | v =>
    match host.int v with
    | .ok n => .ok (if 0 < n then some n else none)
    | .error .value => .ok none
    | .error .overflow => .error .overflow

/-! ### One function for each type of scope -/

def commandHashScope (kind : String) (rawScope : List (String × Json F)) (command : Option String) :
    ApprovalSessionScope F :=
  let commandHash :=
    lower (strip (host.text (host.orElse (Json.get rawScope "command_hash") (.str ""))))
  if ¬matchesSha256 commandHash then unsupported "the command scope is malformed."
  else if command.any (host.sha256 · != commandHash) then
    unsupported "the command scope does not match the approval request."
  else supported (commandHashMembers kind commandHash)

def fileSetScope (kind : String) (rawScope : List (String × Json F)) (files : List String) :
    ApprovalSessionScope F :=
  let filesHash := lower (strip (host.text (host.orElse (Json.get rawScope "files_hash") (.str ""))))
  let normalizedFiles := normalizeFiles files
  if ¬matchesSha256 filesHash then unsupported "the file scope is malformed."
  else if normalizedFiles = [] then unsupported "file approvals require at least one scoped file."
  else if sha256Json host (.arr (normalizedFiles.map .str)) ≠ filesHash then
    unsupported "the file scope does not match the approval request."
  else
    let operation := host.text (host.orElse (Json.get rawScope "operation") (.str kind))
    supported (fileSetMembers kind operation filesHash normalizedFiles)

def verifyCommandSetScope (kind : String) (rawScope : List (String × Json F)) :
    Except IntError (ApprovalSessionScope F) :=
  let commandsHash :=
    lower (strip (host.text (host.orElse (Json.get rawScope "commands_hash") (.str ""))))
  if ¬matchesSha256 commandsHash then .ok (unsupported "the verification scope is malformed.")
  else
    match positiveInt host (Json.get rawScope "command_count") with
    | .error e => .error e
    | .ok none => .ok (unsupported "the verification scope is missing its command count.")
    | .ok (some commandCount) =>
      .ok (supported (verifyCommandSetMembers kind commandsHash commandCount))

def explicitBackendSafeKindScope (kind : String) (rawScope : List (String × Json F)) :
    ApprovalSessionScope F :=
  let safeKind := strip (host.text (host.orElse (Json.get rawScope "safe_kind") (.str "")))
  match Json.get rawScope "backend_owned" with
  | .bool true =>
    if safeKind ≠ kind then unsupported "the backend safe-kind scope is malformed."
    else supported (safeKindMembers kind safeKind)
  | _ => unsupported "the backend safe-kind scope is malformed."

/-- The type of scope that a kind asks for, and what is said when it is another. -/
def requiredScope (kind : String) : String × String :=
  if isCommandLikeKind kind then
    (scopeExactCommandHash, "command approvals require an exact command hash scope.")
  else if kind = "verify_run" then
    (scopeExactVerifyCommandSet,
      "verification approvals require an exact verification command set scope.")
  else if fileScopeKinds.contains kind then
    (scopeExactFileSet, "file approvals require an exact file set scope.")
  else
    (scopeExplicitBackendSafeKind, "this approval kind is not backend-marked as session safe.")

def approvalSessionScopeForRequest (request : ApprovalRequest F) :
    Except IntError (ApprovalSessionScope F) :=
  let kind := request.scopeKind
  match request.rawScope with
  | none => .ok (unsupported "this approval did not include an exact safe scope.")
  | some rawScope =>
    let scopeType := strip (host.text (host.orElse
      (host.orElse (Json.get rawScope "type") (Json.get rawScope "scope_type")) (.str "")))
    if ¬supportedApprovalScopes.contains scopeType then
      .ok (unsupported "the approval scope is unsupported.")
    else if scopeType ≠ (requiredScope kind).1 then .ok (unsupported (requiredScope kind).2)
    else if scopeType = scopeExactCommandHash then
      .ok (commandHashScope host kind rawScope request.command)
    else if scopeType = scopeExactFileSet then
      .ok (fileSetScope host kind rawScope request.files)
    else if scopeType = scopeExactVerifyCommandSet then verifyCommandSetScope host kind rawScope
    else .ok (explicitBackendSafeKindScope host kind rawScope)

end AlysisCode.Approval

/-! ### Session grants

Session grants: approval scopes that were allowed until the end of the session.

A grant keeps the kind, folded, and the fingerprint of the whole scope.  It is evaluated by
comparing both.
-/

namespace AlysisCode.Approval

open Permission Runs Text

structure SessionPermissionGrant where
  (id kind scopeType source scopeFingerprint : String)
  deriving DecidableEq

variable {F : Type}

/-- `_SESSION_GRANT_ID_RE.fullmatch(value) is not None`. -/
def matchesSessionGrantId (value : String) : Bool :=
  match value.toList with
  | 's' :: 'g' :: '_' :: digits => digits.length == 32 && digits.all isHexDigit
  | _ => false

variable (host : Host F)

/-- `str(scope.get(key) or "")` -/
def field (scope : List (String × Json F)) (key : String) : String :=
  host.text (host.orElse (Json.get scope key) (.str ""))

/-- What a scope of its type must contain. -/
def validScope (scope : List (String × Json F)) : Bool :=
  let scopeType := field host scope "type"
  if ¬supportedApprovalScopes.contains scopeType then false
  else if scopeType = "exact_command_hash" then matchesSha256 (field host scope "command_hash")
  else if scopeType = "exact_file_set" then
    matchesSha256 (field host scope "files_hash") &&
      match Json.get scope "files" with
      | .arr files => !files.isEmpty
      | _ => false
  else if scopeType = "exact_verify_command_set" then
    matchesSha256 (field host scope "commands_hash")
  else
    (match Json.get scope "backend_owned" with
      | .bool owned => owned
      | _ => false) && field host scope "safe_kind" != ""

def sessionSafetyEvaluation (reason ruleId : String) : PermissionEvaluation where
  decision := .ask
  reason := reason
  matchedRuleId := some ruleId
  matchedRuleSource := some "builtin_safety"
  specificity := 2147483647

variable [Json.Floats F]

def validatedScopeFingerprint (scope : List (String × Json F)) :
    Except PermissionPolicyError (String × String) :=
  if validScope host scope then
    .ok (field host scope "type", host.sha256 (Json.dumps canonical (.obj scope)))
  else .error (.validation "Approval session scope is invalid.")

/-! ### The adapter -/

def findGrant (grants : List SessionPermissionGrant) (kind fingerprint : String) :
    Option SessionPermissionGrant :=
  grants.find? fun grant => grant.kind == kind && grant.scopeFingerprint == fingerprint

/-- `grant`, with the hexadecimal digits of a new UUID. -/
def grant (host : Host F) (hex kind : String) (scope : List (String × Json F)) (source : String)
    (grants : List SessionPermissionGrant) :
    Except PermissionPolicyError (SessionPermissionGrant × List SessionPermissionGrant) := do
  let normalizedKind ← validateKind kind
  let fingerprint ← validatedScopeFingerprint host scope
  let declaredKind := casefold (stripWhere isSpace (field host scope "kind").toList)
  if declaredKind ≠ [] ∧ declaredKind ≠ normalizedKind then
    .error (.validation "Approval session scope kind does not match.")
  else do
    let normalizedSource ← validateSource (.str source : Json F)
    match findGrant grants (String.ofList normalizedKind) fingerprint.2 with
    | some grant => .ok (grant, grants)
    | none =>
      let grant : SessionPermissionGrant :=
        { id := "sg_" ++ hex
          kind := String.ofList normalizedKind
          scopeType := fingerprint.1
          source := normalizedSource
          scopeFingerprint := fingerprint.2 }
      .ok (grant, grants ++ [grant])

/-- `grant_approval_scope`; a kind of `none` or `""` is read off the scope. -/
def grantApprovalScope (hex : String) (approvalScope : ApprovalSessionScope F)
    (kind : Option String) (source : String) (grants : List SessionPermissionGrant) :
    Except PermissionPolicyError (SessionPermissionGrant × List SessionPermissionGrant) :=
  match approvalScope.supported, approvalScope.scope with
  | true, some scope =>
    let declaredKind := host.text (host.orElse
      (host.orElse (Json.get scope "kind") (Json.get scope "safe_kind")) (.str ""))
    let resolvedKind := if kind.getD "" = "" then declaredKind else kind.getD ""
    grant host hex resolvedKind scope source grants
  | _, _ => .error (.validation "Approval session scope is not safe to grant.")

def revoke (grantId : String) (grants : List SessionPermissionGrant) :
    Except PermissionPolicyError (Bool × List SessionPermissionGrant) :=
  if ¬matchesSessionGrantId grantId then .error (.validation "Session grant id is invalid.")
  else .ok (grants.any (·.id == grantId), grants.eraseP (·.id == grantId))

def evaluate (kind : String) (scope : List (String × Json F)) (sensitive externalDirectory : Bool)
    (grants : List SessionPermissionGrant) :
    Except PermissionPolicyError PermissionEvaluation :=
  if sensitive then
    .ok (sessionSafetyEvaluation "sensitive_resource_requires_approval" "override:sensitive")
  else if externalDirectory then
    .ok (sessionSafetyEvaluation "external_directory_requires_approval"
      "override:external_directory")
  else do
    let normalizedKind ← validateKind kind
    let fingerprint ← validatedScopeFingerprint host scope
    match findGrant grants (String.ofList normalizedKind) fingerprint.2 with
    | some grant =>
      .ok {
        decision := .allow
        reason := "session_exact_grant"
        matchedRuleId := some grant.id
        matchedRuleSource := some grant.source
        specificity := 2000000000 }
    | none =>
      .ok {
        decision := .ask
        reason := "session_grant_not_found"
        matchedRuleId := none
        matchedRuleSource := none
        specificity := 0 }

inductive Call (F : Type) where
  | grant (hex kind : String) (scope : List (String × Json F)) (source : String)
  | grantApprovalScope (hex : String) (approvalScope : ApprovalSessionScope F)
      (kind : Option String) (source : String)
  | revoke (grantId : String)

inductive Answer where
  | granted (grant : SessionPermissionGrant)
  | revoked (found : Bool)

def exec : Call F → List SessionPermissionGrant →
    Except PermissionPolicyError (Answer × List SessionPermissionGrant)
  | .grant hex kind scope source, grants => do
    let out ← grant host hex kind scope source grants
    .ok (.granted out.1, out.2)
  | .grantApprovalScope hex approvalScope kind source, grants => do
    let out ← grantApprovalScope host hex approvalScope kind source grants
    .ok (.granted out.1, out.2)
  | .revoke grantId, grants => do
    let out ← revoke grantId grants
    .ok (.revoked out.1, out.2)

abbrev History (init : List SessionPermissionGrant)
    (trace : List (Call F × Except PermissionPolicyError Answer))
    (grants : List SessionPermissionGrant) : Prop :=
  Run (Commit (exec host)) init trace grants

end AlysisCode.Approval
