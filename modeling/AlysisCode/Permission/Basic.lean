/-
The permission policy: rules, their selectors, and the file they are kept in.

A rule has up to three selectors, for the tool, the paths and the command of a request.  They
are normalised when a rule is granted and again when the file is read.  An operation of the
store reads the file, changes the policy and writes it back; a file that does not read as a
policy makes every operation raise.

The arguments of the operations are JSON values, like the members of the file: what is neither
a text nor `None` is refused the same way whatever it is.  The file is the JSON value its text
denotes.
-/
import AlysisCode.Ide.Common
import AlysisCode.Library.Casefold
import AlysisCode.Library.Json
import AlysisCode.Library.Runs

namespace AlysisCode.Permission

open Text

inductive PolicyEffect where
  | allow
  | ask
  | deny
  deriving DecidableEq, Repr

def PolicyEffect.value : PolicyEffect → String
  | .allow => "allow"
  | .ask => "ask"
  | .deny => "deny"

/-- `PolicyEffect(value)` of a text. -/
def PolicyEffect.ofValue (value : String) : Option PolicyEffect :=
  if value = "allow" then some .allow
  else if value = "ask" then some .ask
  else if value = "deny" then some .deny
  else none

/-- The errors of the policy; `value` is a bare `ValueError`. -/
inductive PermissionPolicyError where
  | validation (message : String)
  | corrupt
  | value
  deriving DecidableEq, Repr

def maxRules : Nat := 1000

def maxSelectorLength : Nat := 4096

def maxSourceLength : Nat := 128

structure PermissionRule where
  id : String
  effect : PolicyEffect
  order : Nat
  source : String
  (toolPattern pathPattern commandPattern : Option String := none)
  deriving DecidableEq

/-- An effect as a caller passes it: a member of the enumeration, or some value. -/
inductive EffectArg (F : Type) where
  | effect (e : PolicyEffect)
  | value (v : Json F)

variable {F : Type}

/-! ### Patterns -/

/-- `_CONTROL_CHARACTER_RE`. -/
def isControl (c : Char) : Bool := c.toNat ≤ 0x1F || c.toNat == 0x7F

/-- A lower-case hexadecimal digit. -/
def isHexDigit (c : Char) : Bool := c.isDigit || ('a' ≤ c && c ≤ 'f')

/-- `_RULE_ID_RE.fullmatch(value) is not None`. -/
def matchesRuleId (value : String) : Bool :=
  match value.toList with
  | 'p' :: 'r' :: '_' :: digits => digits.length == 32 && digits.all isHexDigit
  | _ => false

/-- `_WINDOWS_ABSOLUTE_RE.match(value) is not None`. -/
def windowsAbsolute : List Char → Bool
  | a :: b :: rest =>
    (a.isAlpha && b == ':' && (rest.head? == some '/' || rest.head? == some '\\')) ||
      ((a == '/' || a == '\\') && (b == '/' || b == '\\'))
  | _ => false

/-! ### Normalising and validating -/

def parseEffect : EffectArg F → Except PermissionPolicyError PolicyEffect
  | .effect e => .ok e
  | .value (.str s) =>
    match PolicyEffect.ofValue s with
    | some e => .ok e
    | none => .error (.validation "Permission rule effect is invalid.")
  | .value _ => .error (.validation "Permission rule effect is invalid.")

/-- The effect of a safety override, which never allows. -/
abbrev SafetyOverride := {e : PolicyEffect // e ≠ .allow}

def validateSafetyOverride (effect : EffectArg F) :
    Except PermissionPolicyError SafetyOverride := do
  let parsed ← parseEffect effect
  if h : parsed = .allow then .error (.validation "Safety overrides cannot allow access.")
  else .ok ⟨parsed, h⟩

def validateRuleId : Json F → Except PermissionPolicyError String
  | .str id =>
    if matchesRuleId id then .ok id else .error (.validation "Permission rule id is invalid.")
  | _ => .error (.validation "Permission rule id is invalid.")

def validateSource : Json F → Except PermissionPolicyError String
  | .str source =>
    let normalized := stripWhere isSpace source.toList
    if normalized.isEmpty || maxSourceLength < normalized.length || normalized.any isControl then
      .error (.validation "Permission rule source is invalid.")
    else .ok (String.ofList normalized)
  | _ => .error (.validation "Permission rule source is invalid.")

def validateSelector (value : List Char) (message : String) : Except PermissionPolicyError Unit :=
  if value.isEmpty || maxSelectorLength < value.length || value.contains '\x00' then
    .error (.validation message)
  else .ok ()

def normalizeToolPattern (value : List Char) : Except PermissionPolicyError (List Char) := do
  let normalized := casefold (stripWhere isSpace value)
  validateSelector normalized "Tool selector is invalid."
  if normalized.contains '/' || normalized.contains '\\' then
    .error (.validation "Tool selector is invalid.")
  else .ok normalized

/-- The text a path selector is normalised to, before it is validated. -/
def pathPatternText (value : List Char) : List Char :=
  let slashed := replaceBackslash (stripWhere isSpace value)
  dropDotSlashes (squeezeLoop '/' slashed.length slashed)

def normalizePathPattern (value : List Char) : Except PermissionPolicyError (List Char) := do
  let normalized := pathPatternText value
  validateSelector normalized "Path selector is invalid."
  if normalized.head? = some '/' || windowsAbsolute normalized then
    .error (.validation "Path selector must be workspace-relative.")
  else if (normalized.splitOn '/').contains ['.', '.'] then
    .error (.validation "Path selector must be workspace-relative.")
  else .ok normalized

/-- `value.replace("\r\n", "\n").replace("\r", "\n")`. -/
def replaceNewlines : List Char → List Char
  | '\r' :: '\n' :: rest => '\n' :: replaceNewlines rest
  | '\r' :: rest => '\n' :: replaceNewlines rest
  | c :: rest => c :: replaceNewlines rest
  | [] => []

/-- The loop of `_normalize_command_text`: the open quotation, whether its last character
escapes the next, whether whitespace is pending, and whether anything was written yet. -/
def commandTextFrom (quote : Option Char) (escaped separatorPending started : Bool) :
    List Char → List Char
  | [] => []
  | char :: rest =>
    match quote with
    | some q =>
      char :: (if escaped then commandTextFrom quote false separatorPending true rest
        else if char = '\\' ∧ q = '"' then commandTextFrom quote true separatorPending true rest
        else if char = q then commandTextFrom none false separatorPending true rest
        else commandTextFrom quote false separatorPending true rest)
    | none =>
      if isSpace char then commandTextFrom none escaped true started rest
      else
        let written :=
          char :: commandTextFrom (if char = '\'' ∨ char = '"' then some char else none)
            escaped false true rest
        if separatorPending && started then ' ' :: written else written

/-- `_normalize_command_text`: whitespace between the words of a command is one space,
whitespace in a quotation is kept. -/
def normalizeCommandText (value : List Char) : List Char :=
  commandTextFrom none false false false (replaceNewlines value)

def normalizeCommandPattern (value : List Char) : Except PermissionPolicyError (List Char) := do
  let normalized := normalizeCommandText value
  validateSelector normalized "Command selector is invalid."
  .ok normalized

/-- A selector that may be `None`, normalised. -/
def normalizeOptional (normalize : List Char → Except PermissionPolicyError (List Char))
    (message : String) : Json F → Except PermissionPolicyError (Option String)
  | .null => .ok none
  | .str value => do
    let normalized ← normalize value.toList
    .ok (some (String.ofList normalized))
  | _ => .error (.validation message)

def normalizeOptionalToolPattern : Json F → Except PermissionPolicyError (Option String) :=
  normalizeOptional normalizeToolPattern "Tool selector is invalid."

def normalizeOptionalPathPattern : Json F → Except PermissionPolicyError (Option String) :=
  normalizeOptional normalizePathPattern "Path selector is invalid."

def normalizeOptionalCommandPattern : Json F → Except PermissionPolicyError (Option String) :=
  normalizeOptional normalizeCommandPattern "Command selector is invalid."

/-- `None` or a text, as a JSON value. -/
def optionalText : Option String → Json F
  | none => .null
  | some value => .str value

/-! ### The policy -/

def validateRule (rule : PermissionRule) : Except PermissionPolicyError Unit := do
  let _ ← validateRuleId (.str rule.id : Json Unit)
  let _ ← validateSource (.str rule.source : Json Unit)
  let toolPattern ← normalizeOptionalToolPattern (optionalText rule.toolPattern : Json Unit)
  let pathPattern ← normalizeOptionalPathPattern (optionalText rule.pathPattern : Json Unit)
  let commandPattern ←
    normalizeOptionalCommandPattern (optionalText rule.commandPattern : Json Unit)
  if toolPattern.isNone && pathPattern.isNone && commandPattern.isNone then
    .error (.validation "A permission rule requires a selector.")
  else .ok ()

def validateRuleCollection (rules : List PermissionRule) : Except PermissionPolicyError Unit := do
  if maxRules < rules.length then
    .error (.validation "Permission policy contains too many rules.")
  else if ¬ (rules.map (·.id)).Nodup ∨ ¬ (rules.map (·.order)).Nodup then
    .error (.validation "Permission policy rule identity is invalid.")
  else rules.forM validateRule

theorem ask_ne_allow : PolicyEffect.ask ≠ .allow := by decide

structure PermissionPolicy where
  rules : List PermissionRule := []
  sensitiveOverride : SafetyOverride := ⟨.ask, ask_ne_allow⟩
  externalDirectoryOverride : SafetyOverride := ⟨.ask, ask_ne_allow⟩
  deriving DecidableEq

/-- `PermissionPolicy(rules, sensitive_override=…, external_directory_override=…)`. -/
def PermissionPolicy.create (rules : List PermissionRule) (sensitive external : EffectArg F) :
    Except PermissionPolicyError PermissionPolicy := do
  let sensitiveOverride ← validateSafetyOverride sensitive
  let externalDirectoryOverride ← validateSafetyOverride external
  validateRuleCollection rules
  .ok ⟨rules, sensitiveOverride, externalDirectoryOverride⟩

namespace PermissionPolicy

variable (policy : PermissionPolicy)

/-- `sorted(rules, key=lambda rule: rule.order)`. -/
def listRules : List PermissionRule :=
  policy.rules.insertionSort fun a b => a.order ≤ b.order

/-- `max(orders, default=-1) + 1`. -/
def nextOrder : Nat :=
  ((policy.rules.map (·.order)).max?.map (· + 1)).getD 0

/-- `PermissionPolicy.grant`; `hex` is the `uuid4().hex` it draws. -/
def grant (hex : String) (effect : EffectArg F)
    (toolPattern pathPattern commandPattern source : Json F) :
    Except PermissionPolicyError (PermissionRule × PermissionPolicy) := do
  let normalizedEffect ← parseEffect effect
  let normalizedTool ← normalizeOptionalToolPattern toolPattern
  let normalizedPath ← normalizeOptionalPathPattern pathPattern
  let normalizedCommand ← normalizeOptionalCommandPattern commandPattern
  let normalizedSource ← validateSource source
  if normalizedTool.isNone && normalizedPath.isNone && normalizedCommand.isNone then
    .error (.validation "A permission rule requires a selector.")
  else if maxRules ≤ policy.rules.length then
    .error (.validation "Permission policy contains too many rules.")
  else
    let rule : PermissionRule :=
      { id := "pr_" ++ hex
        effect := normalizedEffect
        order := policy.nextOrder
        source := normalizedSource
        toolPattern := normalizedTool
        pathPattern := normalizedPath
        commandPattern := normalizedCommand }
    .ok (rule, { policy with rules := policy.rules ++ [rule] })

def revoke (ruleId : Json F) : Except PermissionPolicyError (Bool × PermissionPolicy) := do
  let id ← validateRuleId ruleId
  .ok (policy.rules.any (·.id == id), { policy with rules := policy.rules.eraseP (·.id == id) })

/-- An override that is given replaces the old one; `None` leaves it. -/
def overrideOr (old : SafetyOverride) : EffectArg F → Except PermissionPolicyError SafetyOverride
  | .value .null => .ok old
  | effect => validateSafetyOverride effect

def setSafetyOverrides (sensitive external : EffectArg F) :
    Except PermissionPolicyError PermissionPolicy := do
  let sensitiveOverride ← overrideOr policy.sensitiveOverride sensitive
  let externalDirectoryOverride ← overrideOr policy.externalDirectoryOverride external
  .ok { policy with
    sensitiveOverride := sensitiveOverride
    externalDirectoryOverride := externalDirectoryOverride }

end PermissionPolicy

/-! ### The file -/

def ruleKeys : List String :=
  ["id", "effect", "order", "source", "tool_pattern", "path_pattern", "command_pattern"]

def PermissionRule.toStorageDict (rule : PermissionRule) : Json F :=
  .obj [("id", .str rule.id), ("effect", .str rule.effect.value), ("order", .int rule.order),
    ("source", .str rule.source), ("tool_pattern", optionalText rule.toolPattern),
    ("path_pattern", optionalText rule.pathPattern),
    ("command_pattern", optionalText rule.commandPattern)]

def PermissionPolicy.toStoragePayload (policy : PermissionPolicy) : Json F :=
  .obj [("schema_version", .int 1),
    ("safety_overrides", .obj [("sensitive", .str policy.sensitiveOverride.val.value),
      ("external_directory", .str policy.externalDirectoryOverride.val.value)]),
    ("rules", .arr (policy.listRules.map PermissionRule.toStorageDict))]

/-- The rule an `order` member gives: an integer that is not negative. -/
def orderFromPayload : Json F → Except PermissionPolicyError Nat
  | .int n => if n < 0 then .error .value else .ok n.toNat
  | _ => .error .value

def ruleFromPayload : Json F → Except PermissionPolicyError PermissionRule
  | .obj members => do
    if Json.hasKeys members ruleKeys then
      let id ← validateRuleId (Json.get members "id")
      let order ← orderFromPayload (Json.get members "order")
      let effect ← parseEffect (.value (Json.get members "effect"))
      let source ← validateSource (Json.get members "source")
      let toolPattern ← normalizeOptionalToolPattern (Json.get members "tool_pattern")
      let pathPattern ← normalizeOptionalPathPattern (Json.get members "path_pattern")
      let commandPattern ← normalizeOptionalCommandPattern (Json.get members "command_pattern")
      if toolPattern.isNone && pathPattern.isNone && commandPattern.isNone then .error .value
      else .ok ⟨id, effect, order, source, toolPattern, pathPattern, commandPattern⟩
    else .error .value
  | _ => .error .value

/-- `raw == 1` of a value that is no Boolean. -/
def isSchemaVersion [One F] [DecidableEq F] : Json F → Bool
  | .int n => n == 1
  | .float x => x == 1
  | _ => false

/-- The body of `_policy_from_payload`, before its errors become a corrupt policy. -/
def policyFromMembers [One F] [DecidableEq F] :
    Json F → Except PermissionPolicyError PermissionPolicy
  | .obj members =>
    if Json.hasKeys members ["schema_version", "safety_overrides", "rules"] &&
        isSchemaVersion (Json.get members "schema_version") then
      match Json.get members "safety_overrides", Json.get members "rules" with
      | .obj overrides, .arr rulesRaw =>
        if Json.hasKeys overrides ["sensitive", "external_directory"] &&
            rulesRaw.length ≤ maxRules then do
          let rules ← rulesRaw.mapM ruleFromPayload
          PermissionPolicy.create rules (.value (Json.get overrides "sensitive"))
            (.value (Json.get overrides "external_directory"))
        else .error .value
      | _, _ => .error .value
    else .error .value
  | _ => .error .value

def policyFromPayload [One F] [DecidableEq F] (raw : Json F) :
    Except PermissionPolicyError PermissionPolicy :=
  match policyFromMembers raw with
  | .ok policy => .ok policy
  | .error _ => .error .corrupt

/-! ### The store

The state of the store is its file, if there is one.
-/

/-- `_load_policy_from_path`. -/
def load [One F] [DecidableEq F] : Option (Json F) → Except PermissionPolicyError PermissionPolicy
  | none => .ok {}
  | some raw => policyFromPayload raw

/-- `_save_policy_to_path`. -/
def save (policy : PermissionPolicy) : Option (Json F) := some policy.toStoragePayload

/-- What `uuid4().hex` draws. -/
def UuidHex := {hex : String // hex.toList.length = 32 ∧ hex.toList.all isHexDigit = true}

/-- An operation of the store, with its arguments. -/
inductive Op (F : Type) where
  | grant (hex : UuidHex) (effect : EffectArg F)
      (toolPattern pathPattern commandPattern source : Json F)
  | revoke (ruleId : Json F)
  | setSafetyOverrides (sensitive external : EffectArg F)

/-- What an operation returns. -/
inductive Answer where
  | rule (r : PermissionRule)
  | removed (b : Bool)
  | done

/-- `PermissionPolicyStore.grant`, `revoke` and `set_safety_overrides`: the answer, the policy
object the operation leaves behind, and the file. -/
def exec [One F] [DecidableEq F] (op : Op F) (file : Option (Json F)) :
    Except PermissionPolicyError ((Answer × PermissionPolicy) × Option (Json F)) := do
  let policy ← load file
  match op with
  | .grant hex effect toolPattern pathPattern commandPattern source =>
    let (rule, policy') ← policy.grant hex.val effect toolPattern pathPattern commandPattern source
    .ok ((.rule rule, policy'), save policy')
  | .revoke ruleId =>
    let (removed, policy') ← policy.revoke ruleId
    .ok ((.removed removed, policy'), if removed then save policy' else file)
  | .setSafetyOverrides sensitive external =>
    let policy' ← policy.setSafetyOverrides sensitive external
    .ok ((.done, policy'), save policy')

end AlysisCode.Permission
