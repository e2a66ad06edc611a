/-
What a call of a model used: the records, and the estimates of a request that stand in them.

Floats are a type with Python's operations on them, and the record of a call keeps the counts
as the integers that Python has; which of them are never negative is a theorem about the
builder, not part of the type.  Dicts that come from elsewhere carry that their keys are
distinct.
-/
import AlysisCode.Ide.Python
import AlysisCode.Library.JsonText

namespace AlysisCode.Usage

/-- Python's operations on floats. -/
class Arith (F : Type) extends Json.Floats F where
  ofInt : Int → F
  (add sub mul div : F → F → F)
  abs : F → F
  lt : F → F → Bool
  le : F → F → Bool
  ceil : F → Int

abbrev Members (F : Type) := List (String × Json F)

/-- A dict of JSON values: its keys are distinct, and so are those of the dicts in it. -/
def Dict (F : Type) := { members : Members F // (Json.obj members).Distinct }

/-- What the module asks its surroundings. -/
structure Host (F : Type) where
  python : Python F
  /-- `int` of a float and of a text; `none` is a `ValueError`. -/
  intOfFloat : F → Option Int
  intOfText : String → Option Int
  /-- `float` of a text. -/
  floatOfText : String → Option F
  casefold : String → String
  estimateTokens : String → Nat
  /-- `strip_provider_metadata_from_message` -/
  stripMetadata : Members F → Members F
  /-- `_normalize_message_content_for_estimation` -/
  normalizeContent : Json F → Json F

variable {F : Type}

/-- `json.dumps(…, ensure_ascii=False, sort_keys=True)` -/
def estimationStyle : Json.Style where
  ascii := false
  spaced := true
  sortKeys := true

/-- The same with `separators=(",", ":")`. -/
def stableStyle : Json.Style where
  ascii := false
  spaced := false
  sortKeys := true

/-! ### The tool schema budget -/

structure ToolSchemaBudgetEntry where
  name : String
  tokenEstimate : Int
  deriving DecidableEq

structure ToolSchemaBudgetReport where
  (toolCount totalTokens budgetTokens overBudgetTokens : Int)
  largestTools : List ToolSchemaBudgetEntry := []
  deriving DecidableEq

def ToolSchemaBudgetReport.overBudget (report : ToolSchemaBudgetReport) : Bool :=
  0 < report.overBudgetTokens

def defaultToolSchemaBudgetTokens : Nat := 8000

def defaultLargestToolCount : Nat := 5

/-- `str(value or "").strip()` -/
def label (python : Python F) (value : Json F) : String :=
  strip (python.text (python.orElse value (.str "")))

def toolName (python : Python F) (tool : Members F) (fallback : String) : String :=
  let functionName :=
    match Json.get tool "function" with
    | .obj function => label python (Json.get function "name")
    | _ => ""
  if functionName ≠ "" then functionName
  else
    let name := label python (Json.get tool "name")
    if name ≠ "" then name else fallback

/-- The key by which the largest tools come first. -/
def entryBefore (host : Host F) (a b : ToolSchemaBudgetEntry) : Bool :=
  b.tokenEstimate < a.tokenEstimate ||
    (a.tokenEstimate == b.tokenEstimate && decide (host.casefold a.name ≤ host.casefold b.name))

section Estimates

variable [Json.Floats F]

variable (host : Host F)

/-- The entries of `analyze_tool_schema_budget`, in the order of the tools. -/
def budgetEntries (tools : List (Members F)) : List ToolSchemaBudgetEntry :=
  tools.mapIdx fun index tool => {
    name := toolName host.python tool ("tool_" ++ toString (index + 1))
    tokenEstimate := host.estimateTokens (Json.dumps stableStyle (.obj tool)) }

def analyzeToolSchemaBudget (toolList : Option (List (Members F))) : ToolSchemaBudgetReport :=
  let tools := toolList.getD []
  let total := if tools.isEmpty then 0
    else host.estimateTokens (Json.dumps stableStyle (.arr (tools.map .obj)))
  { toolCount := tools.length
    totalTokens := total
    budgetTokens := defaultToolSchemaBudgetTokens
    overBudgetTokens := (total - defaultToolSchemaBudgetTokens : Nat)
    largestTools := ((budgetEntries host tools).mergeSort (entryBefore host)).take
      defaultLargestToolCount }

/-! ### The estimate of a request -/

structure RequestTokenBreakdown where
  (bootstrapPromptTokens toolSchemaTokens liveConversationHistoryTokens
    inlineToolTranscriptTokens memorySummaryTokens pinsTokens : Int := 0)
  toolSchemaBudget : Option ToolSchemaBudgetReport := none
  deriving DecidableEq

def RequestTokenBreakdown.totalTokens (b : RequestTokenBreakdown) : Int :=
  b.bootstrapPromptTokens + b.toolSchemaTokens + b.liveConversationHistoryTokens +
    b.inlineToolTranscriptTokens + b.memorySummaryTokens + b.pinsTokens

/-- `sanitize_messages_for_estimation`, of one message. -/
def sanitizeMessage (message : Members F) : Members F :=
  let copied := host.stripMetadata message
  Json.assign copied "content" (host.normalizeContent (Json.get copied "content"))

def sanitizeMessages (messages : List (Members F)) : List (Members F) :=
  messages.map (sanitizeMessage host)

def estimateMessageTokens (messages : List (Members F)) : Nat :=
  if messages.isEmpty then 0
  else host.estimateTokens
    (Json.dumps estimationStyle (.arr ((sanitizeMessages host messages).map .obj)))

def estimatePromptTokens (messages : List (Members F)) : Nat :=
  if messages.isEmpty then 0
  else host.estimateTokens
    (Json.dumps estimationStyle (.arr (messages.map fun m => .obj (host.stripMetadata m))))

/-- `_completion_payload_for_estimation` -/
def completionPayload (content : String) (toolCalls : List (Json F)) : String :=
  (if strip content ≠ "" then content else "") ++
    (if toolCalls.isEmpty then "" else "\n" ++ Json.dumps estimationStyle (.arr toolCalls))

def estimateCompletionTokens (content : String) (toolCalls : List (Json F)) : Nat :=
  let base := completionPayload content toolCalls
  if strip base = "" then 0 else host.estimateTokens base

def promptCharacterCount (messages : List (Members F)) (toolList : Option (List (Members F))) :
    Nat :=
  let prompt : Members F := [("messages", .arr (messages.map fun m => .obj (host.stripMetadata m)))]
  let tools : Members F :=
    match toolList with
    | some (tool :: rest) => [("tools", .arr ((tool :: rest).map .obj))]
    | _ => []
  (Json.dumps estimationStyle (.obj (prompt ++ tools))).length

variable (python : Python F)

def requestContainsMedia (messages : List (Members F)) : Bool :=
  messages.any fun message =>
    match Json.get message "content" with
    | .arr parts => parts.any fun part =>
      match part with
      | .obj members =>
        let kind := lower (label python (Json.get members "type"))
        kind ≠ "" && !(["text", "input_text", "output_text"].contains kind)
      | _ => false
    | _ => false

inductive MessageGroup where
  | memory
  | pins
  | inlineTool
  | bootstrap
  | liveHistory
  deriving DecidableEq

def memoryMarker : String := "<<<ALYSIS_CONVERSATION_MEMORY_JSON>>>"

def pinsMarker : String := "<<<ALYSIS_CONVERSATION_PINS_JSON>>>"

/-- `str(message.get(key) or "")` -/
def textOf (message : Members F) (key : String) : String :=
  python.text (python.orElse (Json.get message key) (.str ""))

/-- The list that a message of the request goes to. -/
def messageGroup (pinned index : Nat) (message : Members F) : MessageGroup :=
  let content :=
    match Json.get message "content" with
    | .str s => s
    | _ => ""
  let role := textOf python message "role"
  if role = "user" && content.startsWith memoryMarker then .memory
  else if role = "user" && content.startsWith pinsMarker then .pins
  else if role = "tool" || python.truthy (Json.get message "tool_calls") then .inlineTool
  else if index < pinned then .bootstrap
  else .liveHistory

def groupMessages (messages : List (Members F)) (pinned : Nat) (group : MessageGroup) :
    List (Members F) :=
  (messages.zipIdx.filter fun m => messageGroup host.python pinned m.2 m.1 = group).map (·.1)

def estimateRequestTokenBreakdown (messages : List (Members F))
    (toolList : Option (List (Members F))) (pinnedPrefixLen : Int) : RequestTokenBreakdown :=
  let sanitized := sanitizeMessages host messages
  let pinned := min pinnedPrefixLen.toNat sanitized.length
  let tokens (group : MessageGroup) : Int :=
    estimateMessageTokens host (groupMessages host sanitized pinned group)
  let budget := analyzeToolSchemaBudget host toolList
  { bootstrapPromptTokens := tokens .bootstrap
    toolSchemaTokens := budget.totalTokens
    liveConversationHistoryTokens := tokens .liveHistory
    inlineToolTranscriptTokens := tokens .inlineTool
    memorySummaryTokens := tokens .memory
    pinsTokens := tokens .pins
    toolSchemaBudget := some budget }

end Estimates

/-! ### Records -/

structure UsageRecord (F : Type) where
  (timestamp role requestedModel : String)
  responseModel : Option String
  (promptTokens completionTokens totalTokens : Int)
  (inputCostPerToken outputCostPerToken costUsd : Option F)
  usageSource : String
  billingMode : String := "metered_api"
  costSource : String := "unknown"
  providerCostUsd : Option F := none
  usageSourceDetail : String := "local_estimate"
  usageConfidence : String := "estimated"
  outputIncludesReasoning : Bool := true
  usageSchemaVersion : Int := 6
  (providerKey protocol baseUrlHost operation requestMode cacheStrategy : Option String := none)
  requestPlan : Option (Members F) := none
  requestHasMedia : Bool := false
  (cacheReadInputCostPerToken cacheCreationInputCostPerToken cacheCreation5mInputCostPerToken
    cacheCreation1hInputCostPerToken reasoningOutputCostPerToken : Option F := none)
  (cachedPromptTokens uncachedPromptTokens inputTokensUncached : Option Int := none)
  inputTokensUncachedDerived : Bool := false
  (cacheReadInputTokens cacheCreationInputTokens cacheCreation5mInputTokens
    cacheCreation1hInputTokens reasoningTokens : Option Int := none)
  rawProviderUsage : Option (Members F) := none
  cacheCostPricingMissing : Bool := false
  requestTokenEstimate : Option RequestTokenBreakdown := none
  promptEstimateTokens : Option Int := none
  promptEstimateErrorTokens : Option Int := none
  promptEstimateErrorRatio : Option F := none
  (rawApiPromptTokens rawApiCompletionTokens rawApiTotalTokens : Option Int := none)
  usageCorrectionReason : Option String := none

end AlysisCode.Usage
