/-
`build_usage_record`: from the counts that a provider reports to the record of the call.

The builder decides which counts to believe, fills in what was not reported, prices the call and
says where each figure comes from.
-/
import AlysisCode.Usage.Basic

namespace AlysisCode.Usage

variable {F : Type}

/-! ### Sanitizers -/

/-- `_safe_int`, of a value that is a count or nothing. -/
def safeCount : Option Int → Option Int
  | some n => if n < 0 then none else some n
  | none => none

variable (host : Host F)

def safeInt : Json F → Option Int
  | .int n => safeCount (some n)
  | .bool b => some (if b then 1 else 0)
  | .float x => safeCount (host.intOfFloat x)
  | .str s => safeCount (host.intOfText s)
  | _ => none

def safeLabel (python : Python F) (value : Json F) : Option String :=
  let text := label python value
  if text = "" then none else some text

/-- `_safe_label`, of a text or nothing. -/
def safeText : Option String → Option String
  | some s => stripped s
  | none => none

def planLabels : List String :=
  ["input_mode", "continuation_strategy", "cache_strategy", "cache_mode", "cacheable_prefix_hash",
    "request_messages_signature", "tool_schema_hash"]

def planFlags : List String := ["previous_response_id_used", "fallback_used", "stream"]

def planCounts : List String :=
  ["schema_version", "message_count", "request_message_count", "tool_count",
    "stable_prefix_message_count", "dynamic_suffix_message_count",
    "provider_metadata_message_count", "stable_prefix_estimated_tokens",
    "dynamic_suffix_estimated_tokens", "tool_schema_tokens", "total_estimated_tokens",
    "serialized_request_estimate_tokens", "sent_serialized_request_estimate_tokens",
    "full_input_item_count", "sent_input_item_count", "continuation_anchor_index",
    "resent_stable_instruction_count"]

/-- The members that `_safe_request_plan_payload` keeps. -/
def planMembers (payload : Members F) : Members F :=
  planLabels.filterMap (fun key =>
      (safeLabel host.python (Json.get payload key)).map fun s => (key, .str s)) ++
    planFlags.filterMap (fun key =>
      (payload.lookup key).map fun v => (key, .bool (host.python.truthy v))) ++
    planCounts.filterMap (fun key =>
      (safeInt host (Json.get payload key)).map fun n => (key, .int n))

theorem map_fst_filterMap {α : Type} (keys : List String) (f : String → Option α) :
    ((keys.filterMap fun key => (f key).map fun v => (key, v)).map (·.1)).Sublist keys := by
  induction keys with
  | nil => exact List.Sublist.refl _
  | cons key keys ih =>
    rw [List.filterMap_cons]
    cases f key with
    | none => exact ih.trans (List.sublist_cons_self _ _)
    | some v => exact ih.cons_cons key

theorem nodup_planKeys : (planLabels ++ planFlags ++ planCounts).Nodup := by decide +kernel

theorem distinct_planMembers (payload : Members F) :
    (Json.obj (planMembers host payload)).Distinct := by
  refine .obj ?_ ?_
  · refine List.Nodup.sublist ?_ nodup_planKeys
    unfold planMembers
    rw [List.map_append, List.map_append]
    refine List.Sublist.append (List.Sublist.append ?_ ?_) ?_
    · have h := map_fst_filterMap planLabels fun key =>
        (safeLabel host.python (Json.get payload key)).map (Json.str (F := F))
      simpa [Option.map_map, Function.comp_def] using h
    · have h := map_fst_filterMap planFlags fun key =>
        (payload.lookup key).map fun v => Json.bool (F := F) (host.python.truthy v)
      simpa [Option.map_map, Function.comp_def] using h
    · have h := map_fst_filterMap planCounts fun key =>
        (safeInt host (Json.get payload key)).map (Json.int (F := F))
      simpa [Option.map_map, Function.comp_def] using h
  · intro m hm
    unfold planMembers at hm
    simp only [List.mem_append, List.mem_filterMap, Option.map_eq_some_iff] at hm
    obtain (⟨_, -, _, -, rfl⟩ | ⟨_, -, _, -, rfl⟩) | ⟨_, -, _, -, rfl⟩ := hm
    · exact .str
    · exact .bool
    · exact .int

/-- `_safe_request_plan_payload` -/
def safeRequestPlan (payload : Option (Members F)) : Option (Members F) :=
  payload.bind fun payload =>
    if (planMembers host payload).isEmpty then none else some (planMembers host payload)

/-- `str(plan.get(key)) if plan and plan.get(key) else None` -/
def planText (python : Python F) (plan : Option (Members F)) (key : String) : Option String :=
  plan.bind fun plan =>
    if python.truthy (Json.get plan key) then some (python.text (Json.get plan key)) else none

/-! ### What a provider reports -/

structure LLMUsage (F : Type) where
  (promptTokens completionTokens totalTokens : Option Int)
  cachedPromptTokens : Option Int := none
  inputTokensUncached : Option Int := none
  inputTokensUncachedDerived : Bool := false
  (cacheReadInputTokens cacheCreationInputTokens cacheCreation5mInputTokens
    cacheCreation1hInputTokens reasoningTokens : Option Int := none)
  providerCostUsd : Option F := none
  rawProviderUsage : Option (Dict F) := none
  outputIncludesReasoning : Bool := true
  totalIncludesReasoning : Bool := true

def LLMUsage.normalized (usage : LLMUsage F) : LLMUsage F :=
  let reasoning := usage.reasoningTokens.getD 0
  { usage with
    completionTokens := if 0 < reasoning && !usage.outputIncludesReasoning then
      usage.completionTokens.map (· + reasoning) else usage.completionTokens
    totalTokens := if 0 < reasoning && !usage.totalIncludesReasoning then
      usage.totalTokens.map (· + reasoning) else usage.totalTokens
    outputIncludesReasoning := true
    totalIncludesReasoning := true }

/-- The prices of a model. -/
structure ModelMeta (F : Type) where
  (inputCostPerToken outputCostPerToken cacheReadInputCostPerToken
    cacheCreationInputCostPerToken cacheCreation5mInputCostPerToken
    cacheCreation1hInputCostPerToken reasoningOutputCostPerToken : Option F := none)

/-- The arguments of `build_usage_record`, with `now_iso()`. -/
structure Call (F : Type) where
  (timestamp role requestedModel : String)
  responseModel : Option String := none
  messages : List (Members F) := []
  responseContent : String := ""
  responseToolCalls : List (Json F) := []
  (apiPromptTokens apiCompletionTokens apiTotalTokens : Option Int := none)
  registry : String → ModelMeta F
  apiUsage : Option (LLMUsage F) := none
  apiCachedPromptTokens : Option Int := none
  apiInputTokensUncached : Option Int := none
  apiInputTokensUncachedDerived : Option Bool := none
  (apiCacheReadInputTokens apiCacheCreationInputTokens apiCacheCreation5mInputTokens
    apiCacheCreation1hInputTokens apiReasoningTokens : Option Int := none)
  apiProviderCostUsd : Option F := none
  apiRawProviderUsage : Option (Dict F) := none
  toolList : Option (List (Members F)) := none
  pinnedPrefixLen : Int := 0
  (providerKey protocol baseUrlHost operation requestMode cacheStrategy : Option String := none)
  requestPlan : Option (Members F) := none
  apiUsageCountsAuthoritative : Bool := false
  apiPromptTokensAuthoritative : Option Bool := none
  apiUsageConfidence : String := "reported"
  apiUsageSourceDetail : String := "provider_response"
  apiOutputIncludesReasoning : Bool := true
  billingMode : String := "metered_api"

/-- The arguments after those that are missing are taken from `api_usage`. -/
def Call.withUsage (call : Call F) : Call F :=
  match call.apiUsage with
  | none => call
  | some reported =>
    let usage := reported.normalized
    { call with
      apiOutputIncludesReasoning := usage.outputIncludesReasoning
      apiCompletionTokens := if reported.outputIncludesReasoning then call.apiCompletionTokens
        else usage.completionTokens
      apiTotalTokens := if reported.totalIncludesReasoning then call.apiTotalTokens
        else usage.totalTokens
      apiCachedPromptTokens := call.apiCachedPromptTokens.or usage.cachedPromptTokens
      apiInputTokensUncached := call.apiInputTokensUncached.or usage.inputTokensUncached
      apiInputTokensUncachedDerived :=
        if call.apiInputTokensUncached.isNone then
          call.apiInputTokensUncachedDerived.or (some usage.inputTokensUncachedDerived)
        else call.apiInputTokensUncachedDerived
      apiCacheReadInputTokens := call.apiCacheReadInputTokens.or usage.cacheReadInputTokens
      apiCacheCreationInputTokens :=
        call.apiCacheCreationInputTokens.or usage.cacheCreationInputTokens
      apiCacheCreation5mInputTokens :=
        call.apiCacheCreation5mInputTokens.or usage.cacheCreation5mInputTokens
      apiCacheCreation1hInputTokens :=
        call.apiCacheCreation1hInputTokens.or usage.cacheCreation1hInputTokens
      apiReasoningTokens := call.apiReasoningTokens.or usage.reasoningTokens
      apiProviderCostUsd := call.apiProviderCostUsd.or usage.providerCostUsd
      apiRawProviderUsage := call.apiRawProviderUsage.or usage.rawProviderUsage }

/-! ### Counts -/

def looksLikeCharacterCount (apiCount estimatedTokens characterCount : Int) : Bool :=
  if apiCount ≤ 0 ∨ estimatedTokens ≤ 0 then false
  else if characterCount ≤ 0 then
    decide (estimatedTokens * 3 ≤ apiCount ∧ estimatedTokens + 256 ≤ apiCount)
  else
    let minimumDelta := if characterCount < 2048 then 64 else 256
    -- 2.75 is eleven quarters, and 0.15 of the characters are rounded down.
    decide (estimatedTokens * 11 ≤ apiCount * 4 ∧ estimatedTokens + minimumDelta ≤ apiCount ∧
      |apiCount - characterCount| ≤ max 16 (characterCount * 15 / 100))

def resolveTotalTokens (apiTotal promptTokens completionTokens characterCount : Int) :
    Int × Option String :=
  let expectedTotal := promptTokens + completionTokens
  if apiTotal < expectedTotal then (expectedTotal, some "api_usage_total_below_component_sum")
  else if looksLikeCharacterCount apiTotal expectedTotal characterCount then
    (expectedTotal, some "api_usage_looked_like_character_counts:total_tokens")
  else (apiTotal, none)

structure Counts where
  (promptTokens completionTokens totalTokens : Int)
  usageSource : String
  correctedFields : List String
  totalCorrectionReason : Option String

section Counts

variable [Json.Floats F]

variable (host : Host F) (call : Call F)

/-- `fallback_prompt_estimate_tokens` -/
def fallbackPromptEstimate : Int :=
  let estimate := estimateRequestTokenBreakdown host call.messages call.toolList
    call.pinnedPrefixLen
  let provider := (safeRequestPlan host call.requestPlan).bind fun plan =>
    safeInt host (Json.get plan "serialized_request_estimate_tokens")
  provider.getD (if estimate.totalTokens ≠ 0 then estimate.totalTokens
      else estimatePromptTokens host call.messages)

def promptMeasurementSource : String := strip call.apiUsageSourceDetail

/-- The prompt tokens, the source so far, and whether they were corrected. -/
def promptCount : Int × String × List String :=
  let fallback := fallbackPromptEstimate host call
  let isLocal := promptMeasurementSource call = "local_estimate"
  match safeCount call.apiPromptTokens with
  | none => (fallback, "estimate", [])
  | some reported =>
    if promptMeasurementSource call = "provider_response" && !call.apiUsageCountsAuthoritative &&
        looksLikeCharacterCount reported fallback
          (promptCharacterCount host call.messages call.toolList) then
      (fallback, "estimate", ["prompt_tokens"])
    else (reported, if isLocal then "estimate" else "api", [])

/-- The completion tokens, with the source and the corrections so far. -/
def completionCount (source : String) (corrected : List String) : Int × String × List String :=
  let estimate : Int :=
    estimateCompletionTokens host call.responseContent call.responseToolCalls
  match safeCount call.apiCompletionTokens with
  | none => (estimate, "estimate", corrected)
  | some reported =>
    if !call.apiUsageCountsAuthoritative &&
        !(decide (0 < (safeCount call.apiReasoningTokens).getD 0)) &&
        looksLikeCharacterCount reported estimate
          (completionPayload call.responseContent call.responseToolCalls).length then
      (estimate, "estimate", corrected ++ ["completion_tokens"])
    else (reported, source, corrected)

def resolveCounts : Counts :=
  let (promptTokens, source, corrected) := promptCount host call
  let (completionTokens, source, corrected) := completionCount host call source corrected
  let counts : Counts := {
    promptTokens := promptTokens
    completionTokens := completionTokens
    totalTokens := promptTokens + completionTokens
    usageSource := source
    correctedFields := corrected
    totalCorrectionReason := none }
  match safeCount call.apiTotalTokens with
  | none => counts
  | some reported =>
    if source = "estimate" then counts
    else if call.apiUsageCountsAuthoritative then { counts with totalTokens := reported }
    else
      let (total, reason) := resolveTotalTokens reported promptTokens completionTokens
        (promptCharacterCount host call.messages call.toolList +
          (completionPayload call.responseContent call.responseToolCalls).length)
      { counts with
        totalTokens := total
        correctedFields := if reason.isSome then corrected ++ ["total_tokens"] else corrected
        totalCorrectionReason := reason }

variable (counts : Counts)

/-- `usage_correction_reason` -/
def Counts.correctionReason : Option String :=
  let characters := counts.correctedFields.filter fun field =>
    field = "prompt_tokens" || field = "completion_tokens"
  let reasons := (if characters.isEmpty then []
      else ["api_usage_looked_like_character_counts:" ++ ",".intercalate characters]) ++
    counts.totalCorrectionReason.toList
  if reasons.isEmpty then none else some (";".intercalate reasons)

def Counts.promptCorrected : Bool :=
  counts.correctedFields.contains "prompt_tokens"

def confidences : List String := ["authoritative", "reported", "estimated"]

/-- `usage_source_detail` -/
def sourceDetail (usageSource : String) : String :=
  if usageSource = "estimate" then
    if (safeCount call.apiCompletionTokens).isSome || (safeCount call.apiTotalTokens).isSome ||
        ((safeCount call.apiPromptTokens).isSome &&
          promptMeasurementSource call ≠ "local_estimate") then "mixed"
    else "local_estimate"
  else if promptMeasurementSource call = "" then "provider_response"
  else promptMeasurementSource call

def promptTokensAuthoritative : Bool :=
  call.apiPromptTokensAuthoritative.getD call.apiUsageCountsAuthoritative

def usageConfidence (usageSource : String) : String :=
  if usageSource = "estimate" then "estimated"
  else if call.apiUsageCountsAuthoritative && promptTokensAuthoritative call then "authoritative"
  else
    let requested := lower (strip call.apiUsageConfidence)
    if confidences.contains requested then requested else "reported"

/-! ### Caches -/

/-- How the prompt splits over the cache. -/
structure CacheCounts where
  (cacheRead cacheCreation cacheCreation5m cacheCreation1h uncached : Option Int)
  uncachedDerived : Bool

def reportedCaches : CacheCounts :=
  let fiveMinutes := safeCount call.apiCacheCreation5mInputTokens
  let oneHour := safeCount call.apiCacheCreation1hInputTokens
  let parts := [fiveMinutes, oneHour].filterMap id
  { cacheRead := (safeCount call.apiCacheReadInputTokens).or (safeCount call.apiCachedPromptTokens)
    cacheCreation := (safeCount call.apiCacheCreationInputTokens).or
      (if parts.isEmpty then none else some parts.sum)
    cacheCreation5m := fiveMinutes
    cacheCreation1h := oneHour
    uncached := safeCount call.apiInputTokensUncached
    uncachedDerived := call.apiInputTokensUncachedDerived.getD false }

/-- `uncached_prompt_tokens` -/
def CacheCounts.uncachedPrompt (caches : CacheCounts) (promptTokens : Int) : Option Int :=
  match caches.cacheRead with
  | some cached => some (max 0 (promptTokens - cached))
  | none => caches.uncached

def CacheCounts.derive (caches : CacheCounts) (promptTokens : Int) : CacheCounts :=
  let read := caches.cacheRead.getD 0
  let creation := caches.cacheCreation.getD 0
  if caches.uncached.isNone ∧ (0 < read ∨ 0 < creation) then
    { caches with
      uncached := some (max 0 (promptTokens - read - creation))
      uncachedDerived := true }
  else caches

/-- The caches of a record; a corrected prompt has none. -/
def cacheCounts : CacheCounts :=
  if counts.promptCorrected then ⟨none, none, none, none, none, false⟩ else reportedCaches call

end Counts

/-! ### Prices -/

structure CostComputation (F : Type) where
  costUsd : Option F
  cacheCostPricingMissing : Bool
  costSource : String := "unknown"

section Prices

variable [Arith F]

/-- `parse_rate`, of a price or nothing. -/
def parseRate : Option F → Option F
  | some x => if Arith.lt x (Arith.ofInt 0) then none else some x
  | none => none

def resolveModelRate (requested : ModelMeta F) (response : Option (ModelMeta F))
    (field : ModelMeta F → Option F) : Option F :=
  parseRate ((field requested).or (response.bind field))

/-- A part of the prompt at its rate: nothing to pay for nothing, and no price without a rate. -/
def addPriced (tokens : Int) (rate : Option F) (cost : Option F) : Option F :=
  if tokens ≤ 0 then cost
  else
    match rate, cost with
    | some rate, some cost => some (Arith.add cost (Arith.mul (Arith.ofInt tokens) rate))
    | _, _ => none

/-- `first or second`, of two rates. -/
def rateOr (python : Python F) (first second : Option F) : Option F :=
  if first.any fun rate => !python.isZero rate then first else second

/-- The rates of a call, from the metadata of the requested and of the responding model. -/
structure Rates (F : Type) where
  (input output cacheRead cacheCreation cacheCreation5m cacheCreation1h reasoningOutput : Option F)

variable (host : Host F) (call : Call F)

def callRates : Rates F :=
  let requested := call.registry call.requestedModel
  let response := (call.responseModel.filter (· ≠ "")).map call.registry
  { input := requested.inputCostPerToken.or (response.bind (·.inputCostPerToken))
    output := requested.outputCostPerToken.or (response.bind (·.outputCostPerToken))
    cacheRead := resolveModelRate requested response (·.cacheReadInputCostPerToken)
    cacheCreation := resolveModelRate requested response (·.cacheCreationInputCostPerToken)
    cacheCreation5m := resolveModelRate requested response (·.cacheCreation5mInputCostPerToken)
    cacheCreation1h := resolveModelRate requested response (·.cacheCreation1hInputCostPerToken)
    reasoningOutput := resolveModelRate requested response (·.reasoningOutputCostPerToken) }

def usageCostUsd (python : Python F) (promptTokens completionTokens : Int)
    (caches : CacheCounts) (reasoningTokens : Option Int) (rates : Rates F) : CostComputation F :=
  match rates.input, rates.output with
  | some inputRate, some outputRate =>
    let readTokens := max 0 (caches.cacheRead.getD 0)
    let creation5mTokens := max 0 (caches.cacheCreation5m.getD 0)
    let creation1hTokens := max 0 (caches.cacheCreation1h.getD 0)
    let creationTotalTokens := max 0 (caches.cacheCreation.getD 0)
    let creationGenericTokens := if creationTotalTokens = 0 then 0
      else max 0 (creationTotalTokens - (creation5mTokens + creation1hTokens))
    let uncachedTokens :=
      caches.uncached.getD (max 0 (promptTokens - readTokens - creationTotalTokens))
    let cost := Arith.add (Arith.ofInt 0) (Arith.mul (Arith.ofInt (max 0 uncachedTokens)) inputRate)
    let cached := addPriced creationGenericTokens rates.cacheCreation
      (addPriced creation1hTokens (rateOr python rates.cacheCreation1h rates.cacheCreation)
        (addPriced creation5mTokens (rateOr python rates.cacheCreation5m rates.cacheCreation)
          (addPriced readTokens rates.cacheRead (some cost))))
    match cached with
    | none => ⟨none, true, "unknown"⟩
    | some cost =>
      let billed := max 0 completionTokens
      let reasoning := max 0 (reasoningTokens.getD 0)
      let total :=
        match rates.reasoningOutput with
        | some reasoningRate =>
          if 0 < reasoning then
            let visible := Arith.ofInt (max 0 (billed - reasoning))
            Arith.add (Arith.add cost (Arith.mul visible outputRate))
              (Arith.mul (Arith.ofInt reasoning) reasoningRate)
          else Arith.add cost (Arith.mul (Arith.ofInt billed) outputRate)
        | none => Arith.add cost (Arith.mul (Arith.ofInt billed) outputRate)
      ⟨some total, false, "catalog_estimate"⟩
  | _, _ => ⟨none, false, "unknown"⟩

def billingModes : List String := ["metered_api", "subscription", "included", "local", "unknown"]

def safeBillingMode (billingMode : String) : String :=
  let mode := lower (strip billingMode)
  if billingModes.contains mode then mode else "unknown"

/-- What the call cost, and where the figure comes from. -/
def costOf (counts : Counts) (caches : CacheCounts) : CostComputation F :=
  let mode := safeBillingMode call.billingMode
  if mode = "subscription" then ⟨none, false, "subscription"⟩
  else if mode = "included" then ⟨none, false, "included"⟩
  else if mode = "local" then ⟨none, false, "local"⟩
  else
    match call.apiProviderCostUsd.filter fun cost => Arith.le (Arith.ofInt 0) cost with
    | some cost => ⟨some cost, false, "provider_reported"⟩
    | none => usageCostUsd host.python counts.promptTokens counts.completionTokens caches
        (safeCount call.apiReasoningTokens) (callRates call)

def promptEstimateCalibration (counts : Counts) : Option (Int × F) :=
  let estimated := fallbackPromptEstimate host call
  match safeCount call.apiPromptTokens with
  | none => none
  | some reported =>
    if promptMeasurementSource call = "local_estimate" ∨ estimated ≤ 0 ∨
        (counts.usageSource ≠ "api" ∧ promptTokensAuthoritative call = false) ∨
        counts.promptCorrected = true then none
    else some (reported - estimated,
      Arith.div (Arith.ofInt reported) (Arith.ofInt (max 1 estimated)))

/-- The rest of `build_usage_record`, behind the arguments. -/
def buildRecord : UsageRecord F :=
  let counts := resolveCounts host call
  let caches := cacheCounts call counts
  let derived := caches.derive counts.promptTokens
  let calibration := promptEstimateCalibration host call counts
  let rates := callRates call
  let cost := costOf host call counts derived
  let plan := safeRequestPlan host call.requestPlan
  let corrected := !counts.correctedFields.isEmpty
  { timestamp := call.timestamp
    role := call.role
    requestedModel := call.requestedModel
    responseModel := call.responseModel
    promptTokens := counts.promptTokens
    completionTokens := counts.completionTokens
    totalTokens := counts.totalTokens
    inputCostPerToken := rates.input
    outputCostPerToken := rates.output
    costUsd := cost.costUsd
    usageSource := counts.usageSource
    billingMode := safeBillingMode call.billingMode
    costSource := cost.costSource
    providerCostUsd := call.apiProviderCostUsd
    usageSourceDetail := sourceDetail call counts.usageSource
    usageConfidence := usageConfidence call counts.usageSource
    outputIncludesReasoning := call.apiOutputIncludesReasoning
    usageSchemaVersion := 6
    providerKey := safeText call.providerKey
    protocol := safeText call.protocol
    baseUrlHost := safeText call.baseUrlHost
    operation := safeText call.operation
    requestMode := (safeText call.requestMode).or (planText host.python plan "input_mode")
    cacheStrategy := (safeText call.cacheStrategy).or (planText host.python plan "cache_strategy")
    requestPlan := plan
    requestHasMedia := requestContainsMedia host.python call.messages
    cacheReadInputCostPerToken := rates.cacheRead
    cacheCreationInputCostPerToken := rates.cacheCreation
    cacheCreation5mInputCostPerToken := rates.cacheCreation5m
    cacheCreation1hInputCostPerToken := rates.cacheCreation1h
    reasoningOutputCostPerToken := rates.reasoningOutput
    cachedPromptTokens := caches.cacheRead
    uncachedPromptTokens := caches.uncachedPrompt counts.promptTokens
    inputTokensUncached := derived.uncached
    inputTokensUncachedDerived := derived.uncachedDerived
    cacheReadInputTokens := caches.cacheRead
    cacheCreationInputTokens := caches.cacheCreation
    cacheCreation5mInputTokens := caches.cacheCreation5m
    cacheCreation1hInputTokens := caches.cacheCreation1h
    reasoningTokens := safeCount call.apiReasoningTokens
    rawProviderUsage := call.apiRawProviderUsage.map (·.1)
    cacheCostPricingMissing := cost.cacheCostPricingMissing
    requestTokenEstimate := some (estimateRequestTokenBreakdown host call.messages call.toolList
      call.pinnedPrefixLen)
    promptEstimateTokens := some (fallbackPromptEstimate host call)
    promptEstimateErrorTokens := calibration.map (·.1)
    promptEstimateErrorRatio := calibration.map (·.2)
    rawApiPromptTokens := if corrected then safeCount call.apiPromptTokens else none
    rawApiCompletionTokens := if corrected then safeCount call.apiCompletionTokens else none
    rawApiTotalTokens := if corrected then safeCount call.apiTotalTokens else none
    usageCorrectionReason := counts.correctionReason }

def buildUsageRecord : UsageRecord F :=
  buildRecord host call.withUsage

end Prices

end AlysisCode.Usage

/-! ### What the log keeps of a record

What the log keeps of a record, and the record that is read out of it.

`to_payload` writes every field under its name, and `add_event_payload` reads the fields one by
one, each through its own sanitizer.
-/

namespace AlysisCode.Usage

variable {F : Type}

/-! ### Writing -/

def optional {α : Type} (f : α → Json F) : Option α → Json F
  | some a => f a
  | none => .null

def ToolSchemaBudgetEntry.toPayload (entry : ToolSchemaBudgetEntry) : Json F :=
  .obj [("name", .str entry.name), ("token_estimate", .int entry.tokenEstimate)]

def ToolSchemaBudgetReport.toPayload (report : ToolSchemaBudgetReport) : Json F :=
  .obj [("tool_count", .int report.toolCount), ("total_tokens", .int report.totalTokens),
    ("budget_tokens", .int report.budgetTokens),
    ("over_budget_tokens", .int report.overBudgetTokens),
    ("over_budget", .bool report.overBudget),
    ("largest_tools", .arr (report.largestTools.map ToolSchemaBudgetEntry.toPayload))]

def RequestTokenBreakdown.toPayload (b : RequestTokenBreakdown) : Json F :=
  .obj [("bootstrap_prompt_tokens", .int b.bootstrapPromptTokens),
    ("tool_schema_tokens", .int b.toolSchemaTokens),
    ("live_conversation_history_tokens", .int b.liveConversationHistoryTokens),
    ("inline_tool_transcript_tokens", .int b.inlineToolTranscriptTokens),
    ("memory_summary_tokens", .int b.memorySummaryTokens),
    ("pins_tokens", .int b.pinsTokens),
    ("total_tokens", .int b.totalTokens),
    ("tool_schema_budget", optional ToolSchemaBudgetReport.toPayload b.toolSchemaBudget)]

def eventType : String := "llm_usage"

def UsageRecord.toPayload (r : UsageRecord F) : Members F :=
  [("event_type", .str eventType), ("usage_schema_version", .int r.usageSchemaVersion),
    ("timestamp", .str r.timestamp),
    ("role", .str r.role),
    ("requested_model", .str r.requestedModel),
    ("response_model", optional .str r.responseModel),
    ("prompt_tokens", .int r.promptTokens),
    ("completion_tokens", .int r.completionTokens),
    ("total_tokens", .int r.totalTokens),
    ("input_cost_per_token", optional .float r.inputCostPerToken),
    ("output_cost_per_token", optional .float r.outputCostPerToken),
    ("cache_read_input_cost_per_token", optional .float r.cacheReadInputCostPerToken),
    ("cache_creation_input_cost_per_token", optional .float r.cacheCreationInputCostPerToken),
    ("cache_creation_5m_input_cost_per_token", optional .float r.cacheCreation5mInputCostPerToken),
    ("cache_creation_1h_input_cost_per_token", optional .float r.cacheCreation1hInputCostPerToken),
    ("reasoning_output_cost_per_token", optional .float r.reasoningOutputCostPerToken),
    ("cost_usd", optional .float r.costUsd),
    ("billing_mode", .str r.billingMode),
    ("cost_source", .str r.costSource),
    ("provider_cost_usd", optional .float r.providerCostUsd),
    ("usage_source", .str r.usageSource),
    ("usage_source_detail", .str r.usageSourceDetail),
    ("usage_confidence", .str r.usageConfidence),
    ("output_includes_reasoning", .bool r.outputIncludesReasoning),
    ("provider_key", optional .str r.providerKey),
    ("protocol", optional .str r.protocol),
    ("base_url_host", optional .str r.baseUrlHost),
    ("operation", optional .str r.operation),
    ("request_mode", optional .str r.requestMode),
    ("cache_strategy", optional .str r.cacheStrategy),
    ("request_plan", optional .obj r.requestPlan),
    ("request_has_media", .bool r.requestHasMedia),
    ("cached_prompt_tokens", optional .int r.cachedPromptTokens),
    ("uncached_prompt_tokens", optional .int r.uncachedPromptTokens),
    ("input_tokens_uncached", optional .int r.inputTokensUncached),
    ("input_tokens_uncached_derived", .bool r.inputTokensUncachedDerived),
    ("cache_read_input_tokens", optional .int r.cacheReadInputTokens),
    ("cache_creation_input_tokens", optional .int r.cacheCreationInputTokens),
    ("cache_creation_5m_input_tokens", optional .int r.cacheCreation5mInputTokens),
    ("cache_creation_1h_input_tokens", optional .int r.cacheCreation1hInputTokens),
    ("reasoning_tokens", optional .int r.reasoningTokens),
    ("raw_provider_usage", optional .obj r.rawProviderUsage),
    ("cache_cost_pricing_missing", .bool r.cacheCostPricingMissing),
    ("request_token_estimate", optional RequestTokenBreakdown.toPayload r.requestTokenEstimate),
    ("prompt_estimate_tokens", optional .int r.promptEstimateTokens),
    ("prompt_estimate_error_tokens", optional .int r.promptEstimateErrorTokens),
    ("prompt_estimate_error_ratio", optional .float r.promptEstimateErrorRatio),
    ("raw_api_prompt_tokens", optional .int r.rawApiPromptTokens),
    ("raw_api_completion_tokens", optional .int r.rawApiCompletionTokens),
    ("raw_api_total_tokens", optional .int r.rawApiTotalTokens),
    ("usage_correction_reason", optional .str r.usageCorrectionReason)]

/-! ### Reading -/

def asNonNegativeInt (host : Host F) : Json F → Int
  | .int n => max 0 n
  | .bool b => if b then 1 else 0
  | .float x => max 0 ((host.intOfFloat x).getD 0)
  | .str s => max 0 ((host.intOfText s).getD 0)
  | _ => 0

def ToolSchemaBudgetEntry.fromPayload (host : Host F) : Json F → Option ToolSchemaBudgetEntry
  | .obj payload =>
    let name := label host.python (Json.get payload "name")
    if name = "" then none
    else some ⟨name, asNonNegativeInt host (Json.get payload "token_estimate")⟩
  | _ => none

def ToolSchemaBudgetReport.fromPayload (host : Host F) : Json F → Option ToolSchemaBudgetReport
  | .obj payload => some {
      toolCount := asNonNegativeInt host (Json.get payload "tool_count")
      totalTokens := asNonNegativeInt host (Json.get payload "total_tokens")
      budgetTokens := asNonNegativeInt host (Json.get payload "budget_tokens")
      overBudgetTokens := asNonNegativeInt host (Json.get payload "over_budget_tokens")
      largestTools :=
        match Json.get payload "largest_tools" with
        | .arr entries => entries.filterMap (ToolSchemaBudgetEntry.fromPayload host)
        | _ => [] }
  | _ => none

def breakdownKeys : List String :=
  ["bootstrap_prompt_tokens", "tool_schema_tokens", "live_conversation_history_tokens",
    "inline_tool_transcript_tokens", "memory_summary_tokens", "pins_tokens"]

def RequestTokenBreakdown.fromPayload (host : Host F) : Json F → Option RequestTokenBreakdown
  | .obj payload =>
    let count (key : String) := asNonNegativeInt host (Json.get payload key)
    let breakdown : RequestTokenBreakdown := {
      bootstrapPromptTokens := count "bootstrap_prompt_tokens"
      toolSchemaTokens := count "tool_schema_tokens"
      liveConversationHistoryTokens := count "live_conversation_history_tokens"
      inlineToolTranscriptTokens := count "inline_tool_transcript_tokens"
      memorySummaryTokens := count "memory_summary_tokens"
      pinsTokens := count "pins_tokens"
      toolSchemaBudget :=
        ToolSchemaBudgetReport.fromPayload host (Json.get payload "tool_schema_budget") }
    if breakdown.totalTokens = 0 ∧ !breakdownKeys.any fun key => (payload.lookup key).isSome then
      none
    else some breakdown
  | _ => none

variable (python : Python F)

/-- `str(payload.get(key) or default)` -/
def textOr (value : Json F) (default : String) : String :=
  python.text (python.orElse value (.str default))

/-- `str(value) if value is not None else None` -/
def optionalText : Json F → Option String
  | .null => none
  | v => some (python.text v)

def safeBool : Json F → Bool
  | .bool b => b
  | v => ["1", "true", "yes", "on"].contains (lower (label python v))

/-- `_safe_float`, of a value that may be missing. -/
def safeFloat [Arith F] (host : Host F) : Json F → Option F
  | .float x => some x
  | .int n => some (Arith.ofInt n)
  | .bool b => some (Arith.ofInt (if b then 1 else 0))
  | .str s => host.floatOfText s
  | _ => none

def dict? : Json F → Option (Members F)
  | .obj members => some members
  | _ => none

/-- The record that `add_event_payload` builds. -/
def UsageRecord.fromPayload [Arith F] (host : Host F) (payload : Members F) : UsageRecord F :=
  let python := host.python
  let int (key : String) := safeInt host (Json.get payload key)
  let float (key : String) := safeFloat host (Json.get payload key)
  let reported := textOr python (Json.get payload "usage_source") "" = "api"
  { usageSchemaVersion :=
      max 1 (if (int "usage_schema_version").getD 0 = 0 then 1
        else (int "usage_schema_version").getD 0)
    timestamp := textOr python (Json.get payload "timestamp") ""
    role := textOr python (Json.get payload "role") "main"
    requestedModel := textOr python (Json.get payload "requested_model") "unknown-model"
    responseModel := optionalText python (Json.get payload "response_model")
    promptTokens := max 0 ((int "prompt_tokens").getD 0)
    completionTokens := max 0 ((int "completion_tokens").getD 0)
    totalTokens := max 0 ((int "total_tokens").getD 0)
    inputCostPerToken := float "input_cost_per_token"
    outputCostPerToken := float "output_cost_per_token"
    cacheReadInputCostPerToken := float "cache_read_input_cost_per_token"
    cacheCreationInputCostPerToken := float "cache_creation_input_cost_per_token"
    cacheCreation5mInputCostPerToken := float "cache_creation_5m_input_cost_per_token"
    cacheCreation1hInputCostPerToken := float "cache_creation_1h_input_cost_per_token"
    reasoningOutputCostPerToken := float "reasoning_output_cost_per_token"
    costUsd := float "cost_usd"
    billingMode := textOr python (Json.get payload "billing_mode") "metered_api"
    costSource := textOr python (Json.get payload "cost_source") "unknown"
    providerCostUsd := float "provider_cost_usd"
    usageSource := textOr python (Json.get payload "usage_source") "estimate"
    usageSourceDetail := textOr python (Json.get payload "usage_source_detail")
      (if reported then "provider_response" else "local_estimate")
    usageConfidence := textOr python (Json.get payload "usage_confidence")
      (if reported then "reported" else "estimated")
    outputIncludesReasoning :=
      (payload.lookup "output_includes_reasoning").elim true (safeBool python)
    providerKey := safeLabel python (Json.get payload "provider_key")
    protocol := safeLabel python (Json.get payload "protocol")
    baseUrlHost := safeLabel python (Json.get payload "base_url_host")
    operation := safeLabel python (Json.get payload "operation")
    requestMode := safeLabel python (Json.get payload "request_mode")
    cacheStrategy := safeLabel python (Json.get payload "cache_strategy")
    requestPlan := safeRequestPlan host (dict? (Json.get payload "request_plan"))
    requestHasMedia := safeBool python (Json.get payload "request_has_media")
    cachedPromptTokens := int "cached_prompt_tokens"
    uncachedPromptTokens := int "uncached_prompt_tokens"
    inputTokensUncached := int "input_tokens_uncached"
    inputTokensUncachedDerived := python.truthy (Json.get payload "input_tokens_uncached_derived")
    cacheReadInputTokens :=
      match Json.get payload "cache_read_input_tokens" with
      | .null => int "cached_prompt_tokens"
      | v => safeInt host v
    cacheCreationInputTokens := int "cache_creation_input_tokens"
    cacheCreation5mInputTokens := int "cache_creation_5m_input_tokens"
    cacheCreation1hInputTokens := int "cache_creation_1h_input_tokens"
    reasoningTokens := int "reasoning_tokens"
    rawProviderUsage := dict? (Json.get payload "raw_provider_usage")
    cacheCostPricingMissing := safeBool python (Json.get payload "cache_cost_pricing_missing")
    requestTokenEstimate :=
      RequestTokenBreakdown.fromPayload host (Json.get payload "request_token_estimate")
    promptEstimateTokens := int "prompt_estimate_tokens"
    promptEstimateErrorTokens := int "prompt_estimate_error_tokens"
    promptEstimateErrorRatio := float "prompt_estimate_error_ratio"
    rawApiPromptTokens := int "raw_api_prompt_tokens"
    rawApiCompletionTokens := int "raw_api_completion_tokens"
    rawApiTotalTokens := int "raw_api_total_tokens"
    usageCorrectionReason := optionalText python (Json.get payload "usage_correction_reason") }

/-! ### The log -/

/-- `json.dumps(…, ensure_ascii=True)`, as the session log is written. -/
def logStyle : Json.Style where
  ascii := true
  spaced := true
  sortKeys := false

end AlysisCode.Usage
