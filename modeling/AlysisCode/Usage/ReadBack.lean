/-
A record is read back out of its payload.

`Sound` is what the builder guarantees of a record: the counts are not negative, the texts that
have a default are not empty, and labels are stripped.  A sound record comes back as it was, but
for four fields: an error of the estimate that is negative is dropped, an empty role or model
gets a name, and the request plan is cleaned once more.
-/
import AlysisCode.Usage.Summary

namespace AlysisCode.Usage

variable {F : Type}

/-! ### Members -/

def payloadKeys : List String :=
  ["event_type", "usage_schema_version", "timestamp", "role", "requested_model",
    "response_model", "prompt_tokens", "completion_tokens", "total_tokens",
    "input_cost_per_token", "output_cost_per_token", "cache_read_input_cost_per_token",
    "cache_creation_input_cost_per_token", "cache_creation_5m_input_cost_per_token",
    "cache_creation_1h_input_cost_per_token", "reasoning_output_cost_per_token", "cost_usd",
    "billing_mode", "cost_source", "provider_cost_usd", "usage_source", "usage_source_detail",
    "usage_confidence", "output_includes_reasoning", "provider_key", "protocol",
    "base_url_host", "operation", "request_mode", "cache_strategy", "request_plan",
    "request_has_media", "cached_prompt_tokens", "uncached_prompt_tokens",
    "input_tokens_uncached", "input_tokens_uncached_derived", "cache_read_input_tokens",
    "cache_creation_input_tokens", "cache_creation_5m_input_tokens",
    "cache_creation_1h_input_tokens", "reasoning_tokens", "raw_provider_usage",
    "cache_cost_pricing_missing", "request_token_estimate", "prompt_estimate_tokens",
    "prompt_estimate_error_tokens", "prompt_estimate_error_ratio", "raw_api_prompt_tokens",
    "raw_api_completion_tokens", "raw_api_total_tokens", "usage_correction_reason"]

theorem keys_toPayload (r : UsageRecord F) : r.toPayload.map (·.1) = payloadKeys := rfl

/-- A number for a text, by which texts are told apart faster than character by character. -/
def textCode (s : String) : Nat := s.toList.foldl (fun n c => n * 128 + c.toNat) 0

theorem nodup_payloadKeys : payloadKeys.Nodup := by
  have hcodes : (payloadKeys.map textCode).Nodup := by decide +kernel
  exact hcodes.of_map

variable {members : Members F} {value : Option Int} {key : String}

theorem lookup_of_getElem? (hkeys : (members.map (·.1)).Nodup) {i : Nat} {v : Json F}
    (h : members[i]? = some (key, v)) :
    members.lookup key = some v := by
  induction members generalizing i with
  | nil => simp at h
  | cons m rest ih =>
    obtain ⟨key', v'⟩ := m
    rw [List.map_cons, List.nodup_cons] at hkeys
    cases i with
    | zero =>
      cases h
      rw [List.lookup_cons_self]
    | succ i =>
      have hmem : (key, v) ∈ rest := List.mem_of_getElem? h
      have hne : (key == key') = false := by
        rw [beq_eq_false_iff_ne]
        rintro rfl
        exact hkeys.1 (List.mem_map_of_mem (f := (·.1)) hmem)
      rw [List.lookup_cons, hne]
      exact ih hkeys.2 h

section Fields

variable {members : Members F} (hkeys : (members.map (·.1)).Nodup) {key : String}
include hkeys

variable (i : Nat) {value : Option String}

theorem get_field {v : Json F} (h : members[i]? = some (key, v)) : Json.get members key = v := by
  unfold Json.get
  rw [lookup_of_getElem? hkeys h]
  rfl

variable {host : Host F}

theorem safeInt_field {value : Option Int} (h : members[i]? = some (key, optional .int value)) :
    safeInt host (Json.get members key) = safeCount value := by
  rw [get_field hkeys i h]
  cases value <;> rfl

theorem safeFloat_field [Arith F] {value : Option F}
    (h : members[i]? = some (key, optional .float value)) :
    safeFloat host (Json.get members key) = value := by
  rw [get_field hkeys i h]
  cases value <;> rfl

theorem textOr_field {s : String} (h : members[i]? = some (key, .str s)) (default : String) :
    textOr host.python (Json.get members key) default = if s = "" then default else s := by
  rw [get_field hkeys i h]
  unfold textOr Python.orElse Python.truthy
  by_cases hs : s = "" <;> simp [hs, Python.text]

theorem safeLabel_field (h : members[i]? = some (key, optional .str value)) :
    safeLabel host.python (Json.get members key) = safeText value := by
  rw [get_field hkeys i h]
  unfold safeLabel label Python.orElse Python.truthy
  cases value with
  | none => simp [optional, Python.text, safeText, strip]
  | some s =>
    by_cases hs : s = ""
    · simp [hs, optional, Python.text, safeText, stripped, strip]
    · simp [hs, optional, Python.text, safeText, stripped]

theorem optionalText_field (h : members[i]? = some (key, optional .str value)) :
    optionalText host.python (Json.get members key) = value := by
  rw [get_field hkeys i h]
  cases value <;> rfl

theorem safeBool_field {b : Bool} (h : members[i]? = some (key, .bool b)) :
    safeBool host.python (Json.get members key) = b := by
  rw [get_field hkeys i h]
  rfl

theorem dict?_field {value : Option (Members F)} (h : members[i]? = some (key, optional .obj value)) :
    dict? (Json.get members key) = value := by
  rw [get_field hkeys i h]
  cases value <;> rfl

end Fields

/-! ### Estimates -/

structure ToolSchemaBudgetEntry.Sound (entry : ToolSchemaBudgetEntry) : Prop where
  name : strip entry.name = entry.name
  named : entry.name ≠ ""
  tokenEstimate : 0 ≤ entry.tokenEstimate

structure ToolSchemaBudgetReport.Sound (report : ToolSchemaBudgetReport) : Prop where
  toolCount : 0 ≤ report.toolCount
  totalTokens : 0 ≤ report.totalTokens
  budgetTokens : 0 ≤ report.budgetTokens
  overBudgetTokens : 0 ≤ report.overBudgetTokens
  largestTools : ∀ entry ∈ report.largestTools, entry.Sound

structure RequestTokenBreakdown.Sound (b : RequestTokenBreakdown) : Prop where
  bootstrapPromptTokens : 0 ≤ b.bootstrapPromptTokens
  toolSchemaTokens : 0 ≤ b.toolSchemaTokens
  liveConversationHistoryTokens : 0 ≤ b.liveConversationHistoryTokens
  inlineToolTranscriptTokens : 0 ≤ b.inlineToolTranscriptTokens
  memorySummaryTokens : 0 ≤ b.memorySummaryTokens
  pinsTokens : 0 ≤ b.pinsTokens
  toolSchemaBudget : ∀ report ∈ b.toolSchemaBudget, report.Sound

variable {host : Host F}

theorem asNonNegativeInt_int {n : Int} (h : 0 ≤ n) :
    asNonNegativeInt host (.int n : Json F) = n := max_eq_right h

theorem fromPayload_entry {entry : ToolSchemaBudgetEntry} (h : entry.Sound) :
    ToolSchemaBudgetEntry.fromPayload host (entry.toPayload : Json F) = some entry := by
  have hlabel : label host.python (.str entry.name) = entry.name := by
    unfold label
    rw [Python.orElse_str host.python h.named]
    exact h.name
  unfold ToolSchemaBudgetEntry.toPayload ToolSchemaBudgetEntry.fromPayload
  simp [Json.get, List.lookup_cons, hlabel, h.named, asNonNegativeInt_int h.tokenEstimate]

theorem fromPayload_report {report : ToolSchemaBudgetReport} (h : report.Sound) :
    ToolSchemaBudgetReport.fromPayload host (report.toPayload : Json F) = some report := by
  have hentries : (report.largestTools.map (ToolSchemaBudgetEntry.toPayload (F := F))).filterMap
      (ToolSchemaBudgetEntry.fromPayload host) = report.largestTools := by
    rw [List.filterMap_map, List.filterMap_congr (g := some), List.filterMap_some]
    intro entry hmem
    rw [Function.comp_apply, fromPayload_entry (h.largestTools entry hmem)]
  unfold ToolSchemaBudgetReport.toPayload ToolSchemaBudgetReport.fromPayload
  simp [Json.get, List.lookup_cons, hentries, asNonNegativeInt_int h.toolCount,
    asNonNegativeInt_int h.totalTokens, asNonNegativeInt_int h.budgetTokens,
    asNonNegativeInt_int h.overBudgetTokens]

theorem fromPayload_breakdown {b : RequestTokenBreakdown} (h : b.Sound) :
    RequestTokenBreakdown.fromPayload host (b.toPayload : Json F) = some b := by
  have hbudget : ToolSchemaBudgetReport.fromPayload host
      (optional ToolSchemaBudgetReport.toPayload b.toolSchemaBudget : Json F) =
        b.toolSchemaBudget := by
    cases hreport : b.toolSchemaBudget with
    | none => rfl
    | some report => exact fromPayload_report (h.toolSchemaBudget report hreport)
  unfold RequestTokenBreakdown.toPayload RequestTokenBreakdown.fromPayload
  simp [Json.get, List.lookup_cons, breakdownKeys, hbudget,
    asNonNegativeInt_int h.bootstrapPromptTokens, asNonNegativeInt_int h.toolSchemaTokens,
    asNonNegativeInt_int h.liveConversationHistoryTokens,
    asNonNegativeInt_int h.inlineToolTranscriptTokens,
    asNonNegativeInt_int h.memorySummaryTokens, asNonNegativeInt_int h.pinsTokens]

/-! ### Records -/

def IsCount (value : Option Int) : Prop := ∀ n ∈ value, 0 ≤ n

theorem IsCount.safeCount_eq (h : IsCount value) : safeCount value = value := by
  cases value with
  | none => rfl
  | some n => exact if_neg (Int.not_lt.mpr (h n rfl))

/-- What the builder guarantees of a record. -/
structure UsageRecord.Sound (r : UsageRecord F) : Prop where
  usageSchemaVersion : 1 ≤ r.usageSchemaVersion
  promptTokens : 0 ≤ r.promptTokens
  completionTokens : 0 ≤ r.completionTokens
  totalTokens : 0 ≤ r.totalTokens
  billingMode : r.billingMode ≠ ""
  costSource : r.costSource ≠ ""
  usageSource : r.usageSource ≠ ""
  usageSourceDetail : r.usageSourceDetail ≠ ""
  usageConfidence : r.usageConfidence ≠ ""
  providerKey : safeText r.providerKey = r.providerKey
  protocol : safeText r.protocol = r.protocol
  baseUrlHost : safeText r.baseUrlHost = r.baseUrlHost
  operation : safeText r.operation = r.operation
  requestMode : safeText r.requestMode = r.requestMode
  cacheStrategy : safeText r.cacheStrategy = r.cacheStrategy
  cachedPromptTokens : IsCount r.cachedPromptTokens
  uncachedPromptTokens : IsCount r.uncachedPromptTokens
  inputTokensUncached : IsCount r.inputTokensUncached
  cacheRead : r.cacheReadInputTokens = r.cachedPromptTokens
  cacheCreationInputTokens : IsCount r.cacheCreationInputTokens
  cacheCreation5mInputTokens : IsCount r.cacheCreation5mInputTokens
  cacheCreation1hInputTokens : IsCount r.cacheCreation1hInputTokens
  reasoningTokens : IsCount r.reasoningTokens
  requestTokenEstimate : ∀ b ∈ r.requestTokenEstimate, b.Sound
  promptEstimateTokens : IsCount r.promptEstimateTokens
  rawApiPromptTokens : IsCount r.rawApiPromptTokens
  rawApiCompletionTokens : IsCount r.rawApiCompletionTokens
  rawApiTotalTokens : IsCount r.rawApiTotalTokens
  requestPlan : ∀ plan ∈ r.requestPlan, (Json.obj plan).Distinct
  rawProviderUsage : ∀ usage ∈ r.rawProviderUsage, (Json.obj usage).Distinct

def UsageRecord.asRead (host : Host F) (r : UsageRecord F) : UsageRecord F :=
  { r with
    role := if r.role = "" then "main" else r.role
    requestedModel := if r.requestedModel = "" then "unknown-model" else r.requestedModel
    requestPlan := safeRequestPlan host r.requestPlan
    promptEstimateErrorTokens := safeCount r.promptEstimateErrorTokens }

theorem textOr_named (hkeys : (members.map (·.1)).Nodup) {s : String} (i : Nat)
    (h : members[i]? = some (key, .str s)) (hs : s ≠ "") (default : String) :
    textOr host.python (Json.get members key) default = s := by
  rw [textOr_field hkeys i h, if_neg hs]

theorem count_field (hkeys : (members.map (·.1)).Nodup) (i : Nat)
    (h : members[i]? = some (key, optional .int value)) (hvalue : IsCount value) :
    safeInt host (Json.get members key) = value := by
  rw [safeInt_field hkeys i h, hvalue.safeCount_eq]

theorem nat_field (hkeys : (members.map (·.1)).Nodup) (i : Nat) {n : Int}
    (h : members[i]? = some (key, .int n)) (hn : 0 ≤ n) :
    max 0 ((safeInt host (Json.get members key)).getD 0) = n := by
  have hcount : IsCount (some n) := fun m hm => by rwa [← Option.some.inj hm]
  have hsome : members[i]? = some (key, optional .int (some n)) := h
  rw [count_field hkeys i hsome hcount]
  exact max_eq_right hn

/-- **A sound record is read back, but for the four fields.** -/
theorem fromPayload_toPayload [Arith F] {r : UsageRecord F} (h : r.Sound) :
    UsageRecord.fromPayload host r.toPayload = r.asRead host := by
  have hkeys : (r.toPayload.map (·.1)).Nodup := nodup_payloadKeys
  unfold UsageRecord.fromPayload UsageRecord.asRead
  dsimp only
  rw [UsageRecord.mk.injEq]
  refine ⟨?_, ?_, ?_, ?_, ?_, ?_, ?_, ?_, ?_, ?_, ?_, ?_, ?_, ?_, ?_, ?_, ?_, ?_, ?_, ?_, ?_, ?_,
    ?_, ?_, ?_, ?_, ?_, ?_, ?_, ?_, ?_, ?_, ?_, ?_, ?_, ?_, ?_, ?_, ?_, ?_, ?_, ?_, ?_, ?_, ?_,
    ?_, ?_, ?_, ?_, ?_⟩
  · exact (textOr_field hkeys 2 rfl _).trans (ite_eq_right_iff.mpr Eq.symm)
  · exact textOr_field hkeys 3 rfl _
  · exact textOr_field hkeys 4 rfl _
  · exact optionalText_field hkeys 5 rfl
  · exact nat_field hkeys 6 rfl h.promptTokens
  · exact nat_field hkeys 7 rfl h.completionTokens
  · exact nat_field hkeys 8 rfl h.totalTokens
  · exact safeFloat_field hkeys 9 rfl
  · exact safeFloat_field hkeys 10 rfl
  · exact safeFloat_field hkeys 16 rfl
  · exact textOr_named hkeys 20 rfl h.usageSource _
  · exact textOr_named hkeys 17 rfl h.billingMode _
  · exact textOr_named hkeys 18 rfl h.costSource _
  · exact safeFloat_field hkeys 19 rfl
  · exact textOr_named hkeys 21 rfl h.usageSourceDetail _
  · exact textOr_named hkeys 22 rfl h.usageConfidence _
  · have hlookup : r.toPayload.lookup "output_includes_reasoning" =
        some (.bool r.outputIncludesReasoning) := lookup_of_getElem? hkeys (i := 23) rfl
    rw [hlookup]
    rfl
  · have hversion := h.usageSchemaVersion
    have hcount : IsCount (some r.usageSchemaVersion) := fun m hm => by
      rw [← Option.some.inj hm]
      omega
    have hread : safeInt host (Json.get r.toPayload "usage_schema_version") =
        some r.usageSchemaVersion := count_field hkeys 1 rfl hcount
    simp only [hread, Option.getD_some]
    rw [if_neg (by omega)]
    exact max_eq_right hversion
  · exact (safeLabel_field hkeys 24 rfl).trans h.providerKey
  · exact (safeLabel_field hkeys 25 rfl).trans h.protocol
  · exact (safeLabel_field hkeys 26 rfl).trans h.baseUrlHost
  · exact (safeLabel_field hkeys 27 rfl).trans h.operation
  · exact (safeLabel_field hkeys 28 rfl).trans h.requestMode
  · exact (safeLabel_field hkeys 29 rfl).trans h.cacheStrategy
  · exact congrArg (safeRequestPlan host) (dict?_field hkeys 30 rfl)
  · exact safeBool_field hkeys 31 rfl
  · exact safeFloat_field hkeys 11 rfl
  · exact safeFloat_field hkeys 12 rfl
  · exact safeFloat_field hkeys 13 rfl
  · exact safeFloat_field hkeys 14 rfl
  · exact safeFloat_field hkeys 15 rfl
  · exact count_field hkeys 32 rfl h.cachedPromptTokens
  · exact count_field hkeys 33 rfl h.uncachedPromptTokens
  · exact count_field hkeys 34 rfl h.inputTokensUncached
  · rw [get_field hkeys 35 (v := .bool r.inputTokensUncachedDerived) rfl]
    rfl
  · have hread : Json.get r.toPayload "cache_read_input_tokens" =
        optional .int r.cacheReadInputTokens := get_field hkeys 36 rfl
    have hcached : safeInt host (Json.get r.toPayload "cached_prompt_tokens") =
        r.cachedPromptTokens := count_field hkeys 32 rfl h.cachedPromptTokens
    have hsame := h.cacheRead
    rw [hread, hcached]
    cases hvalue : r.cacheReadInputTokens with
    | none => exact hsame.symm.trans hvalue
    | some n =>
      have hcount := h.cachedPromptTokens
      rw [← hsame, hvalue] at hcount
      exact hcount.safeCount_eq
  · exact count_field hkeys 37 rfl h.cacheCreationInputTokens
  · exact count_field hkeys 38 rfl h.cacheCreation5mInputTokens
  · exact count_field hkeys 39 rfl h.cacheCreation1hInputTokens
  · exact count_field hkeys 40 rfl h.reasoningTokens
  · exact dict?_field hkeys 41 rfl
  · exact safeBool_field hkeys 42 rfl
  · have hread : Json.get r.toPayload "request_token_estimate" =
        optional RequestTokenBreakdown.toPayload r.requestTokenEstimate := get_field hkeys 43 rfl
    rw [hread]
    cases hvalue : r.requestTokenEstimate with
    | none => rfl
    | some b => exact fromPayload_breakdown (h.requestTokenEstimate b hvalue)
  · exact count_field hkeys 44 rfl h.promptEstimateTokens
  · exact safeInt_field hkeys 45 rfl
  · exact safeFloat_field hkeys 46 rfl
  · exact count_field hkeys 47 rfl h.rawApiPromptTokens
  · exact count_field hkeys 48 rfl h.rawApiCompletionTokens
  · exact count_field hkeys 49 rfl h.rawApiTotalTokens
  · exact optionalText_field hkeys 50 rfl

end AlysisCode.Usage
