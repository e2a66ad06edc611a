/-
`UsageSummary`: what the records of many calls add up to.

A summary keeps its records, and for each model the counters that they add to.  Rows, totals
and calibration snapshots are read off it.
-/
import AlysisCode.Usage.Build

namespace AlysisCode.Usage

variable {F : Type}

/-! ### Counters -/

/-- The counters of `_ModelUsageTotals`. -/
structure Counters where
  (promptTokens completionTokens totalTokens knownCostCalls unknownCostCount
    providerReportedCostCalls catalogEstimatedCostCalls subscriptionCalls includedCalls
    localCalls apiUsageCalls estimateUsageCalls authoritativeUsageCalls reportedUsageCalls
    correctedUsageCalls promptEstimateCalibrationCalls promptEstimateUnderestimateCalls
    promptEstimateOverestimateCalls cachedPromptTokens uncachedPromptTokens inputTokensUncached
    cacheReadInputTokens cacheCreationInputTokens cacheCreation5mInputTokens
    cacheCreation1hInputTokens inputTokensUncachedReportedCalls inputTokensUncachedDerivedCalls
    cacheReadReportedCalls cacheCreationReportedCalls reasoningTokens
    cacheCostPricingMissingCalls estimatedBootstrapPromptTokens estimatedToolSchemaTokens
    estimatedLiveConversationHistoryTokens estimatedInlineToolTranscriptTokens
    estimatedMemorySummaryTokens estimatedPinsTokens estimatedTotalRequestTokens
    toolSchemaBudgetReportedCalls toolSchemaBudgetExceededCalls toolSchemaBudgetOverageTokens
    toolSchemaLargestToolTokens : Int := 0)

/-- The counters of two sources together. -/
def Counters.add (a b : Counters) : Counters where
  promptTokens := a.promptTokens + b.promptTokens
  completionTokens := a.completionTokens + b.completionTokens
  totalTokens := a.totalTokens + b.totalTokens
  knownCostCalls := a.knownCostCalls + b.knownCostCalls
  unknownCostCount := a.unknownCostCount + b.unknownCostCount
  providerReportedCostCalls := a.providerReportedCostCalls + b.providerReportedCostCalls
  catalogEstimatedCostCalls := a.catalogEstimatedCostCalls + b.catalogEstimatedCostCalls
  subscriptionCalls := a.subscriptionCalls + b.subscriptionCalls
  includedCalls := a.includedCalls + b.includedCalls
  localCalls := a.localCalls + b.localCalls
  apiUsageCalls := a.apiUsageCalls + b.apiUsageCalls
  estimateUsageCalls := a.estimateUsageCalls + b.estimateUsageCalls
  authoritativeUsageCalls := a.authoritativeUsageCalls + b.authoritativeUsageCalls
  reportedUsageCalls := a.reportedUsageCalls + b.reportedUsageCalls
  correctedUsageCalls := a.correctedUsageCalls + b.correctedUsageCalls
  promptEstimateCalibrationCalls :=
    a.promptEstimateCalibrationCalls + b.promptEstimateCalibrationCalls
  promptEstimateUnderestimateCalls :=
    a.promptEstimateUnderestimateCalls + b.promptEstimateUnderestimateCalls
  promptEstimateOverestimateCalls :=
    a.promptEstimateOverestimateCalls + b.promptEstimateOverestimateCalls
  cachedPromptTokens := a.cachedPromptTokens + b.cachedPromptTokens
  uncachedPromptTokens := a.uncachedPromptTokens + b.uncachedPromptTokens
  inputTokensUncached := a.inputTokensUncached + b.inputTokensUncached
  cacheReadInputTokens := a.cacheReadInputTokens + b.cacheReadInputTokens
  cacheCreationInputTokens := a.cacheCreationInputTokens + b.cacheCreationInputTokens
  cacheCreation5mInputTokens := a.cacheCreation5mInputTokens + b.cacheCreation5mInputTokens
  cacheCreation1hInputTokens := a.cacheCreation1hInputTokens + b.cacheCreation1hInputTokens
  inputTokensUncachedReportedCalls :=
    a.inputTokensUncachedReportedCalls + b.inputTokensUncachedReportedCalls
  inputTokensUncachedDerivedCalls :=
    a.inputTokensUncachedDerivedCalls + b.inputTokensUncachedDerivedCalls
  cacheReadReportedCalls := a.cacheReadReportedCalls + b.cacheReadReportedCalls
  cacheCreationReportedCalls := a.cacheCreationReportedCalls + b.cacheCreationReportedCalls
  reasoningTokens := a.reasoningTokens + b.reasoningTokens
  cacheCostPricingMissingCalls := a.cacheCostPricingMissingCalls + b.cacheCostPricingMissingCalls
  estimatedBootstrapPromptTokens :=
    a.estimatedBootstrapPromptTokens + b.estimatedBootstrapPromptTokens
  estimatedToolSchemaTokens := a.estimatedToolSchemaTokens + b.estimatedToolSchemaTokens
  estimatedLiveConversationHistoryTokens :=
    a.estimatedLiveConversationHistoryTokens + b.estimatedLiveConversationHistoryTokens
  estimatedInlineToolTranscriptTokens :=
    a.estimatedInlineToolTranscriptTokens + b.estimatedInlineToolTranscriptTokens
  estimatedMemorySummaryTokens := a.estimatedMemorySummaryTokens + b.estimatedMemorySummaryTokens
  estimatedPinsTokens := a.estimatedPinsTokens + b.estimatedPinsTokens
  estimatedTotalRequestTokens := a.estimatedTotalRequestTokens + b.estimatedTotalRequestTokens
  toolSchemaBudgetReportedCalls :=
    a.toolSchemaBudgetReportedCalls + b.toolSchemaBudgetReportedCalls
  toolSchemaBudgetExceededCalls :=
    a.toolSchemaBudgetExceededCalls + b.toolSchemaBudgetExceededCalls
  toolSchemaBudgetOverageTokens :=
    a.toolSchemaBudgetOverageTokens + b.toolSchemaBudgetOverageTokens
  toolSchemaLargestToolTokens := max a.toolSchemaLargestToolTokens b.toolSchemaLargestToolTokens

/-- One if the condition holds. -/
def tally (b : Bool) : Int := if b then 1 else 0

/-- `max(0, value or 0)` -/
def atLeastZero (value : Option Int) : Int := max 0 (value.getD 0)

def UsageRecord.counters (r : UsageRecord F) : Counters :=
  let unpriced (source : String) := tally (r.costUsd.isNone && r.costSource = source)
  let priced (source : String) := tally (r.costUsd.isSome && r.costSource = source)
  let calibrated := r.promptEstimateErrorRatio.isSome
  let error := r.promptEstimateErrorTokens.getD 0
  let breakdown := r.requestTokenEstimate.getD {}
  let budget := r.requestTokenEstimate.bind (·.toolSchemaBudget)
  { promptTokens := r.promptTokens
    completionTokens := r.completionTokens
    totalTokens := r.totalTokens
    knownCostCalls := tally r.costUsd.isSome
    unknownCostCount := tally (r.costUsd.isNone &&
      !(["subscription", "included", "local"].contains r.costSource))
    providerReportedCostCalls := priced "provider_reported"
    catalogEstimatedCostCalls := priced "catalog_estimate"
    subscriptionCalls := unpriced "subscription"
    includedCalls := unpriced "included"
    localCalls := unpriced "local"
    apiUsageCalls := tally (r.usageSource = "api")
    estimateUsageCalls := tally (r.usageSource ≠ "api")
    authoritativeUsageCalls := tally (r.usageConfidence = "authoritative")
    reportedUsageCalls := tally (r.usageConfidence = "reported")
    correctedUsageCalls := tally (r.usageCorrectionReason.any (· ≠ ""))
    promptEstimateCalibrationCalls := tally calibrated
    promptEstimateUnderestimateCalls := tally (calibrated && decide (0 < error))
    promptEstimateOverestimateCalls := tally (calibrated && decide (error < 0))
    cachedPromptTokens := atLeastZero r.cachedPromptTokens
    uncachedPromptTokens := atLeastZero r.uncachedPromptTokens
    inputTokensUncached := atLeastZero r.inputTokensUncached
    cacheReadInputTokens := atLeastZero r.cacheReadInputTokens
    cacheCreationInputTokens := atLeastZero r.cacheCreationInputTokens
    cacheCreation5mInputTokens := atLeastZero r.cacheCreation5mInputTokens
    cacheCreation1hInputTokens := atLeastZero r.cacheCreation1hInputTokens
    inputTokensUncachedReportedCalls :=
      tally (r.inputTokensUncached.isSome && !r.inputTokensUncachedDerived)
    inputTokensUncachedDerivedCalls :=
      tally (r.inputTokensUncached.isSome && r.inputTokensUncachedDerived)
    cacheReadReportedCalls := tally r.cacheReadInputTokens.isSome
    cacheCreationReportedCalls := tally r.cacheCreationInputTokens.isSome
    reasoningTokens := atLeastZero r.reasoningTokens
    cacheCostPricingMissingCalls := tally r.cacheCostPricingMissing
    estimatedBootstrapPromptTokens := breakdown.bootstrapPromptTokens
    estimatedToolSchemaTokens := breakdown.toolSchemaTokens
    estimatedLiveConversationHistoryTokens := breakdown.liveConversationHistoryTokens
    estimatedInlineToolTranscriptTokens := breakdown.inlineToolTranscriptTokens
    estimatedMemorySummaryTokens := breakdown.memorySummaryTokens
    estimatedPinsTokens := breakdown.pinsTokens
    estimatedTotalRequestTokens := breakdown.totalTokens
    toolSchemaBudgetReportedCalls := tally budget.isSome
    toolSchemaBudgetExceededCalls := tally (budget.any (·.overBudget))
    toolSchemaBudgetOverageTokens := budget.elim 0 (·.overBudgetTokens)
    toolSchemaLargestToolTokens :=
      (budget.bind (·.largestTools.head?)).elim 0 (·.tokenEstimate) }

structure ModelUsageTotals (F : Type) where
  counters : Counters := {}
  (knownCostUsd promptEstimateErrorRatioSum promptEstimateErrorRatioMax : F)

section Summary

variable [Arith F]

/-- `max(first, second)` -/
def maxFloat (first second : F) : F := if Arith.lt first second then second else first

def zero : F := Arith.ofInt 0

def ModelUsageTotals.empty : ModelUsageTotals F where
  knownCostUsd := zero
  promptEstimateErrorRatioSum := zero
  promptEstimateErrorRatioMax := zero

def ModelUsageTotals.addRecord (totals : ModelUsageTotals F) (r : UsageRecord F) :
    ModelUsageTotals F where
  counters := totals.counters.add r.counters
  knownCostUsd := r.costUsd.elim totals.knownCostUsd (Arith.add totals.knownCostUsd)
  promptEstimateErrorRatioSum := r.promptEstimateErrorRatio.elim
    totals.promptEstimateErrorRatioSum (Arith.add totals.promptEstimateErrorRatioSum)
  promptEstimateErrorRatioMax := r.promptEstimateErrorRatio.elim
    totals.promptEstimateErrorRatioMax (maxFloat totals.promptEstimateErrorRatioMax)

structure UsageSummary (F : Type) where
  byModel : List (String × ModelUsageTotals F) := []
  records : List (UsageRecord F) := []
  calls : Nat := 0

variable (summary : UsageSummary F) (r : UsageRecord F)

/-- `record.requested_model.strip() or "unknown-model"` -/
def UsageRecord.modelKey : String :=
  (stripped r.requestedModel).getD "unknown-model"

/-- `setdefault`, and the record added to what stands there. -/
def addToModel (key : String) (r : UsageRecord F) :
    List (String × ModelUsageTotals F) → List (String × ModelUsageTotals F)
  | [] => [(key, ModelUsageTotals.empty.addRecord r)]
  | (name, totals) :: rest =>
    if name = key then (name, totals.addRecord r) :: rest
    else (name, totals) :: addToModel key r rest

def UsageSummary.addRecord : UsageSummary F where
  byModel := addToModel r.modelKey r summary.byModel
  records := summary.records ++ [r]
  calls := summary.calls + 1

def UsageSummary.addEventPayload (host : Host F) (summary : UsageSummary F)
    (payload : Members F) : UsageSummary F :=
  if textOr host.python (Json.get payload "event_type") "" ≠ eventType then summary
  else summary.addRecord (UsageRecord.fromPayload host payload)

/-! ### Rows and totals -/

/-- `prompt_estimate_error_ratio_avg` -/
def ratioAvg (sum : F) (calls : Int) : Option F :=
  if 0 < calls then some (Arith.div sum (Arith.ofInt calls)) else none

/-- A row of `by_model_rows`. -/
structure ModelRow (F : Type) where
  model : String
  counters : Counters
  (costUsd promptEstimateErrorRatioAvg promptEstimateErrorRatioMax : Option F)

def ModelUsageTotals.row (model : String) (totals : ModelUsageTotals F) : ModelRow F where
  model := model
  counters := totals.counters
  costUsd := if 0 < totals.counters.knownCostCalls then some totals.knownCostUsd else none
  promptEstimateErrorRatioAvg :=
    ratioAvg totals.promptEstimateErrorRatioSum totals.counters.promptEstimateCalibrationCalls
  promptEstimateErrorRatioMax :=
    if 0 < totals.counters.promptEstimateCalibrationCalls then
      some totals.promptEstimateErrorRatioMax else none

def UsageSummary.byModelRows : List (ModelRow F) :=
  (summary.byModel.mergeSort fun a b => decide (a.1 ≤ b.1)).map fun entry => entry.2.row entry.1

/-- `largest_uncached_call` -/
structure LargestCall where
  callPosition : Nat
  uncachedPromptTokens : Int
  (role requestedModel timestamp : String)
  deriving DecidableEq

structure CacheEfficiency (F : Type) where
  reportedCalls : Nat
  cachedPromptTokens : Int
  uncachedPromptTokens : Int
  hitRatio : Option F
  largestUncachedCall : Option LargestCall

/-- The record says how much of its prompt was cached. -/
def UsageRecord.reportsCache : Bool :=
  r.cachedPromptTokens.isSome || r.uncachedPromptTokens.isSome

/-- `max(…, key=…, default=None)`, of the positions and records that report. -/
def largestUncached : List (UsageRecord F × Nat) → Option (UsageRecord F × Nat)
  | [] => none
  | first :: rest => some (rest.foldl (fun best other =>
    if atLeastZero best.1.uncachedPromptTokens < atLeastZero other.1.uncachedPromptTokens then
      other else best) first)

/-- `cache_efficiency_summary` -/
def cacheEfficiency (records : List (UsageRecord F)) : CacheEfficiency F :=
  let reported := (records.zipIdx 1).filter (·.1.reportsCache)
  let cached := (reported.map fun r => atLeastZero r.1.cachedPromptTokens).sum
  let uncached := (reported.map fun r => atLeastZero r.1.uncachedPromptTokens).sum
  { reportedCalls := reported.length
    cachedPromptTokens := cached
    uncachedPromptTokens := uncached
    hitRatio := if 0 < cached + uncached then
      some (Arith.div (Arith.ofInt cached) (Arith.ofInt (cached + uncached))) else none
    largestUncachedCall := (largestUncached reported).map fun entry => {
      callPosition := entry.2
      uncachedPromptTokens := atLeastZero entry.1.uncachedPromptTokens
      role := entry.1.role
      requestedModel := entry.1.requestedModel
      timestamp := entry.1.timestamp } }

structure Totals (F : Type) where
  counters : Counters
  costUsd : Option F
  knownCostUsd : F
  promptEstimateErrorRatioAvg : Option F
  promptEstimateErrorRatioMax : Option F
  cacheEfficiency : CacheEfficiency F
  calls : Nat

def UsageSummary.totals : Totals F :=
  let models := summary.byModel.map (·.2)
  let counters := models.foldl (fun sum m => sum.add m.counters) {}
  let knownCost := models.foldl (fun sum m => Arith.add sum m.knownCostUsd) zero
  let ratioSum := models.foldl (fun sum m => Arith.add sum m.promptEstimateErrorRatioSum) zero
  let ratioMax :=
    match models with
    | [] => zero
    | first :: rest => rest.foldl (fun top m => maxFloat top m.promptEstimateErrorRatioMax)
        first.promptEstimateErrorRatioMax
  { counters := counters
    costUsd := if 0 < counters.knownCostCalls then some knownCost else none
    knownCostUsd := knownCost
    promptEstimateErrorRatioAvg := ratioAvg ratioSum counters.promptEstimateCalibrationCalls
    promptEstimateErrorRatioMax :=
      if 0 < counters.promptEstimateCalibrationCalls then some ratioMax else none
    cacheEfficiency := cacheEfficiency summary.records
    calls := summary.calls }

end Summary

end AlysisCode.Usage

/-! ### Calibration snapshots

Calibration snapshots: how far the estimates of recent requests were off.
-/

namespace AlysisCode.Usage

variable {F : Type} [Arith F]

/-- `sorted`, of floats. -/
def sortFloats (values : List F) : List F := values.mergeSort fun a b => !Arith.lt b a

/-- `statistics.median`, of at least one value. -/
def median (values : List F) : F :=
  let data := sortFloats values
  let n := data.length
  if n % 2 = 1 then data.getD (n / 2) zero
  else Arith.div (Arith.add (data.getD (n / 2 - 1) zero) (data.getD (n / 2) zero)) (Arith.ofInt 2)

def literal (text : String) : F := Json.Floats.ofText text

def isPositive (x : F) : Bool := Json.Floats.isFinite x && Arith.lt zero x

def robustCalibrationRatios (values : List F) : List F :=
  let ratios := values.filter isPositive
  if ratios.length < 3 then []
  else
    let center := median ratios
    let mad := median (ratios.map fun value => Arith.abs (Arith.sub value center))
    let spread := Arith.lt zero mad && Arith.lt (literal "0.25") (Arith.div mad center)
    if Arith.le center zero || spread then []
    else
      let tolerance := maxFloat (literal "0.05") (if !Arith.lt mad zero && !Arith.lt zero mad then
          Arith.mul (Arith.abs center) (literal "0.10")
        else Arith.mul mad (literal "5.2"))
      let coherent := ratios.filter fun value =>
        Arith.le (Arith.abs (Arith.sub value center)) tolerance
      if 3 ≤ coherent.length ∧ ratios.length < coherent.length * 2 then coherent else []

structure Snapshot (F : Type) where
  (records calibrationCalls calibrationUsableCalls calibrationOutlierCalls
    calibrationExcludedUnknownMediaCalls calibrationExcludedMediaCalls : Nat)
  calibrationStable : Bool
  (promptEstimateErrorRatioAvg promptEstimateErrorRatioP90 promptEstimateErrorRatioMax
    promptEstimateErrorRatioRawMax : Option F)
  promptEstimateUnderestimateCalls : Nat
  promptEstimateOverestimateCalls : Nat
  cacheReadInputTokens : Int
  cacheCreationInputTokens : Int
  cacheHitRatio : Option F

/-- `max` of a list, if it has one. -/
def maxOf : List F → Option F
  | [] => none
  | first :: rest => some (rest.foldl maxFloat first)

/-- `_calibration_snapshot_from_records` -/
def calibrationSnapshot (records : List (UsageRecord F)) : Snapshot F :=
  let mediaKnown := records.filter fun r => decide (5 ≤ r.usageSchemaVersion)
  let calibrated := mediaKnown.filter fun r => !r.requestHasMedia
  let rawRatios := (calibrated.filterMap (·.promptEstimateErrorRatio)).filter isPositive
  let ratios := robustCalibrationRatios rawRatios
  let apiPromptTokens := (records.map fun r => max 0 r.promptTokens).sum
  let cacheRead := (records.map fun r => atLeastZero r.cacheReadInputTokens).sum
  let sorted := sortFloats ratios
  let p90Index : Int := min (sorted.length - 1)
    (max 0 (Arith.ceil (Arith.mul (Arith.ofInt sorted.length) (literal (F := F) "0.9")) - 1))
  { records := records.length
    calibrationCalls := rawRatios.length
    calibrationUsableCalls := ratios.length
    calibrationOutlierCalls := rawRatios.length - ratios.length
    calibrationExcludedUnknownMediaCalls := records.length - mediaKnown.length
    calibrationExcludedMediaCalls := mediaKnown.length - calibrated.length
    calibrationStable := decide (3 ≤ ratios.length)
    promptEstimateErrorRatioAvg := if ratios.isEmpty then none
      else some (Arith.div (ratios.foldl Arith.add zero) (Arith.ofInt ratios.length))
    promptEstimateErrorRatioP90 := sorted[p90Index.toNat]?
    promptEstimateErrorRatioMax := maxOf ratios
    promptEstimateErrorRatioRawMax := maxOf rawRatios
    promptEstimateUnderestimateCalls :=
      records.countP fun r => decide (0 < r.promptEstimateErrorTokens.getD 0)
    promptEstimateOverestimateCalls :=
      records.countP fun r => decide (r.promptEstimateErrorTokens.getD 0 < 0)
    cacheReadInputTokens := cacheRead
    cacheCreationInputTokens := (records.map fun r => atLeastZero r.cacheCreationInputTokens).sum
    cacheHitRatio := if 0 < apiPromptTokens then
      some (Arith.div (Arith.ofInt cacheRead) (Arith.ofInt apiPromptTokens)) else none }

/-- The filters of `recent_calibration_snapshot`; an empty one lets everything through. -/
structure Filters where
  (requestedModel providerKey protocol baseUrlHost operation requestMode cacheStrategy
    : String := "")

/-- `str(value or "").strip()`, of each filter. -/
def Filters.strip (f : Filters) : Filters where
  requestedModel := AlysisCode.strip f.requestedModel
  providerKey := AlysisCode.strip f.providerKey
  protocol := AlysisCode.strip f.protocol
  baseUrlHost := AlysisCode.strip f.baseUrlHost
  operation := AlysisCode.strip f.operation
  requestMode := AlysisCode.strip f.requestMode
  cacheStrategy := AlysisCode.strip f.cacheStrategy

/-- `_record_matches_calibration_filters` -/
def Filters.accepts (f : Filters) (r : UsageRecord F) : Bool :=
  (f.requestedModel = "" || AlysisCode.strip r.requestedModel = f.requestedModel) &&
    (f.providerKey = "" || r.providerKey.getD "" = f.providerKey) &&
    (f.protocol = "" || r.protocol.getD "" = f.protocol) &&
    (f.baseUrlHost = "" || r.baseUrlHost.getD "" = f.baseUrlHost) &&
    (f.operation = "" || r.operation.getD "" = f.operation) &&
    (f.requestMode = "" || r.requestMode.getD "" = f.requestMode) &&
    (f.cacheStrategy = "" || r.cacheStrategy.getD "" = f.cacheStrategy)

/-- `max(1, int(limit or default))` -/
def maxItems (limit default : Int) : Nat :=
  (max 1 (if limit = 0 then default else limit)).toNat

/-- `items[-count:]` -/
def takeLast {α : Type} (items : List α) (count : Nat) : List α := items.drop (items.length - count)

def UsageSummary.recentCalibrationSnapshot (summary : UsageSummary F) (filters : Filters)
    (limit : Int) : Snapshot F × Filters :=
  (calibrationSnapshot (takeLast (summary.records.filter filters.strip.accepts)
    (maxItems limit 20)), filters.strip)

/-- `_calibration_group_key` -/
def UsageRecord.groupKey (r : UsageRecord F) : List String :=
  [r.modelKey, r.providerKey.getD "", r.protocol.getD "", r.baseUrlHost.getD "",
    r.operation.getD "", r.requestMode.getD "", r.cacheStrategy.getD ""]

/-- `groups.setdefault(key, []).append(record)` -/
def addToGroup (key : List String) (r : UsageRecord F) :
    List (List String × List (UsageRecord F)) → List (List String × List (UsageRecord F))
  | [] => [(key, [r])]
  | (name, records) :: rest =>
    if name = key then (name, records ++ [r]) :: rest
    else (name, records) :: addToGroup key r rest

def UsageSummary.calibrationGroupRows (summary : UsageSummary F) (limit : Int) :
    List (List String × Snapshot F) :=
  let groups := (takeLast summary.records (maxItems limit 200)).foldl
    (fun groups r => addToGroup r.groupKey r groups) []
  (groups.mergeSort fun a b => decide (a.1 ≤ b.1)).map fun group =>
    (group.1, calibrationSnapshot group.2)

end AlysisCode.Usage
