/-
A report from the log against the live one.

Both are folds over the same records; the log's are what `add_event_payload` reads back.
-/
import Mathlib.Data.List.Induction
import AlysisCode.Usage.Sound

namespace AlysisCode.Usage

variable {F : Type}

/-! ### The log -/

theorem distinct_optional {α : Type} {f : α → Json F} (hf : ∀ a, (f a).Distinct) (o : Option α) :
    (optional f o).Distinct := by
  cases o with
  | none => exact .null
  | some a => exact hf a

theorem distinct_members {keys : List String} {members : Members F}
    (hkeys : members.map (·.1) = keys) (hnodup : keys.Nodup)
    (hvalues : ∀ m ∈ members, m.2.Distinct) : (Json.obj members).Distinct :=
  .obj (hkeys ▸ hnodup) hvalues

theorem distinct_entry (entry : ToolSchemaBudgetEntry) : (entry.toPayload : Json F).Distinct := by
  refine distinct_members rfl (by simp) ?_
  simp only [List.forall_mem_cons]
  exact ⟨.str, .int, fun m hm => by cases hm⟩

theorem distinct_report (report : ToolSchemaBudgetReport) :
    (report.toPayload : Json F).Distinct := by
  refine distinct_members rfl (by simp) ?_
  simp only [List.forall_mem_cons]
  refine ⟨.int, .int, .int, .int, .bool, .arr fun v hv => ?_, fun m hm => by cases hm⟩
  obtain ⟨entry, -, rfl⟩ := List.mem_map.mp hv
  exact distinct_entry entry

theorem distinct_breakdown (b : RequestTokenBreakdown) : (b.toPayload : Json F).Distinct := by
  refine distinct_members rfl (by simp) ?_
  simp only [List.forall_mem_cons]
  exact ⟨.int, .int, .int, .int, .int, .int, .int, distinct_optional distinct_report _,
    fun m hm => by cases hm⟩

theorem distinct_optional_obj {value : Option (Members F)}
    (h : ∀ members ∈ value, (Json.obj members).Distinct) : (optional .obj value).Distinct := by
  cases value with
  | none => exact .null
  | some members => exact h members rfl

theorem UsageRecord.Sound.distinct {r : UsageRecord F} (h : r.Sound) :
    (Json.obj r.toPayload).Distinct := by
  have htext (o : Option String) : (optional .str o : Json F).Distinct :=
    distinct_optional (fun _ => .str) o
  have hfloat (o : Option F) : (optional .float o).Distinct := distinct_optional (fun _ => .float) o
  have hint (o : Option Int) : (optional .int o : Json F).Distinct :=
    distinct_optional (fun _ => .int) o
  refine distinct_members (keys_toPayload r) nodup_payloadKeys ?_
  unfold UsageRecord.toPayload
  simp only [List.forall_mem_cons]
  exact ⟨.str, .int, .str, .str, .str, htext _, .int, .int, .int, hfloat _, hfloat _, hfloat _,
    hfloat _, hfloat _, hfloat _, hfloat _, hfloat _, .str, .str, hfloat _, .str, .str, .str, .bool,
    htext _, htext _, htext _, htext _, htext _, htext _, distinct_optional_obj h.requestPlan,
    .bool, hint _, hint _, hint _, .bool, hint _, hint _, hint _, hint _, hint _,
    distinct_optional_obj h.rawProviderUsage, .bool, distinct_optional distinct_breakdown _,
    hint _, hint _, hfloat _, hint _, hint _, hint _, htext _, fun m hm => by cases hm⟩

section Replay

variable [Arith F]

def UsageRecord.logLine (r : UsageRecord F) : String := Json.dumps logStyle (.obj r.toPayload)

/-- `json.loads`, of a line that holds a dict. -/
def readPayload (line : String) : Option (Members F) := (Json.loads line).bind dict?

/-- The records added directly. -/
def liveSummary (records : List (UsageRecord F)) : UsageSummary F :=
  records.foldl UsageSummary.addRecord {}

variable (host : Host F) {records : List (UsageRecord F)}

def replayedSummary (lines : List String) : UsageSummary F :=
  (lines.filterMap readPayload).foldl (UsageSummary.addEventPayload host) {}

theorem UsageRecord.Sound.readPayload {r : UsageRecord F} (h : r.Sound) :
    readPayload r.logLine = some r.toPayload := by
  have hordered : (Json.obj r.toPayload).ordered logStyle = .obj r.toPayload := rfl
  have hloads : Json.loads (Json.dumps logStyle (.obj r.toPayload)) =
      some ((Json.obj r.toPayload).ordered logStyle) :=
    Json.loads_dumps (hordered.symm ▸ h.distinct)
  unfold Usage.readPayload UsageRecord.logLine
  rw [hloads, hordered]
  rfl

theorem UsageRecord.Sound.addEventPayload {r : UsageRecord F} (h : r.Sound) (host : Host F)
    (summary : UsageSummary F) :
    summary.addEventPayload host r.toPayload = summary.addRecord (r.asRead host) := by
  have hkeys : (r.toPayload.map (·.1)).Nodup := nodup_payloadKeys
  have htype : textOr host.python (Json.get r.toPayload "event_type") "" = eventType :=
    textOr_named hkeys 0 rfl (by decide) _
  unfold UsageSummary.addEventPayload
  rw [if_neg (by rw [htype]; simp), fromPayload_toPayload h]

theorem foldl_lines (h : ∀ r ∈ records, r.Sound) (summary : UsageSummary F) :
    ((records.map UsageRecord.logLine).filterMap Usage.readPayload).foldl
        (UsageSummary.addEventPayload host) summary =
      (records.map (UsageRecord.asRead host)).foldl UsageSummary.addRecord summary := by
  induction records generalizing summary with
  | nil => rfl
  | cons r records ih =>
    have hr := h r List.mem_cons_self
    rw [List.map_cons, List.filterMap_cons_some hr.readPayload, List.foldl_cons,
      hr.addEventPayload, List.map_cons, List.foldl_cons]
    exact ih (fun r' hr' => h r' (List.mem_cons_of_mem _ hr')) _

theorem replayedSummary_eq (h : ∀ r ∈ records, r.Sound) :
    replayedSummary host (records.map UsageRecord.logLine) =
      liveSummary (records.map (UsageRecord.asRead host)) := foldl_lines host h {}

theorem liveSummary_eq (records : List (UsageRecord F)) : liveSummary records = {
      byModel := records.foldl (fun models r => addToModel r.modelKey r models) []
      records := records
      calls := records.length } := by
  induction records using List.reverseRecOn with
  | nil => rfl
  | append_singleton records r ih =>
    unfold liveSummary at ih ⊢
    rw [List.foldl_concat, ih, List.foldl_concat, List.length_append, List.length_singleton]
    rfl

end Replay

end AlysisCode.Usage

/-! ### When the reports agree

When a report from the log equals the live one.

Three things are lost on the way: an error of the estimate that is negative, the emptiness of a
model's name, and that of a role.  The first two always show in some calibration snapshot; a role
shows only in the record with the most uncached prompt tokens.
-/

namespace AlysisCode.Usage

variable {F : Type} [Arith F]

/-! ### The condition -/

/-- Two summaries report the same. -/
structure Agree (a b : UsageSummary F) : Prop where
  totals : a.totals = b.totals
  rows : a.byModelRows = b.byModelRows
  recent : ∀ filters limit,
    a.recentCalibrationSnapshot filters limit = b.recentCalibrationSnapshot filters limit
  groups : ∀ limit, a.calibrationGroupRows limit = b.calibrationGroupRows limit

def UsageRecord.uncached (r : UsageRecord F) : Int := atLeastZero r.uncachedPromptTokens

/-- No estimate was above the reported prompt, every model has a name, and a record without a
role does not stand out among those that report their cache: an earlier one has as many uncached
prompt tokens, or a later one has more. -/
structure Survives (records : List (UsageRecord F)) : Prop where
  errors : ∀ r ∈ records, 0 ≤ r.promptEstimateErrorTokens.getD 0
  models : ∀ r ∈ records, r.requestedModel ≠ ""
  roles : ∀ before r after, records.filter (·.reportsCache) = before ++ r :: after →
    r.role = "" → (∃ q ∈ before, r.uncached ≤ q.uncached) ∨ ∃ q ∈ after, r.uncached < q.uncached

/-! ### Records that differ in their roles -/

/-- The record as it is read back, where its error and its model survive. -/
def UsageRecord.renamed (host : Host F) (r : UsageRecord F) : UsageRecord F :=
  { r with
    role := if r.role = "" then "main" else r.role
    requestPlan := safeRequestPlan host r.requestPlan }

omit [Arith F] in
theorem asRead_eq_renamed (host : Host F) {r : UsageRecord F}
    (herror : 0 ≤ r.promptEstimateErrorTokens.getD 0) (hmodel : r.requestedModel ≠ "") :
    r.asRead host = r.renamed host := by
  have hcount : IsCount r.promptEstimateErrorTokens := by
    intro n hn
    rw [Option.mem_def] at hn
    rwa [hn] at herror
  unfold UsageRecord.asRead UsageRecord.renamed
  rw [hcount.safeCount_eq, if_neg hmodel]

theorem addToModel_renamed (host : Host F) (key : String) (r : UsageRecord F)
    (models : List (String × ModelUsageTotals F)) :
    addToModel key (r.renamed host) models = addToModel key r models := by
  induction models with
  | nil => rfl
  | cons entry rest ih =>
    obtain ⟨name, totals⟩ := entry
    unfold addToModel
    rw [ih]
    rfl

variable (host : Host F) (records : List (UsageRecord F))

theorem byModel_renamed : (liveSummary (records.map (UsageRecord.renamed host))).byModel =
      (liveSummary records).byModel := by
  rw [liveSummary_eq, liveSummary_eq]
  dsimp only
  rw [List.foldl_map]
  congr 1
  funext models r
  exact addToModel_renamed host r.modelKey r models

omit [Arith F] in
theorem filter_renamed {p : UsageRecord F → Bool} (hp : ∀ r, p (r.renamed host) = p r) :
    (records.map (UsageRecord.renamed host)).filter p =
      (records.filter p).map (UsageRecord.renamed host) := by
  rw [List.filter_map]
  congr 1
  exact List.filter_congr fun r _ => hp r

theorem takeLast_map {α β : Type} (f : α → β) (items : List α) (count : Nat) :
    takeLast (items.map f) count = (takeLast items count).map f := by
  unfold takeLast
  rw [List.length_map, List.map_drop]

theorem calibrationSnapshot_renamed :
    calibrationSnapshot (records.map (UsageRecord.renamed host)) = calibrationSnapshot records := by
  unfold calibrationSnapshot
  dsimp only
  rw [filter_renamed host records (p := fun r => decide (5 ≤ r.usageSchemaVersion))
    fun _ => rfl, filter_renamed host _ (p := fun r => !r.requestHasMedia) fun _ => rfl]
  rw [List.filterMap_map, List.map_map, List.map_map, List.map_map, List.countP_map,
    List.countP_map, List.length_map, List.length_map, List.length_map]
  rfl

theorem recent_renamed (filters : Filters) (limit : Int) :
    (liveSummary (records.map (UsageRecord.renamed host))).recentCalibrationSnapshot filters limit =
      (liveSummary records).recentCalibrationSnapshot filters limit := by
  rw [liveSummary_eq, liveSummary_eq]
  unfold UsageSummary.recentCalibrationSnapshot
  rw [filter_renamed host records (p := filters.strip.accepts) fun _ => rfl, takeLast_map,
    calibrationSnapshot_renamed]

omit [Arith F] in
theorem addToGroup_renamed (key : List String) (r : UsageRecord F)
    (groups : List (List String × List (UsageRecord F))) :
    addToGroup key (r.renamed host)
        (groups.map fun g => (g.1, g.2.map (UsageRecord.renamed host))) =
      (addToGroup key r groups).map fun g => (g.1, g.2.map (UsageRecord.renamed host)) := by
  induction groups with
  | nil => rfl
  | cons group rest ih =>
    obtain ⟨name, members⟩ := group
    rw [List.map_cons]
    unfold addToGroup
    split
    · rw [List.map_cons, List.map_append]
      rfl
    · rw [List.map_cons, ih]

theorem groups_renamed (limit : Int) :
    (liveSummary (records.map (UsageRecord.renamed host))).calibrationGroupRows limit =
      (liveSummary records).calibrationGroupRows limit := by
  have hfold (records : List (UsageRecord F)) (groups : List (List String × List (UsageRecord F))) :
      (records.map (UsageRecord.renamed host)).foldl
          (fun groups r => addToGroup r.groupKey r groups)
          (groups.map fun g => (g.1, g.2.map (UsageRecord.renamed host))) =
        (records.foldl (fun groups r => addToGroup r.groupKey r groups) groups).map
          fun g => (g.1, g.2.map (UsageRecord.renamed host)) := by
    induction records generalizing groups with
    | nil => rfl
    | cons r records ih =>
      rw [List.map_cons, List.foldl_cons, List.foldl_cons, ← ih, ← addToGroup_renamed]
      rfl
  rw [liveSummary_eq, liveSummary_eq]
  unfold UsageSummary.calibrationGroupRows
  dsimp only
  have hgroups := hfold (takeLast records (maxItems limit 200)) []
  rw [List.map_nil] at hgroups
  rw [takeLast_map, hgroups]
  generalize (takeLast records (maxItems limit 200)).foldl
    (fun groups r => addToGroup r.groupKey r groups) [] = groups
  have hsort : (groups.map fun g => (g.1, g.2.map (UsageRecord.renamed host))).mergeSort
      (fun a b => decide (a.1 ≤ b.1)) = (groups.mergeSort fun a b => decide (a.1 ≤ b.1)).map
          fun g => (g.1, g.2.map (UsageRecord.renamed host)) :=
    (List.map_mergeSort
      (f := fun g : List String × List (UsageRecord F) => (g.1, g.2.map (UsageRecord.renamed host)))
      fun _ _ _ _ => rfl).symm
  rw [hsort, List.map_map]
  refine List.map_congr_left fun group _ => ?_
  rw [Function.comp_apply, calibrationSnapshot_renamed]

/-! ### The record with the most uncached prompt tokens -/

/-- The better of two, the first if they are equal. -/
def moreUncached (best other : UsageRecord F × Nat) : UsageRecord F × Nat :=
  if best.1.uncached < other.1.uncached then other else best

omit [Arith F] in
theorem largestUncached_cons (first : UsageRecord F × Nat) (rest : List (UsageRecord F × Nat)) :
    largestUncached (first :: rest) = some (rest.foldl moreUncached first) := rfl

omit [Arith F] in
/-- The fold stays, or moves to the first one that nothing exceeds. -/
theorem foldl_moreUncached (best : UsageRecord F × Nat) (rest : List (UsageRecord F × Nat)) :
    (rest.foldl moreUncached best = best ∧ ∀ q ∈ rest, q.1.uncached ≤ best.1.uncached) ∨
      ∃ before x after, rest = before ++ x :: after ∧ rest.foldl moreUncached best = x ∧
        best.1.uncached < x.1.uncached ∧ (∀ q ∈ before, q.1.uncached < x.1.uncached) ∧
        ∀ q ∈ after, q.1.uncached ≤ x.1.uncached := by
  induction rest generalizing best with
  | nil => exact .inl ⟨rfl, fun q hq => by cases hq⟩
  | cons other rest ih =>
    rw [List.foldl_cons]
    by_cases hmore : best.1.uncached < other.1.uncached
    · have hstep : moreUncached best other = other := if_pos hmore
      rw [hstep]
      obtain ⟨hstay, hall⟩ | ⟨before, x, after, rfl, hx, hlt, hbefore, hafter⟩ := ih other
      · exact .inr ⟨[], other, rest, rfl, hstay, hmore, fun q hq => (by cases hq), hall⟩
      · refine .inr ⟨other :: before, x, after, rfl, hx, by omega, fun q hq => ?_, hafter⟩
        obtain rfl | hq := List.mem_cons.mp hq
        · exact hlt
        · exact hbefore q hq
    · have hstep : moreUncached best other = best := if_neg hmore
      rw [hstep]
      obtain ⟨hstay, hall⟩ | ⟨before, x, after, rfl, hx, hlt, hbefore, hafter⟩ := ih best
      · refine .inl ⟨hstay, fun q hq => ?_⟩
        obtain rfl | hq := List.mem_cons.mp hq
        · omega
        · exact hall q hq
      · refine .inr ⟨other :: before, x, after, rfl, hx, hlt, fun q hq => ?_, hafter⟩
        obtain rfl | hq := List.mem_cons.mp hq
        · omega
        · exact hbefore q hq

omit [Arith F] in
theorem largestUncached_spec {l : List (UsageRecord F × Nat)} {x : UsageRecord F × Nat}
    (h : largestUncached l = some x) : ∃ before after, l = before ++ x :: after ∧
      (∀ q ∈ before, q.1.uncached < x.1.uncached) ∧ ∀ q ∈ after, q.1.uncached ≤ x.1.uncached := by
  cases l with
  | nil => cases h
  | cons first rest =>
    rw [largestUncached_cons] at h
    cases h
    obtain ⟨hstay, hall⟩ | ⟨before, x, after, rfl, hx, hlt, hbefore, hafter⟩ :=
      foldl_moreUncached first rest
    · rw [hstay]
      exact ⟨[], rest, rfl, fun q hq => (by cases hq), hall⟩
    · rw [hx]
      refine ⟨first :: before, after, rfl, fun q hq => ?_, hafter⟩
      obtain rfl | hq := List.mem_cons.mp hq
      · exact hlt
      · exact hbefore q hq

omit [Arith F] in
/-- And the first that nothing exceeds is the largest one. -/
theorem largestUncached_eq {before after : List (UsageRecord F × Nat)} {x : UsageRecord F × Nat}
    (hbefore : ∀ q ∈ before, q.1.uncached < x.1.uncached)
    (hafter : ∀ q ∈ after, q.1.uncached ≤ x.1.uncached) :
    largestUncached (before ++ x :: after) = some x := by
  have hkeep (rest : List (UsageRecord F × Nat)) (hrest : ∀ q ∈ rest,
      q.1.uncached ≤ x.1.uncached) : rest.foldl moreUncached x = x := by
    induction rest with
    | nil => rfl
    | cons q rest ih =>
      have hq := hrest q List.mem_cons_self
      have hstep : moreUncached x q = x := if_neg (by omega)
      rw [List.foldl_cons, hstep]
      exact ih fun q' hq' => hrest q' (List.mem_cons_of_mem _ hq')
  have hreach (before : List (UsageRecord F × Nat)) (best : UsageRecord F × Nat)
      (hbest : best.1.uncached < x.1.uncached)
      (hbefore : ∀ q ∈ before, q.1.uncached < x.1.uncached) :
      (before ++ x :: after).foldl moreUncached best = x := by
    induction before generalizing best with
    | nil =>
      have hstep : moreUncached best x = x := if_pos hbest
      rw [List.nil_append, List.foldl_cons, hstep]
      exact hkeep after hafter
    | cons q before ih =>
      rw [List.cons_append, List.foldl_cons]
      refine ih _ ?_ fun q' hq' => hbefore q' (List.mem_cons_of_mem _ hq')
      unfold moreUncached
      split
      · exact hbefore q List.mem_cons_self
      · exact hbest
  cases before with
  | nil =>
    rw [List.nil_append, largestUncached_cons, hkeep after hafter]
  | cons first before =>
    rw [List.cons_append, largestUncached_cons, hreach before first
      (hbefore first List.mem_cons_self) fun q hq => hbefore q (List.mem_cons_of_mem _ hq)]

/-! ### Cache efficiency -/

def reportedFrom (records : List (UsageRecord F)) : List (UsageRecord F × Nat) :=
  (records.zipIdx 1).filter (·.1.reportsCache)

omit [Arith F] in
theorem map_fst_reportedFrom (records : List (UsageRecord F)) :
    (reportedFrom records).map (·.1) = records.filter (·.reportsCache) := by
  unfold reportedFrom
  have hmap := List.filter_map (f := fun q : UsageRecord F × Nat => q.1) (p := (·.reportsCache))
    (l := records.zipIdx 1)
  rw [List.zipIdx_map_fst] at hmap
  exact hmap.symm

omit [Arith F] in
theorem reportedFrom_renamed : reportedFrom (records.map (UsageRecord.renamed host)) =
      (reportedFrom records).map fun q => (q.1.renamed host, q.2) := by
  unfold reportedFrom
  rw [List.zipIdx_map, List.filter_map]
  rfl

omit [Arith F] in
theorem largestUncached_renamed (l : List (UsageRecord F × Nat)) :
    largestUncached (l.map fun q => (q.1.renamed host, q.2)) =
      (largestUncached l).map fun q => (q.1.renamed host, q.2) := by
  cases hlargest : largestUncached l with
  | none =>
    cases l with
    | nil => rfl
    | cons first rest => cases hlargest
  | some x =>
    obtain ⟨before, after, rfl, hbefore, hafter⟩ := largestUncached_spec hlargest
    rw [List.map_append, List.map_cons]
    refine largestUncached_eq (fun q hq => ?_) fun q hq => ?_
    · obtain ⟨q', hq', rfl⟩ := List.mem_map.mp hq
      exact hbefore q' hq'
    · obtain ⟨q', hq', rfl⟩ := List.mem_map.mp hq
      exact hafter q' hq'

theorem cacheEfficiency_renamed : cacheEfficiency (records.map (UsageRecord.renamed host)) =
      { cacheEfficiency records with
        largestUncachedCall := (cacheEfficiency records).largestUncachedCall.map fun call =>
          { call with role := if call.role = "" then "main" else call.role } } := by
  have hreported := reportedFrom_renamed host records
  unfold reportedFrom at hreported
  unfold cacheEfficiency
  dsimp only
  rw [hreported, largestUncached_renamed, List.length_map, List.map_map, List.map_map,
    Option.map_map, Option.map_map]
  rfl

/-- A record without a role stands out. -/
def Exposed (records : List (UsageRecord F)) : Prop :=
  ∃ call ∈ (cacheEfficiency records).largestUncachedCall, call.role = ""

theorem exposed_iff : Exposed records ↔
    ∃ before r after, records.filter (·.reportsCache) = before ++ r :: after ∧ r.role = "" ∧
      (∀ q ∈ before, q.uncached < r.uncached) ∧ ∀ q ∈ after, q.uncached ≤ r.uncached := by
  have hlargest : (cacheEfficiency records).largestUncachedCall =
      (largestUncached (reportedFrom records)).map fun entry =>
        ⟨entry.2, entry.1.uncached, entry.1.role, entry.1.requestedModel, entry.1.timestamp⟩ := rfl
  unfold Exposed
  rw [hlargest, ← map_fst_reportedFrom]
  constructor
  · rintro ⟨call, hcall, hrole⟩
    obtain ⟨x, hx, rfl⟩ := Option.map_eq_some_iff.mp hcall
    obtain ⟨before, after, heq, hbefore, hafter⟩ := largestUncached_spec hx
    refine ⟨before.map (·.1), x.1, after.map (·.1), by rw [heq, List.map_append, List.map_cons],
      hrole, fun q hq => ?_, fun q hq => ?_⟩
    · obtain ⟨q', hq', rfl⟩ := List.mem_map.mp hq
      exact hbefore q' hq'
    · obtain ⟨q', hq', rfl⟩ := List.mem_map.mp hq
      exact hafter q' hq'
  · rintro ⟨before, r, after, heq, hrole, hbefore, hafter⟩
    obtain ⟨before', rest, hreported, rfl, hrest⟩ := List.map_eq_append_iff.mp heq
    obtain ⟨x, after', rfl, rfl, rfl⟩ := List.map_eq_cons_iff.mp hrest
    have hx : largestUncached (reportedFrom records) = some x := by
      rw [hreported]
      exact largestUncached_eq (fun q hq => hbefore q.1 (List.mem_map_of_mem hq))
        fun q hq => hafter q.1 (List.mem_map_of_mem hq)
    rw [hx]
    exact ⟨_, rfl, hrole⟩

/-! ### The condition is enough -/

omit [Arith F] in
theorem survives_roles_iff : (∀ before r after,
      records.filter (·.reportsCache) = before ++ r :: after → r.role = "" →
      (∃ q ∈ before, r.uncached ≤ q.uncached) ∨ ∃ q ∈ after, r.uncached < q.uncached) ↔
    ¬ ∃ before r after, records.filter (·.reportsCache) = before ++ r :: after ∧ r.role = "" ∧
      (∀ q ∈ before, q.uncached < r.uncached) ∧ ∀ q ∈ after, q.uncached ≤ r.uncached := by
  constructor
  · rintro h ⟨before, r, after, heq, hrole, hbefore, hafter⟩
    obtain ⟨q, hq, hle⟩ | ⟨q, hq, hlt⟩ := h before r after heq hrole
    · have hless := hbefore q hq
      omega
    · have hless := hafter q hq
      omega
  · intro h before r after heq hrole
    by_contra hnot
    rw [not_or] at hnot
    refine h ⟨before, r, after, heq, hrole, fun q hq => ?_, fun q hq => ?_⟩
    · by_contra hle
      exact hnot.1 ⟨q, hq, by omega⟩
    · by_contra hlt
      exact hnot.2 ⟨q, hq, by omega⟩

theorem agree_renamed (hroles : ¬ Exposed records) :
    Agree (liveSummary (records.map (UsageRecord.renamed host))) (liveSummary records) := by
  have hmodels := byModel_renamed host records
  have hcache : cacheEfficiency (records.map (UsageRecord.renamed host)) =
      cacheEfficiency records := by
    rw [cacheEfficiency_renamed]
    unfold Exposed at hroles
    cases hlargest : (cacheEfficiency records).largestUncachedCall with
    | none => rw [Option.map_none, ← hlargest]
    | some call =>
      have hrole : call.role ≠ "" := fun hempty => hroles ⟨call, hlargest, hempty⟩
      rw [Option.map_some, if_neg hrole, ← hlargest]
  have hrecords (records : List (UsageRecord F)) : (liveSummary records).records = records := by
    rw [liveSummary_eq]
  have hcalls (records : List (UsageRecord F)) : (liveSummary records).calls = records.length := by
    rw [liveSummary_eq]
  refine ⟨?_, ?_, recent_renamed host records, groups_renamed host records⟩
  · unfold UsageSummary.totals
    rw [hmodels, hrecords, hrecords, hcalls, hcalls, hcache, List.length_map]
  · unfold UsageSummary.byModelRows
    rw [hmodels]

/-! ### The condition is needed -/

theorem recent_all (filters : Filters) :
    ((liveSummary records).recentCalibrationSnapshot filters (records.length + 1)).1 =
      calibrationSnapshot (records.filter filters.strip.accepts) := by
  have hlength := List.length_filter_le filters.strip.accepts records
  have htake : takeLast (records.filter filters.strip.accepts)
      (maxItems (records.length + 1) 20) = records.filter filters.strip.accepts := by
    unfold takeLast maxItems
    rw [if_neg (by omega)]
    have hzero : (records.filter filters.strip.accepts).length -
        (max 1 ((records.length : Int) + 1)).toNat = 0 := by omega
    rw [hzero, List.drop_zero]
  unfold UsageSummary.recentCalibrationSnapshot
  rw [liveSummary_eq]
  exact congrArg calibrationSnapshot htake

theorem agree_snapshots {records records' : List (UsageRecord F)}
    (hlength : records'.length = records.length)
    (h : Agree (liveSummary records') (liveSummary records)) (filters : Filters) :
    calibrationSnapshot (records'.filter filters.strip.accepts) =
      calibrationSnapshot (records.filter filters.strip.accepts) := by
  have hrecent := congrArg Prod.fst (h.recent filters (records.length + 1))
  rwa [recent_all, ← hlength, recent_all] at hrecent

theorem imp_of_countP_eq {α : Type} {p q : α → Bool} {l : List α}
    (hpq : ∀ a ∈ l, p a = true → q a = true) (h : l.countP q = l.countP p) :
    ∀ a ∈ l, q a = true → p a = true := by
  induction l with
  | nil => exact fun a ha => by cases ha
  | cons a l ih =>
    have hle : l.countP p ≤ l.countP q :=
      List.countP_mono_left fun b hb => hpq b (List.mem_cons_of_mem _ hb)
    have ha := hpq a List.mem_cons_self
    rw [List.countP_cons, List.countP_cons] at h
    intro b hb hq
    obtain rfl | hb := List.mem_cons.mp hb
    · by_contra hp
      rw [if_pos hq, if_neg hp] at h
      omega
    · refine ih (fun b hb => hpq b (List.mem_cons_of_mem _ hb)) ?_ b hb hq
      cases hpa : p a with
      | true =>
        rw [ha hpa, hpa] at h
        simpa using h
      | false =>
        cases hqa : q a with
        | true =>
          rw [hqa, hpa] at h
          simp only [if_true, Bool.false_eq_true, if_false] at h
          omega
        | false =>
          rw [hqa, hpa] at h
          simpa using h

theorem errors_of_agree
    (h : Agree (liveSummary (records.map (UsageRecord.asRead host))) (liveSummary records)) :
    ∀ r ∈ records, 0 ≤ r.promptEstimateErrorTokens.getD 0 := by
  have hall : ∀ r : UsageRecord F, ({} : Filters).strip.accepts r = true := fun r => rfl
  have hsnapshots := agree_snapshots (List.length_map _) h {}
  rw [List.filter_eq_self.mpr fun r _ => hall r, List.filter_eq_self.mpr fun r _ => hall r]
    at hsnapshots
  have hover := congrArg Snapshot.promptEstimateOverestimateCalls hsnapshots
  have hlive : (calibrationSnapshot records).promptEstimateOverestimateCalls =
      records.countP fun r => decide (r.promptEstimateErrorTokens.getD 0 < 0) := rfl
  have hread : (calibrationSnapshot
      (records.map (UsageRecord.asRead host))).promptEstimateOverestimateCalls = 0 := by
    refine List.countP_eq_zero.mpr fun r hr => ?_
    obtain ⟨r', -, rfl⟩ := List.mem_map.mp hr
    rw [decide_eq_true_eq]
    exact Int.not_lt.mpr (isCount_safeCount r'.promptEstimateErrorTokens).getD
  rw [hread, hlive] at hover
  intro r hr
  have hnone := List.countP_eq_zero.mp hover.symm r hr
  simpa using hnone

theorem models_of_agree
    (h : Agree (liveSummary (records.map (UsageRecord.asRead host))) (liveSummary records)) :
    ∀ r ∈ records, r.requestedModel ≠ "" := by
  have hsnapshots := congrArg Snapshot.records
    (agree_snapshots (List.length_map _) h { requestedModel := "unknown-model" })
  have hname : strip "unknown-model" = "unknown-model" := by decide +kernel
  have haccepts (r : UsageRecord F) :
      ({ requestedModel := "unknown-model" } : Filters).strip.accepts r =
        decide (strip r.requestedModel = "unknown-model") := by
    have hstrip : ({ requestedModel := "unknown-model" } : Filters).strip =
        { requestedModel := "unknown-model" } := by
      unfold Filters.strip
      rw [hname]
      rfl
    rw [hstrip]
    simp [Filters.accepts]
  have hcounts : records.countP (fun r => decide
      (strip (r.asRead host).requestedModel = "unknown-model")) =
        records.countP fun r => decide (strip r.requestedModel = "unknown-model") := by
    have hlength (records : List (UsageRecord F)) : (calibrationSnapshot records).records =
        records.length := rfl
    rw [hlength, hlength, ← List.countP_eq_length_filter, ← List.countP_eq_length_filter,
      List.countP_map, funext haccepts, Function.comp_def] at hsnapshots
    exact hsnapshots
  have hmodel (r : UsageRecord F) : (r.asRead host).requestedModel =
      if r.requestedModel = "" then "unknown-model" else r.requestedModel := rfl
  have hback := imp_of_countP_eq (fun r _ hr => by
    rw [decide_eq_true_eq] at hr ⊢
    rw [hmodel]
    split
    · exact hname
    · exact hr) hcounts
  intro r hr hempty
  have hlive := hback r hr (by rw [decide_eq_true_eq, hmodel, if_pos hempty, hname])
  rw [decide_eq_true_eq, hempty] at hlive
  exact absurd hlive (by decide +kernel)

/-- **A report from the log equals the live one exactly when the condition holds.** -/
theorem agree_iff :
    Agree (liveSummary (records.map (UsageRecord.asRead host))) (liveSummary records) ↔
      Survives records := by
  have hexposed := (survives_roles_iff records).trans (not_congr (exposed_iff records)).symm
  have hrenamed (herrors : ∀ r ∈ records, 0 ≤ r.promptEstimateErrorTokens.getD 0)
      (hmodels : ∀ r ∈ records, r.requestedModel ≠ "") :
      records.map (UsageRecord.asRead host) = records.map (UsageRecord.renamed host) :=
    List.map_congr_left fun r hr => asRead_eq_renamed host (herrors r hr) (hmodels r hr)
  constructor
  · intro h
    have herrors := errors_of_agree host records h
    have hmodels := models_of_agree host records h
    refine ⟨herrors, hmodels, hexposed.mpr ?_⟩
    rintro ⟨call, hcall, hrole⟩
    rw [hrenamed herrors hmodels] at h
    have hcache := congrArg (fun t => t.cacheEfficiency.largestUncachedCall) h.totals
    have htotals (records : List (UsageRecord F)) : (liveSummary records).totals.cacheEfficiency =
        cacheEfficiency records := by
      rw [liveSummary_eq]
      rfl
    rw [htotals, htotals, cacheEfficiency_renamed] at hcache
    rw [Option.mem_def.mp hcall, Option.map_some, if_pos hrole] at hcache
    have hmain := congrArg LargestCall.role (Option.some.inj hcache)
    rw [hrole] at hmain
    exact absurd hmain (by simp)
  · rintro ⟨herrors, hmodels, hroles⟩
    rw [hrenamed herrors hmodels]
    exact agree_renamed host records (hexposed.mp hroles)

theorem sound_buildUsageRecord (calls : List (Call F)) :
    ∀ r ∈ calls.map (buildUsageRecord host), r.Sound := by
  intro r hr
  obtain ⟨call, -, rfl⟩ := List.mem_map.mp hr
  exact sound_buildRecord host call.withUsage

/-- **Usage survives the log** exactly where no estimate was above the reported prompt, every
model has a name and no record without a role stands out. -/
theorem usage_survives_iff (calls : List (Call F)) :
    Agree (replayedSummary host ((calls.map (buildUsageRecord host)).map UsageRecord.logLine))
        (liveSummary (calls.map (buildUsageRecord host))) ↔
      Survives (calls.map (buildUsageRecord host)) := by
  rw [replayedSummary_eq host (sound_buildUsageRecord host calls), agree_iff]

/-! ### One call -/

/-- Floats of which nothing is known. -/
instance : Arith Unit where
  ofInt _ := ()
  add _ _ := ()
  sub _ _ := ()
  mul _ _ := ()
  div _ _ := ()
  abs _ := ()
  lt _ _ := false
  le _ _ := true
  ceil _ := 0

/-- A host that estimates ten tokens for every text. -/
def exampleHost : Host Unit where
  python := { str := fun _ => "", isZero := fun _ => true }
  intOfFloat _ := some 0
  intOfText _ := none
  floatOfText _ := none
  casefold s := s
  estimateTokens _ := 10
  stripMetadata message := message
  normalizeContent content := content

/-- A call with one message, for which the provider reports a prompt of eight tokens. -/
def exampleCall : Call Unit where
  timestamp := "2026-01-02T03:04:05+00:00"
  role := "main"
  requestedModel := "m"
  messages := [[("role", .str "user"), ("content", .str "hello")]]
  apiPromptTokens := some 8
  apiCompletionTokens := some 1
  apiTotalTokens := some 9
  registry _ := {}

/-- The estimate was two tokens above; the log does not say so. -/
theorem usage_lost : ¬ Agree (replayedSummary exampleHost
      (([exampleCall].map (buildUsageRecord exampleHost)).map UsageRecord.logLine))
    (liveSummary ([exampleCall].map (buildUsageRecord exampleHost))) := by
  rw [replayedSummary_eq exampleHost (sound_buildUsageRecord exampleHost _), agree_iff]
  intro h
  have herror : (buildUsageRecord exampleHost exampleCall).promptEstimateErrorTokens =
      some (-2) := by decide +kernel
  have hle := h.errors _ (List.mem_map_of_mem List.mem_cons_self)
  rw [herror] at hle
  exact absurd hle (by decide)

end AlysisCode.Usage
