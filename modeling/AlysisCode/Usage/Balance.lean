/-
The report of a session adds up.

Every call is counted once, in the row of its model and in the totals, whatever the order of the
calls.  `add_record` finds the row by its name, so no model has two.
-/
import AlysisCode.Usage.Agreement

namespace AlysisCode.Usage

variable {F : Type} {records : List (UsageRecord F)} {model key : String}

/-- The counters of all the records together. -/
def total (records : List (UsageRecord F)) : Counters :=
  (records.map UsageRecord.counters).foldl Counters.add {}

theorem Counters.add_comm (a b : Counters) : a.add b = b.add a := by
  unfold Counters.add
  congr 1
  all_goals first | exact Int.add_comm _ _ | exact max_comm _ _

theorem Counters.add_assoc (a b c : Counters) : (a.add b).add c = a.add (b.add c) := by
  unfold Counters.add
  congr 1
  all_goals first | exact Int.add_assoc _ _ _ | exact max_assoc _ _ _

theorem Counters.add_right_comm (a b c : Counters) : (a.add b).add c = (a.add c).add b := by
  rw [add_assoc, add_comm b, add_assoc]

theorem foldl_add (a b : Counters) (counters : List Counters) :
    counters.foldl Counters.add (a.add b) = (counters.foldl Counters.add a).add b := by
  induction counters generalizing a with
  | nil => rfl
  | cons c rest ih => rw [List.foldl_cons, a.add_right_comm, ih, List.foldl_cons]

theorem total_snoc (records : List (UsageRecord F)) (r : UsageRecord F) :
    total (records ++ [r]) = (total records).add r.counters := by
  rw [total, List.map_append, List.foldl_append]
  rfl

theorem total_perm {records' : List (UsageRecord F)} (h : records'.Perm records) :
    total records' = total records :=
  (h.map _).foldl_eq' (fun a _ b _ sum => sum.add_right_comm a b) _

section Rows

variable [Arith F] {r : UsageRecord F} {models : List (String × ModelUsageTotals F)}

/-- A record that is added to its row is added to the sum of the rows. -/
theorem foldl_addToModel {acc : Counters} (hacc : ({} : Counters).add acc = acc) :
    ((addToModel key r models).map (·.2.counters)).foldl Counters.add acc =
      ((models.map (·.2.counters)).foldl Counters.add acc).add r.counters := by
  induction models generalizing acc with
  | nil =>
    show acc.add (({} : Counters).add r.counters) = acc.add r.counters
    rw [← Counters.add_assoc, acc.add_comm, hacc]
  | cons entry rest ih =>
    unfold addToModel
    split
    · show (rest.map _).foldl _ (acc.add (entry.2.counters.add r.counters)) = _
      rw [← Counters.add_assoc, foldl_add]
      rfl
    · exact ih (by rw [← Counters.add_assoc, hacc])

theorem keys_addToModel : (addToModel key r models).map (·.1) =
    if key ∈ models.map (·.1) then models.map (·.1) else models.map (·.1) ++ [key] := by
  induction models with
  | nil => rfl
  | cons entry rest ih =>
    unfold addToModel
    by_cases hname : entry.1 = key
    · simp [hname]
    · simp only [if_neg hname, List.map_cons, ih, List.mem_cons, Ne.symm hname, false_or]
      split
      · rfl
      · rfl

theorem filter_addToModel : (addToModel key r models).filter (·.1 = model) =
    if model = key then addToModel key r (models.filter (·.1 = model))
    else models.filter (·.1 = model) := by
  by_cases h : model = key
  · subst h
    rw [if_pos rfl]
    induction models with
    | nil => simp [addToModel]
    | cons entry rest ih =>
      by_cases hname : entry.1 = model
      · simp [hname, addToModel]
      · simpa [hname, addToModel] using ih
  · rw [if_neg h]
    induction models with
    | nil => simp [addToModel, Ne.symm h]
    | cons entry rest ih =>
      unfold addToModel
      split
      · next hname => simp [hname, Ne.symm h]
      · simp [List.filter_cons, ih]

/-- What the rows add up to. -/
def sumRows (models : List (String × ModelUsageTotals F)) : Counters :=
  (models.map (·.2.counters)).foldl Counters.add {}

/-- One row for each model that was called, with the counters of its calls. -/
structure RowsOf (records : List (UsageRecord F)) (models : List (String × ModelUsageTotals F)) :
    Prop where
  nodup : (models.map (·.1)).Nodup
  named : ∀ model, model ∈ models.map (·.1) ↔ ∃ r ∈ records, r.modelKey = model
  row : ∀ model, sumRows (models.filter (·.1 = model)) = total (records.filter (·.modelKey = model))
  all : sumRows models = total records

theorem RowsOf.add (h : RowsOf records models) (r : UsageRecord F) :
    RowsOf (records ++ [r]) (addToModel r.modelKey r models) := by
  refine ⟨?_, fun model => ?_, fun model => ?_, ?_⟩
  · rw [keys_addToModel]
    split
    · exact h.nodup
    · exact List.nodup_append.mpr ⟨h.nodup, by simp, by grind⟩
  · rw [keys_addToModel]
    have hnamed := h.named
    split <;> grind
  · rw [filter_addToModel, List.filter_append]
    split
    · next hmodel =>
      have hkeep : [r].filter (·.modelKey = model) = [r] := by simp [hmodel]
      rw [hkeep, total_snoc, ← h.row]
      exact foldl_addToModel rfl
    · next hmodel => simpa [Ne.symm hmodel] using h.row model
  · rw [total_snoc, ← h.all]
    exact foldl_addToModel rfl

theorem rowsOf_liveSummary (records : List (UsageRecord F)) :
    RowsOf records (liveSummary records).byModel := by
  induction records using List.reverseRecOn with
  | nil => exact ⟨List.nodup_nil, by simp [liveSummary], fun _ => rfl, rfl⟩
  | append_singleton records r ih =>
    rw [liveSummary_eq, List.foldl_concat]
    rw [liveSummary_eq] at ih
    exact ih.add r

/-- **The rows and the totals of a report add up** to the calls, in any order of the calls. -/
theorem report_adds_up (records : List (UsageRecord F)) :
    RowsOf records (liveSummary records).byModel ∧
      (liveSummary records).totals.counters = total records ∧
      ∀ records', records'.Perm records →
        (liveSummary records').totals.counters = (liveSummary records).totals.counters := by
  have htotals (records : List (UsageRecord F)) :
      (liveSummary records).totals.counters = total records := by
    rw [← (rowsOf_liveSummary records).all, sumRows, List.foldl_map]
    exact List.foldl_map
  refine ⟨rowsOf_liveSummary records, htotals records, fun records' hperm => ?_⟩
  rw [htotals, htotals, total_perm hperm]

end Rows

end AlysisCode.Usage
