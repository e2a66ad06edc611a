/-
Summaries of a conversation, as they are read and kept.

Whatever is read for a summary is brought to one form: its texts stripped, the lists without
empty texts and without texts that are equal up to case, and ten items at most.  A summary of
that form is read as it is, so what is written can be restored.
-/
import AlysisCode.Compaction.Basic
import AlysisCode.Library.Collect

namespace AlysisCode.Compaction

variable {F : Type}

/-! ### Lists of texts -/

variable (python : Python F)

/-- `str(value or "").strip()` -/
def strippedText (value : Json F) : String :=
  strip (python.text (python.orElse value (.str "")))

def maxItems : Nat := 10

def normalizeStringList : Json F → List String
  | .arr items =>
    Collect.distinct folded maxItems []
      ((items.map fun item => strip (python.text item)).filter (· ≠ ""))
  | _ => []

def mergeStringLists (newValue prevValue : Json F) : List String :=
  Collect.distinct folded maxItems []
    (normalizeStringList python newValue ++ normalizeStringList python prevValue)

def texts (items : List String) : Json F := .arr (items.map .str)

/-! ### Work that was done -/

/-- An entry of `work_done`. -/
structure Work where
  summary : String
  files : List String := []
  commands : List String := []
  results : String := ""

def Work.toJson (work : Work) : Json F :=
  .obj [("summary", .str work.summary), ("files", texts work.files),
    ("commands", texts work.commands), ("results", .str work.results)]

/-- The entry for one item of `_normalize_work_done`. -/
def workEntry : Json F → Work
  | .obj entry =>
    { summary := strippedText python (Json.get entry "summary")
      files := normalizeStringList python (Json.get entry "files")
      commands := normalizeStringList python (Json.get entry "commands")
      results := strippedText python (Json.get entry "results") }
  | item => { summary := strip (python.text item) }

/-- An entry without a summary is skipped. -/
def normalizeWork (item : Json F) : Option Work :=
  let work := workEntry python item
  if work.summary = "" then none else some work

def normalizeWorkDone : Json F → List Work
  | .arr items => (items.filterMap (normalizeWork python)).take maxItems
  | _ => []

def mergeWorkDone (newValue prevValue : Json F) : List Work :=
  Collect.distinct (fun work => folded (strip work.summary)) maxItems []
    ((normalizeWorkDone python newValue ++ normalizeWorkDone python prevValue).filter
      fun work => strip work.summary ≠ "")

/-! ### Summaries -/

/-- A summary with its six fields. -/
def summaryOf (goal : String) (constraints decisions : List String) (workDone : List Work)
    (openThreads nextSteps : List String) : Members F :=
  [("goal", .str goal), ("constraints", texts constraints), ("decisions", texts decisions),
    ("work_done", .arr (workDone.map Work.toJson)), ("open_threads", texts openThreads),
    ("next_steps", texts nextSteps)]

def normalizeSummary (summary : Json F) (previous : Members F) :
    Option (Members F) :=
  match summary with
  | .obj summary =>
    let goal := strippedText python (Json.get summary "goal")
    let merged (key : String) : List String :=
      mergeStringLists python (Json.get summary key) (Json.get previous key)
    some (summaryOf
      (if goal = "" then strippedText python (Json.get previous "goal") else goal)
      (merged "constraints") (merged "decisions")
      (mergeWorkDone python (Json.get summary "work_done") (Json.get previous "work_done"))
      (merged "open_threads") (merged "next_steps"))
  | _ => none

/-! ### What has the form is left as it is -/

structure CleanTexts (items : List String) : Prop where
  stripped : ∀ text ∈ items, strip text = text
  nonempty : ∀ text ∈ items, text ≠ ""
  distinct : (items.map folded).Nodup
  short : items.length ≤ maxItems

theorem cleanTexts_nil : CleanTexts [] :=
  ⟨by simp, by simp, List.nodup_nil, Nat.zero_le maxItems⟩

theorem cleanTexts_distinct {items : List String} (hstripped : ∀ text ∈ items, strip text = text)
    (hnonempty : ∀ text ∈ items, text ≠ "") :
    CleanTexts (Collect.distinct folded maxItems [] items) := by
  have hmem : ∀ text ∈ Collect.distinct folded maxItems [] items, text ∈ items := by
    intro text h
    exact (Collect.mem_distinct h).resolve_left (by simp)
  exact
    { stripped := fun text h => hstripped text (hmem text h)
      nonempty := fun text h => hnonempty text (hmem text h)
      distinct := Collect.nodup_distinct List.nodup_nil
      short := Collect.length_distinct (by simp [maxItems]) }

theorem cleanTexts_normalize (value : Json F) :
    CleanTexts (normalizeStringList python value) := by
  unfold normalizeStringList
  split
  · refine cleanTexts_distinct ?_ ?_
    · intro text h
      obtain ⟨item, -, rfl⟩ := List.mem_map.mp (List.mem_filter.mp h).1
      exact strip_strip _
    · intro text h
      simpa using (List.mem_filter.mp h).2
  · exact cleanTexts_nil

theorem cleanTexts_merge (newValue prevValue : Json F) :
    CleanTexts (mergeStringLists python newValue prevValue) := by
  have hnew := cleanTexts_normalize python newValue
  have hprev := cleanTexts_normalize python prevValue
  refine cleanTexts_distinct ?_ ?_
  · intro text h
    rcases List.mem_append.mp h with h | h
    · exact hnew.stripped text h
    · exact hprev.stripped text h
  · intro text h
    rcases List.mem_append.mp h with h | h
    · exact hnew.nonempty text h
    · exact hprev.nonempty text h

section Kept

variable {python : Python F}

variable {item : Json F} {items : List String} {value : Json F} {summary : Members F}

theorem CleanTexts.normalize_eq (h : CleanTexts items) :
    normalizeStringList python (texts items) = items := by
  have hmap : ((items.map Json.str).map fun item => strip (python.text item)) = items := by
    rw [List.map_map]
    calc
      _ = items.map id := List.map_congr_left h.stripped
      _ = items := List.map_id items
  have hfilter : items.filter (· ≠ "") = items :=
    List.filter_eq_self.mpr fun text ht => by simpa using h.nonempty text ht
  rw [texts, normalizeStringList, hmap, hfilter,
    Collect.distinct_eq (by simpa using h.distinct) (by simpa using h.short), List.nil_append]

theorem CleanTexts.merge_eq (h : CleanTexts items) :
    mergeStringLists python (texts items) .null = items := by
  have hnull : normalizeStringList python .null = [] := rfl
  rw [mergeStringLists, h.normalize_eq, hnull, List.append_nil,
    Collect.distinct_eq (by simpa using h.distinct) (by simpa using h.short), List.nil_append]

theorem strippedText_str {text : String} (h : strip text = text) :
    strippedText python (.str text) = text := by
  by_cases htext : text = ""
  · rw [htext]
    rfl
  · rw [strippedText, Python.orElse_str python htext]
    exact h

theorem strip_strippedText (value : Json F) :
    strip (strippedText python value) = strippedText python value := strip_strip _

/-- An entry as it is kept. -/
structure CleanWork (work : Work) : Prop where
  stripped : strip work.summary = work.summary
  nonempty : work.summary ≠ ""
  files : CleanTexts work.files
  commands : CleanTexts work.commands
  results : strip work.results = work.results

theorem cleanWork_entry (h : (workEntry python item).summary ≠ "") :
    CleanWork (workEntry python item) := by
  cases item with
  | obj entry =>
    exact
      { stripped := strip_strippedText _
        nonempty := h
        files := cleanTexts_normalize python _
        commands := cleanTexts_normalize python _
        results := strip_strippedText _ }
  | _ =>
    exact
      { stripped := strip_strip _
        nonempty := h
        files := cleanTexts_nil
        commands := cleanTexts_nil
        results := rfl }

theorem cleanWork_normalize {work : Work} (h : normalizeWork python item = some work) :
    CleanWork work := by
  unfold normalizeWork at h
  dsimp only at h
  by_cases hempty : (workEntry python item).summary = ""
  · rw [if_pos hempty] at h
    cases h
  · rw [if_neg hempty] at h
    rw [← Option.some.inj h]
    exact cleanWork_entry hempty

theorem CleanWork.normalize_eq {work : Work} (h : CleanWork work) :
    normalizeWork python work.toJson = some work := by
  have hsummary : strippedText python (.str work.summary) = work.summary :=
    strippedText_str h.stripped
  show (if strippedText python (.str work.summary) = "" then none else some (Work.mk
    (strippedText python (.str work.summary)) (normalizeStringList python (texts work.files))
    (normalizeStringList python (texts work.commands)) (strippedText python (.str work.results))))
      = _
  rw [hsummary, if_neg h.nonempty, h.files.normalize_eq, h.commands.normalize_eq,
    strippedText_str h.results]

/-- The entries as they are kept. -/
structure CleanWorkDone (items : List Work) : Prop where
  clean : ∀ work ∈ items, CleanWork work
  distinct : (items.map fun work => folded (strip work.summary)).Nodup
  short : items.length ≤ maxItems

theorem cleanWork_of_mem {work : Work} (h : work ∈ normalizeWorkDone python value) :
    CleanWork work := by
  unfold normalizeWorkDone at h
  split at h
  · obtain ⟨item, -, hitem⟩ := List.mem_filterMap.mp (List.mem_of_mem_take h)
    exact cleanWork_normalize hitem
  · cases h

theorem cleanWorkDone_merge (newValue prevValue : Json F) :
    CleanWorkDone (mergeWorkDone python newValue prevValue) where
  clean := by
    intro work h
    have hmem := (Collect.mem_distinct h).resolve_left (by simp)
    rcases List.mem_append.mp (List.mem_filter.mp hmem).1 with hmem | hmem
    · exact cleanWork_of_mem hmem
    · exact cleanWork_of_mem hmem
  distinct := Collect.nodup_distinct List.nodup_nil
  short := Collect.length_distinct (by simp [maxItems])

theorem CleanWorkDone.merge_eq {items : List Work} (h : CleanWorkDone items) :
    mergeWorkDone python (.arr (items.map Work.toJson)) .null = items := by
  have hread : (items.map Work.toJson).filterMap (normalizeWork python) = items := by
    rw [List.filterMap_map]
    calc
      _ = items.filterMap some := by
          refine List.filterMap_congr fun work hwork => ?_
          exact (h.clean work hwork).normalize_eq
      _ = items := List.filterMap_some
  have hnormalize : normalizeWorkDone python (.arr (items.map Work.toJson)) = items := by
    rw [normalizeWorkDone, hread]
    exact List.take_of_length_le h.short
  have hnull : normalizeWorkDone python .null = [] := rfl
  have hfilter : items.filter (fun work => strip work.summary ≠ "") = items := by
    refine List.filter_eq_self.mpr fun work hwork => ?_
    have hclean := h.clean work hwork
    simpa [hclean.stripped] using hclean.nonempty
  rw [mergeWorkDone, hnormalize, hnull, List.append_nil, hfilter,
    Collect.distinct_eq (by simpa using h.distinct) (by simpa using h.short), List.nil_append]

/-- A summary as it is kept. -/
inductive CleanSummary : Members F → Prop
  | mk {goal : String} {constraints decisions openThreads nextSteps : List String}
      {workDone : List Work} (hgoal : strip goal = goal) (hconstraints : CleanTexts constraints)
      (hdecisions : CleanTexts decisions) (hwork : CleanWorkDone workDone)
      (hthreads : CleanTexts openThreads) (hsteps : CleanTexts nextSteps) :
      CleanSummary (summaryOf goal constraints decisions workDone openThreads nextSteps)

theorem cleanSummary_normalize {previous : Members F}
    (h : normalizeSummary python value previous = some summary) : CleanSummary summary := by
  cases value with
  | obj members =>
    rw [← Option.some.inj h]
    refine .mk ?_ (cleanTexts_merge python _ _) (cleanTexts_merge python _ _)
      (cleanWorkDone_merge _ _) (cleanTexts_merge python _ _) (cleanTexts_merge python _ _)
    by_cases hgoal : strippedText python (Json.get members "goal") = ""
    · rw [if_pos hgoal]
      exact strip_strippedText _
    · rw [if_neg hgoal]
      exact strip_strippedText _
  | _ => cases h

/-- **A summary that was kept is read as it is.** -/
theorem CleanSummary.normalize_eq (h : CleanSummary summary) :
    normalizeSummary python (.obj summary) [] = some summary := by
  obtain ⟨hgoal, hconstraints, hdecisions, hwork, hthreads, hsteps⟩ := h
  rename_i goal constraints decisions openThreads nextSteps workDone
  have hread : (if strippedText python (.str goal) = "" then strippedText python (.null : Json F)
      else strippedText python (.str goal)) = goal := by
    rw [strippedText_str hgoal]
    by_cases hempty : goal = ""
    · rw [if_pos hempty, hempty]
      rfl
    · rw [if_neg hempty]
  show some (summaryOf
    (if strippedText python (.str goal) = "" then strippedText python (.null : Json F)
      else strippedText python (.str goal))
    (mergeStringLists python (texts constraints) .null)
    (mergeStringLists python (texts decisions) .null)
    (mergeWorkDone python (.arr (workDone.map Work.toJson)) .null)
    (mergeStringLists python (texts openThreads) .null)
    (mergeStringLists python (texts nextSteps) .null)) = _
  rw [hread, hconstraints.merge_eq, hdecisions.merge_eq, hwork.merge_eq, hthreads.merge_eq,
    hsteps.merge_eq]

end Kept

end AlysisCode.Compaction
