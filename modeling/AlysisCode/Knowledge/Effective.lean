/-
What the index says of an entry: its effective status.

The records of the workspace are read from the files in the order of their paths.  The status
of an issue is then resolved by later ones, that of a decision is the one of the latest decision
with its key, and that of a task attempt is the one of the latest attempt that resolves it.
What is latest is told by time stamp, identifier and path.
-/
import AlysisCode.Knowledge.Store

namespace AlysisCode.Knowledge

open Text Runs

variable {F P : Type}

/-! ### The records of a workspace -/

/-- The directory of a kind, by `_entry_kind_dir`. -/
def KnowledgeEntryKind.dirName : KnowledgeEntryKind → String
  | .taskAttempt => "task_attempts"
  | .issue => "issues"
  | .fact => "facts"
  | .decision => "decisions"

/-- The file is one of `*/knowledge/{kind}/**/*.md`. -/
def KnowledgeFile.belongs (runsDir : List String) (kind : KnowledgeEntryKind)
    (f : KnowledgeFile) : Bool :=
  isMarkdown f.name && runsDir.isPrefixOf f.dir &&
    match f.dir.drop runsDir.length with
    | _ :: "knowledge" :: name :: _ => name == kind.dirName
    | _ => false

/-- `list_workspace_knowledge_entry_paths` -/
def indexFiles (runsDir : List String) (d : Disk) : List KnowledgeFile :=
  [KnowledgeEntryKind.taskAttempt, .issue, .fact, .decision].flatMap fun kind =>
    (d.files.filter (·.belongs runsDir kind)).insertionSort
      fun f g => f.dir ++ [f.name] ≤ g.dir ++ [g.name]

def KnowledgeFile.record? [Json.Floats F] (python : Python F) (f : KnowledgeFile) : Option Loaded :=
  (f.load python).toOption.map fun e => ⟨e, f.dir ++ [f.name]⟩

/-- The `records` of `_rebuild_knowledge_index_unlocked`. -/
def indexRecords [Json.Floats F] (python : Python F) (runsDir : List String) (d : Disk) :
    List Loaded :=
  (indexFiles runsDir d).filterMap (KnowledgeFile.record? python)

/-! ### Effective statuses -/

/-- The statuses found, by identifier. -/
abbrev Statuses := String → Option String

/-- `statuses[id] = status` -/
def Statuses.set (statuses : Statuses) (id status : String) : Statuses := fun id' =>
  if id' = id then some status else statuses id'

theorem Statuses.set_self (statuses : Statuses) (id status : String) :
    statuses.set id status id = some status := if_pos rfl

theorem Statuses.set_of_ne {id id' : String} (h : id' ≠ id) (statuses : Statuses)
    (status : String) : statuses.set id status id' = statuses id' := if_neg h

/-- `{record.id: record.status for record in records}` -/
def ownStatuses (records : List Loaded) : Statuses :=
  records.foldl (fun statuses r => statuses.set r.entry.id r.entry.status) fun _ => none

def openIssueStatuses : List String := ["open", "active", "blocked"]

def resolvedIssueStatuses : List String := ["resolved", "closed"]

def isEffectivelyOpenStatus (status : Option String) : Bool :=
  openIssueStatuses.contains (strip (status.getD ""))

def deriveEffectiveIssueStatuses (records : List Loaded) : Statuses :=
  let issues := records.filter (·.entry.kind == .issue)
  let issueIds := issues.map (·.entry.id)
  issues.foldl (fun statuses r =>
      if resolvedIssueStatuses.contains r.entry.status then
        r.entry.resolves.foldl (fun statuses id =>
            if id ∈ issueIds ∧ isEffectivelyOpenStatus (statuses id) = true then
              statuses.set id "resolved"
            else statuses)
          statuses
      else statuses)
    (ownStatuses issues)

/-- The decision key of a record, where it has one. -/
def Loaded.key? (r : Loaded) : Option String := r.entry.decisionKey.filter (· != "")

def decisionGroup (records : List Loaded) (key : String) : List Loaded :=
  records.filter fun r => r.entry.kind == .decision && r.key? == some key

/-- What the decisions of one key come to. -/
def settleKey (records : List Loaded) (statuses : Statuses) (key : String) : Statuses :=
  match latestOf (decisionGroup records key) with
  | none => statuses
  | some latest =>
    (decisionGroup records key).foldl
      (fun statuses r => statuses.set r.entry.id latest.entry.status) statuses

def deriveEffectiveDecisionStatuses (records : List Loaded) : Statuses :=
  let decisions := records.filter (·.entry.kind == .decision)
  (firsts id (decisions.filterMap Loaded.key?)).foldl (settleKey records) (ownStatuses decisions)

def settleResolved (attemptIds : List String) (statuses : Statuses) (r : Loaded) : Statuses :=
  r.entry.resolves.foldl (fun statuses id =>
      if id ∈ attemptIds then statuses.set id r.entry.status else statuses)
    statuses

def deriveEffectiveTaskAttemptStatuses (records : List Loaded) : Statuses :=
  let attempts := records.filter (·.entry.kind == .taskAttempt)
  let ordered := attempts.insertionSort fun r s => r.order ≤ s.order
  ordered.foldl (settleResolved (attempts.map (·.entry.id))) (ownStatuses attempts)

/-- `value or default` -/
def orElseText (value : Option String) (default : String) : String :=
  match value with
  | some text => if text = "" then default else text
  | none => default

/-- The `effective_status` of a record in the index. -/
def effectiveStatus (records : List Loaded) (r : Loaded) : String :=
  orElseText (deriveEffectiveTaskAttemptStatuses records r.entry.id)
    (orElseText (deriveEffectiveIssueStatuses records r.entry.id)
      (orElseText (deriveEffectiveDecisionStatuses records r.entry.id) r.entry.status))

/-! ### What a status comes from -/

variable {records : List Loaded}

theorem ownStatuses_eq_none {id : String}
    (h : ∀ r ∈ records, r.entry.id ≠ id) : ownStatuses records id = none := by
  unfold ownStatuses
  suffices hfold : ∀ statuses : Statuses, statuses id = none →
      records.foldl (fun statuses r => statuses.set r.entry.id r.entry.status) statuses id = none
    from hfold _ rfl
  induction records with
  | nil => exact fun _ h => h
  | cons r records ih =>
    intro statuses hnone
    refine ih (fun r' hr' => h r' (List.mem_cons_of_mem r hr')) _ ?_
    dsimp only
    rw [Statuses.set_of_ne (h r List.mem_cons_self).symm]
    exact hnone

theorem foldl_apply_of_frame {α : Type} {step : Statuses → α → Statuses} {items : List α}
    {id : String} (h : ∀ statuses, ∀ a ∈ items, step statuses a id = statuses id)
    (statuses : Statuses) : items.foldl step statuses id = statuses id := by
  induction items generalizing statuses with
  | nil => rfl
  | cons a items ih =>
    rw [List.foldl_cons, ih fun statuses a' ha' => h statuses a' (List.mem_cons_of_mem a ha')]
    exact h statuses a List.mem_cons_self

theorem deriveIssue_eq_none {id : String}
    (h : ∀ r ∈ records, r.entry.kind = .issue → r.entry.id ≠ id) :
    deriveEffectiveIssueStatuses records id = none := by
  have hissues : ∀ r ∈ records.filter (·.entry.kind == .issue), r.entry.id ≠ id := by
    intro r hr
    rw [List.mem_filter, beq_iff_eq] at hr
    exact h r hr.1 hr.2
  unfold deriveEffectiveIssueStatuses
  rw [foldl_apply_of_frame]
  · exact ownStatuses_eq_none hissues
  intro statuses r _
  split
  · refine foldl_apply_of_frame (fun statuses resolved _ => ?_) statuses
    split
    · rename_i hid
      rw [Statuses.set_of_ne]
      rintro rfl
      obtain ⟨r', hr', heq⟩ := List.mem_map.mp hid.1
      exact hissues r' hr' heq
    · rfl
  · rfl

theorem settleResolved_apply (attemptIds : List String) (statuses : Statuses) (r : Loaded)
    (id : String) : settleResolved attemptIds statuses r id =
      if id ∈ r.entry.resolves ∧ id ∈ attemptIds then some r.entry.status else statuses id := by
  unfold settleResolved
  induction r.entry.resolves generalizing statuses with
  | nil => simp
  | cons resolved rest ih =>
    rw [List.foldl_cons, ih]
    by_cases hrest : id ∈ rest ∧ id ∈ attemptIds
    · rw [if_pos hrest, if_pos ⟨List.mem_cons_of_mem _ hrest.1, hrest.2⟩]
    · rw [if_neg hrest]
      by_cases hid : id = resolved
      · subst hid
        by_cases hmem : id ∈ attemptIds
        · rw [if_pos hmem, if_pos ⟨List.mem_cons_self, hmem⟩, Statuses.set_self]
        · rw [if_neg hmem, if_neg fun h => hmem h.2]
      · have hnot : ¬(id ∈ resolved :: rest ∧ id ∈ attemptIds) := fun h =>
          hrest ⟨(List.mem_cons.mp h.1).resolve_left hid, h.2⟩
        rw [if_neg hnot]
        split
        · exact Statuses.set_of_ne hid _ _
        · rfl

theorem deriveTaskAttempt_eq_none {id : String}
    (h : ∀ r ∈ records, r.entry.kind = .taskAttempt → r.entry.id ≠ id) :
    deriveEffectiveTaskAttemptStatuses records id = none := by
  have hattempts : ∀ r ∈ records.filter (·.entry.kind == .taskAttempt), r.entry.id ≠ id := by
    intro r hr
    rw [List.mem_filter, beq_iff_eq] at hr
    exact h r hr.1 hr.2
  unfold deriveEffectiveTaskAttemptStatuses
  rw [foldl_apply_of_frame]
  · exact ownStatuses_eq_none hattempts
  intro statuses r _
  rw [settleResolved_apply, if_neg]
  rintro ⟨-, hid⟩
  obtain ⟨r', hr', heq⟩ := List.mem_map.mp hid
  exact hattempts r' hr' heq

/-! ### The latest one counts -/

theorem latestOf_eq {entries : List Loaded} {w : Loaded} (hw : w ∈ entries)
    (h : ∀ r ∈ entries, r ≠ w → r.order < w.order) : latestOf entries = some w := by
  cases hmax : latestOf entries with
  | none =>
    rw [latestOf, List.argmax_eq_none] at hmax
    rw [hmax] at hw
    cases hw
  | some m =>
    by_cases hm : m = w
    · rw [hm]
    · have hle := List.le_of_mem_argmax hw hmax
      exact absurd (h m (List.argmax_mem hmax) hm) (not_lt_of_ge hle)

/-- **The status of a decision is that of the greatest one with its key.** -/
theorem deriveDecision_eq {key : String} {w r : Loaded}
    (hw : w ∈ decisionGroup records key) (hr : r ∈ decisionGroup records key)
    (hmax : ∀ r ∈ decisionGroup records key, r ≠ w → r.order < w.order)
    (hids : ∀ r ∈ records, ∀ r' ∈ records, r.entry.id = r'.entry.id → r = r') :
    deriveEffectiveDecisionStatuses records r.entry.id = some w.entry.status := by
  have hsettle (statuses : Statuses) : settleKey records statuses key r.entry.id =
      some w.entry.status := by
    unfold settleKey
    rw [latestOf_eq hw hmax]
    have hfold : ∀ (group : List Loaded) (statuses : Statuses), r ∈ group →
        group.foldl (fun statuses r => statuses.set r.entry.id w.entry.status) statuses
          r.entry.id = some w.entry.status := by
      intro group
      induction group using List.reverseRecOn with
      | nil =>
        intro statuses hmem
        cases hmem
      | append_singleton group a ih =>
        intro statuses hmem
        rw [List.foldl_append, List.foldl_cons, List.foldl_nil]
        by_cases ha : r.entry.id = a.entry.id
        · rw [ha, Statuses.set_self]
        · rw [Statuses.set_of_ne ha]
          refine ih statuses ((List.mem_append.mp hmem).resolve_right fun hlast => ha ?_)
          rw [List.mem_singleton.mp hlast]
    exact hfold _ statuses hr
  have hother (statuses : Statuses) (key' : String) (hkey : key' ≠ key) :
      settleKey records statuses key' r.entry.id = statuses r.entry.id := by
    unfold settleKey
    cases latestOf (decisionGroup records key') with
    | none => rfl
    | some latest =>
      refine foldl_apply_of_frame (fun statuses a ha => Statuses.set_of_ne ?_ _ _) statuses
      intro heq
      obtain ⟨ha, hakey⟩ := List.mem_filter.mp ha
      obtain ⟨hrec, hrkey⟩ := List.mem_filter.mp hr
      obtain rfl := hids r hrec a ha heq
      rw [Bool.and_eq_true, beq_iff_eq, beq_iff_eq] at hakey hrkey
      exact hkey (Option.some.inj (hakey.2.symm.trans hrkey.2))
  have hkeys : key ∈ firsts id ((records.filter (·.entry.kind == .decision)).filterMap
      Loaded.key?) := by
    have hmem : key ∈ (records.filter (·.entry.kind == .decision)).filterMap Loaded.key? := by
      obtain ⟨hrec, hrkey⟩ := List.mem_filter.mp hr
      rw [Bool.and_eq_true, beq_iff_eq (a := r.key?)] at hrkey
      exact List.mem_filterMap.mpr ⟨r, List.mem_filter.mpr ⟨hrec, hrkey.1⟩, hrkey.2⟩
    simpa using map_mem_firsts id _ hmem
  unfold deriveEffectiveDecisionStatuses
  obtain ⟨before, after, hsplit⟩ := List.append_of_mem hkeys
  rw [hsplit, List.foldl_append, List.foldl_cons]
  generalize before.foldl (settleKey records) _ = statuses
  -- whatever keys come later, this identifier keeps what its own key gave it, or gets it again
  suffices hafter : ∀ (keys : List String) (statuses : Statuses),
      statuses r.entry.id = some w.entry.status →
        keys.foldl (settleKey records) statuses r.entry.id = some w.entry.status from
    hafter after _ (hsettle statuses)
  intro keys
  induction keys with
  | nil => exact fun _ h => h
  | cons key' _ ih =>
    intro statuses h
    refine ih _ ?_
    by_cases hkey : key' = key
    · rw [hkey]
      exact hsettle statuses
    · rw [hother statuses key' hkey]
      exact h

end AlysisCode.Knowledge
