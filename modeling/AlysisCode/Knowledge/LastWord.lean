/-
The last word counts, where the order of the files is the order of the writes.

Every publish adds one file at the end, so the files stand in the order in which they were
written.  Readers do not see that order: they compare time stamp, identifier and path.  The two
agree as long as an entry that competes with earlier ones, for a decision key, for an attempt to
resolve or for being the latest attempt, compares greater than each of them.
-/
import AlysisCode.Knowledge.Effective
import AlysisCode.Knowledge.Found

namespace AlysisCode.Knowledge

open Text Runs

variable {F P : Type} {w : Loaded} {d : Disk}

/-- **The status of an attempt is that of the greatest one that resolves it.** -/
theorem deriveTaskAttempt_eq {records : List Loaded} {id : String} (hw : w ∈ records)
    (hkind : w.entry.kind = .taskAttempt) (hid : id ∈ w.entry.resolves)
    (hattempt : ∃ r ∈ records, r.entry.kind = .taskAttempt ∧ r.entry.id = id)
    (hmax : ∀ r ∈ records, r.entry.kind = .taskAttempt → id ∈ r.entry.resolves → r ≠ w →
      r.order < w.order) :
    deriveEffectiveTaskAttemptStatuses records id = some w.entry.status := by
  unfold deriveEffectiveTaskAttemptStatuses
  have hfilter (r : Loaded) : r ∈ records.filter (·.entry.kind == .taskAttempt) ↔
      r ∈ records ∧ r.entry.kind = .taskAttempt := by
    rw [List.mem_filter, beq_iff_eq]
  have hids : id ∈ (records.filter (·.entry.kind == .taskAttempt)).map (·.entry.id) := by
    obtain ⟨r, hr, hrkind, rfl⟩ := hattempt
    exact List.mem_map_of_mem ((hfilter r).mpr ⟨hr, hrkind⟩)
  generalize (records.filter (·.entry.kind == .taskAttempt)).map (·.entry.id) = ids at hids
  generalize ownStatuses _ = statuses
  have hsorted := List.pairwise_insertionSort (fun r s : Loaded => r.order ≤ s.order)
    (records.filter (·.entry.kind == .taskAttempt))
  have hmem (r : Loaded) : r ∈ (records.filter (·.entry.kind == .taskAttempt)).insertionSort
      (fun r s => r.order ≤ s.order) ↔ r ∈ records ∧ r.entry.kind = .taskAttempt :=
    (List.perm_insertionSort _ _).mem_iff.trans (hfilter r)
  obtain ⟨before, after, hsplit⟩ := List.append_of_mem ((hmem w).mpr ⟨hw, hkind⟩)
  rw [hsplit] at hsorted hmem ⊢
  rw [List.foldl_append, List.foldl_cons]
  have hw' : settleResolved ids (before.foldl (settleResolved ids) statuses) w id =
      some w.entry.status := by
    rw [settleResolved_apply, if_pos ⟨hid, hids⟩]
  -- what comes after it in the order and resolves the same attempt is the same entry
  have hafter : ∀ r ∈ after, id ∈ r.entry.resolves → r = w := by
    intro r hr hrid
    by_contra hne
    have hrec := (hmem r).mp (List.mem_append_right _ (List.mem_cons_of_mem w hr))
    have hle := (List.pairwise_cons.mp (List.pairwise_append.mp hsorted).2.1).1 r hr
    exact absurd (hmax r hrec.1 hrec.2 hrid hne) (not_lt_of_ge hle)
  generalize settleResolved ids (before.foldl (settleResolved ids) statuses) w = settled at hw'
  clear hsplit hsorted hmem
  induction after generalizing settled with
  | nil => exact hw'
  | cons r after ih =>
    refine ih (fun r' hr' => hafter r' (List.mem_cons_of_mem r hr')) _ ?_
    rw [settleResolved_apply]
    split
    · rename_i hresolves
      rw [hafter r List.mem_cons_self hresolves.1]
    · exact hw'

/-! ### Writing into a workspace -/

/-- `knowledge_task_attempts_dir` of a run. -/
def attemptsDirOf (runsDir : List String) (runId : String) : List String :=
  runsDir ++ [runId, "knowledge", "task_attempts"]

def knowledgeBucketDir (runsDir : List String) (runId : String) (kind : KnowledgeEntryKind)
    (taskId : String) : List String :=
  runsDir ++ [runId, "knowledge", kind.dirName, sanitizeComponent (orDefault taskId "general")]

/-- The end of the writers, for the entry that they have built. -/
def publishEntry [Json.Floats F] (python : Python F) (runsDir : List String) (runId : String)
    (host : Host P) (refused : Bool) (entry : KnowledgeEntry) (d : Disk) :
    Disk × Except WriteError Loaded :=
  publishAndRead python (knowledgeBucketDir runsDir runId entry.kind entry.taskId)
    (filenameStem host entry.source entry.createdAt) refused entry d

theorem publishTaskAttempt_eq [Json.Floats F] (python : Python F) (runsDir : List String)
    (runId : String) (host : Host P) (refused : Bool) (args : TaskAttemptArgs P) (d : Disk) :
    publishTaskAttempt python (attemptsDirOf runsDir runId) host refused args d =
      publishEntry python runsDir runId host refused (writeTaskAttemptEntry host args) d := by
  have hdir : attemptBucket (attemptsDirOf runsDir runId) args.task.taskId =
      knowledgeBucketDir runsDir runId (writeTaskAttemptEntry host args).kind
        (writeTaskAttemptEntry host args).taskId := by
    unfold attemptBucket attemptsDirOf knowledgeBucketDir
    rw [List.append_assoc, taskId_attempt, kind_attempt]
    rfl
  have hstem : filenameStem host args.source (args.created host) =
      filenameStem host (writeTaskAttemptEntry host args).source
        (writeTaskAttemptEntry host args).createdAt := rfl
  unfold publishTaskAttempt publishEntry
  rw [hdir, hstem]

/-- A writer's call. -/
inductive KnowledgeWriting (P : Type) where
  | entry (draft : Draft P)
  | resolution (args : ResolutionArgs P)

structure KnowledgeCall (P : Type) where
  runId : String
  writing : KnowledgeWriting P
  host : Host P
  refused : Bool := false

def KnowledgeCall.entry (c : KnowledgeCall P) : KnowledgeEntry :=
  match c.writing with
  | .entry draft => draft.entry c.host
  | .resolution args => writeTaskAttemptEntry c.host args.attempt

variable [Json.Floats F] (python : Python F) (runsDir : List String)

variable (c : KnowledgeCall P) {c₁ c₂ : KnowledgeCall Unit}

def KnowledgeCall.exec (d : Disk) : Disk × Except WriteError Loaded :=
  match c.writing with
  | .entry draft => publishEntry python runsDir c.runId c.host c.refused (draft.entry c.host) d
  | .resolution args =>
    publishTaskAttemptResolution python (attemptsDirOf runsDir c.runId) c.host c.refused args d

def Publishes (d : Disk) (label : KnowledgeCall P × Except WriteError Loaded) (d' : Disk) : Prop :=
  label.1.exec python runsDir d = (d', label.2)

def writtenEntries (d : Disk) : List Loaded := d.files.filterMap (KnowledgeFile.record? python)

def lastWritten (p : Loaded → Bool) (d : Disk) : Option Loaded :=
  ((writtenEntries python d).filter p).getLast?

/-! ### Writes in order -/

/-- The directory, the name and the record that a regular call comes to. -/
def KnowledgeCall.dir : List String :=
  knowledgeBucketDir runsDir c.runId c.entry.kind c.entry.taskId

def KnowledgeCall.name : String :=
  filenameStem c.host c.entry.source c.entry.createdAt ++ ".md"

def KnowledgeCall.record : Loaded :=
  ⟨c.entry.asRead (readBody c.entry.body), c.dir runsDir ++ [c.name]⟩

/-- Two entries of which only the later one counts: decisions with one key, attempts that
resolve the same attempt, attempts of one task that resolve none. -/
def Competes (r s : Loaded) : Prop :=
  (r.entry.kind = .decision ∧ s.entry.kind = .decision ∧ r.key? ≠ none ∧ r.key? = s.key?) ∨
    (r.entry.kind = .taskAttempt ∧ s.entry.kind = .taskAttempt ∧
      ((∃ id ∈ r.entry.resolves, id ∈ s.entry.resolves) ∨
        (r.entry.resolves = [] ∧ s.entry.resolves = [] ∧
          r.filePath.dropLast = s.filePath.dropLast)))

/-- The call writes nothing, the resolution being there. -/
def KnowledgeCall.Redundant (d : Disk) : Prop :=
  ∃ args, c.writing = .resolution args ∧
    existingResolutions python (attemptsDirOf runsDir c.runId) d args ≠ []

/-- The entry of a call survives its file, has an identifier of its own, and compares greater
than what it competes with. -/
structure KnowledgeCall.Orderly (c : KnowledgeCall P) (d : Disk) : Prop where
  unbroken : ∀ f ∈ c.entry.toFrontmatterPayload, f.2.Unbroken
  slashless : '/' ∉ (filenameStem c.host c.entry.source c.entry.createdAt).toList
  clean : c.entry.kind = .taskAttempt → Clean c.entry.taskId
  status : (c.record runsDir).entry.status ≠ ""
  fresh : ∀ r ∈ writtenEntries python d, r.entry.id ≠ (c.record runsDir).entry.id
  later : ∀ r ∈ writtenEntries python d, Competes r (c.record runsDir) →
    r.order < (c.record runsDir).order

structure InOrder (d : Disk) : Prop where
  read : ∀ f ∈ d.files, ∃ r, f.record? python = some r ∧
    f.belongs runsDir r.entry.kind = true ∧ f.dir ∈ d.dirs ∧
    (r.entry.kind = .taskAttempt → Clean r.entry.taskId ∧
      ∃ runId, f.dir = attemptsDirOf runsDir runId ++ [r.entry.taskId])
  status : ∀ r ∈ writtenEntries python d, r.entry.status ≠ ""
  ids : ((writtenEntries python d).map (·.entry.id)).Nodup
  ordered : (writtenEntries python d).Pairwise fun r s => Competes r s → r.order < s.order

variable {python runsDir}

theorem inOrder_empty (h : d.files = []) : InOrder python runsDir d := by
  have hnil : writtenEntries python d = [] := by rw [writtenEntries, h]; rfl
  refine ⟨fun f hf => ?_, ?_, ?_, ?_⟩
  · rw [h] at hf
    cases hf
  · rw [hnil]
    intro r hr
    cases hr
  · rw [hnil]
    exact List.nodup_nil
  · rw [hnil]
    exact List.Pairwise.nil

variable (python runsDir) in
theorem KnowledgeCall.record?_eq {c : KnowledgeCall P}
    (h : ∀ f ∈ c.entry.toFrontmatterPayload, f.2.Unbroken) :
    (⟨c.dir runsDir, c.name, c.entry.toMarkdown⟩ : KnowledgeFile).record? python =
      some (c.record runsDir) := by
  have hload : KnowledgeFile.load python ⟨c.dir runsDir, c.name, c.entry.toMarkdown⟩ =
      .ok (c.entry.asRead (readBody c.entry.body)) := loadPublished_of_unbroken python h
  unfold KnowledgeFile.record?
  rw [hload]
  rfl

theorem belongs_bucket (runId : String) (kind : KnowledgeEntryKind) (taskId stem : String)
    (text : List Char) :
    (⟨knowledgeBucketDir runsDir runId kind taskId, stem ++ ".md", text⟩ :
      KnowledgeFile).belongs runsDir kind = true := by
  have hprefix : runsDir.isPrefixOf (knowledgeBucketDir runsDir runId kind taskId) = true := by
    rw [List.isPrefixOf_iff_prefix]
    exact List.prefix_append _ _
  have hdrop : (knowledgeBucketDir runsDir runId kind taskId).drop runsDir.length =
      [runId, "knowledge", kind.dirName, sanitizeComponent (orDefault taskId "general")] :=
    List.drop_left
  unfold KnowledgeFile.belongs
  rw [isMarkdown_append, hprefix, hdrop]
  simp

/-- **One more file, written in order.** -/
theorem InOrder.publish (h : InOrder python runsDir d) {c : KnowledgeCall P}
    (hc : c.Orderly python runsDir d) :
    InOrder python runsDir { d.mkdir (c.dir runsDir) with
      files := d.files ++ [⟨c.dir runsDir, c.name, c.entry.toMarkdown⟩] } := by
  have hrecord := c.record?_eq python runsDir hc.unbroken
  have hwritten : writtenEntries python { d.mkdir (c.dir runsDir) with
      files := d.files ++ [⟨c.dir runsDir, c.name, c.entry.toMarkdown⟩] } =
      writtenEntries python d ++ [c.record runsDir] := by
    unfold writtenEntries
    rw [List.filterMap_append, List.filterMap_cons, hrecord]
    rfl
  refine ⟨fun f hf => ?_, ?_, ?_, ?_⟩
  · rcases List.mem_append.mp hf with hf | hf
    · obtain ⟨r, hr, hbelongs, hdir, hattempt⟩ := h.read f hf
      exact ⟨r, hr, hbelongs, (Disk.mem_mkdir d _ _).mpr (Or.inl hdir), hattempt⟩
    · obtain rfl := List.mem_singleton.mp hf
      refine ⟨_, hrecord, belongs_bucket .., (Disk.mem_mkdir d _ _).mpr (Or.inr rfl), ?_⟩
      intro hkind
      have hclean := hc.clean hkind
      have htask : (c.record runsDir).entry.taskId = c.entry.taskId := hclean.strip_eq
      rw [htask]
      refine ⟨hclean, c.runId, ?_⟩
      have hentry : c.entry.kind = .taskAttempt := hkind
      unfold KnowledgeCall.dir knowledgeBucketDir attemptsDirOf
      rw [hentry, orDefault_of_ne hclean.1, hclean.sanitize_eq, List.append_assoc]
      rfl
  · rw [hwritten]
    intro r hr
    rcases List.mem_append.mp hr with hr | hr
    · exact h.status r hr
    · rw [List.mem_singleton.mp hr]
      exact hc.status
  · rw [hwritten, List.map_append, List.map_cons, List.map_nil]
    refine List.Nodup.append h.ids (List.nodup_singleton _) ?_
    intro id hid hid'
    obtain ⟨r, hr, rfl⟩ := List.mem_map.mp hid
    exact hc.fresh r hr (List.mem_singleton.mp hid')
  · rw [hwritten, List.pairwise_append]
    refine ⟨h.ordered, List.pairwise_singleton _ _, fun r hr s hs => ?_⟩
    rw [List.mem_singleton.mp hs]
    exact hc.later r hr

theorem InOrder.mkdir (h : InOrder python runsDir d) (dir : List String) :
    InOrder python runsDir (d.mkdir dir) := by
  have hwritten : writtenEntries python (d.mkdir dir) = writtenEntries python d := by
    unfold writtenEntries
    rw [Disk.files_mkdir]
  refine ⟨fun f hf => ?_, ?_, ?_, ?_⟩
  · rw [Disk.files_mkdir] at hf
    obtain ⟨r, hr, hbelongs, hdir, hattempt⟩ := h.read f hf
    exact ⟨r, hr, hbelongs, (Disk.mem_mkdir d _ _).mpr (Or.inl hdir), hattempt⟩
  · rw [hwritten]
    exact h.status
  · rw [hwritten]
    exact h.ids
  · rw [hwritten]
    exact h.ordered

theorem InOrder.publishEntry (h : InOrder python runsDir d) {c : KnowledgeCall P}
    (hc : c.Orderly python runsDir d) :
    InOrder python runsDir
      (publishEntry python runsDir c.runId c.host c.refused c.entry d).1 := by
  rcases publishAndRead_cases python (c.dir runsDir) hc.slashless c.refused c.entry d
    with ⟨e, heq⟩ | ⟨-, heq⟩
  · unfold KnowledgeCall.dir at heq
    rw [Knowledge.publishEntry, heq]
    exact h.mkdir _
  · unfold KnowledgeCall.dir at heq
    rw [Knowledge.publishEntry, heq]
    exact h.publish hc

theorem hasResolution_of_existing {attemptsDir : List String} {args : ResolutionArgs P}
    (h : existingResolutions python attemptsDir d args ≠ []) :
    hasTaskAttemptResolution python attemptsDir d args.task.taskId args.resolvedAttemptId
      args.acceptanceState = true := by
  obtain ⟨l, hl⟩ := List.exists_mem_of_ne_nil _ h
  obtain ⟨hload, hresolves⟩ := (mem_existing_iff python attemptsDir d args l).mp hl
  unfold hasTaskAttemptResolution
  rw [List.any_eq_true]
  refine ⟨l, hload, ?_⟩
  rw [hresolves.status]
  simp [hresolves.attempt]

/-- **Every call that is orderly, or redundant, keeps the order.** -/
theorem InOrder.step {d d' : Disk} (h : InOrder python runsDir d) (c : KnowledgeCall P)
    (out : Except WriteError Loaded)
    (hc : c.Redundant python runsDir d ∨ c.Orderly python runsDir d)
    (hstep : Publishes python runsDir d (c, out) d') : InOrder python runsDir d' := by
  have hentry : c.entry = (match c.writing with
    | .entry draft => draft.entry c.host
    | .resolution args => writeTaskAttemptEntry c.host args.attempt) := rfl
  have hpublish := fun horderly => h.publishEntry (c := c) horderly
  unfold Publishes KnowledgeCall.exec at hstep
  cases hwriting : c.writing with
  | entry draft =>
    rw [hwriting] at hstep hentry
    dsimp only at hstep hentry
    rcases hc with ⟨args, hargs, -⟩ | hc
    · rw [hwriting] at hargs
      cases hargs
    · have hpublish := hpublish hc
      rwa [hentry, hstep] at hpublish
  | resolution args =>
    rw [hwriting] at hstep hentry
    unfold publishTaskAttemptResolution at hstep
    dsimp only at hstep
    split at hstep
    · obtain ⟨rfl, -⟩ := Prod.mk.inj hstep
      exact h
    · rename_i hnone
      rcases hc with ⟨args', hargs, hexisting⟩ | hc
      · obtain rfl := KnowledgeWriting.resolution.inj (hwriting.symm.trans hargs)
        rw [if_pos (hasResolution_of_existing hexisting), latestOf, List.argmax_eq_none] at hnone
        exact absurd hnone hexisting
      · have hpublish := hpublish hc
        rw [publishTaskAttempt_eq] at hstep
        rwa [hentry, hstep] at hpublish

/-! ### The last word -/

variable (python runsDir) in
structure LastWordCounts (d : Disk) : Prop where
  decision : ∀ key w,
    lastWritten python (fun r => r.entry.kind == .decision && r.key? == some key) d = some w →
      ∀ r ∈ writtenEntries python d, r.entry.kind = .decision → r.key? = some key →
        effectiveStatus (indexRecords python runsDir d) r = w.entry.status
  resolution : ∀ a ∈ writtenEntries python d, a.entry.kind = .taskAttempt → ∀ w,
    lastWritten python
        (fun r => r.entry.kind == .taskAttempt && r.entry.resolves.contains a.entry.id) d =
      some w → effectiveStatus (indexRecords python runsDir d) a = w.entry.status
  attempt : ∀ runId t, Clean (strip t) → ∀ w,
    lastWritten python (fun r => r.entry.kind == .taskAttempt && r.entry.taskId == strip t &&
        (runsDir ++ [runId]).isPrefixOf r.filePath && r.entry.resolves.isEmpty) d = some w →
      findLatestTaskAttemptEntry python (attemptsDirOf runsDir runId) d t none false = some w

theorem of_lastWritten {p : Loaded → Bool} {R : Loaded → Loaded → Prop}
    (hordered : (writtenEntries python d).Pairwise R) (h : lastWritten python p d = some w) :
    w ∈ writtenEntries python d ∧ p w = true ∧
      ∀ r ∈ writtenEntries python d, p r = true → r ≠ w → R r w := by
  unfold lastWritten at h
  obtain ⟨before, hbefore⟩ := List.getLast?_eq_some_iff.mp h
  have hmem : w ∈ (writtenEntries python d).filter p := by
    rw [hbefore]
    exact List.mem_append_right _ List.mem_cons_self
  refine ⟨(List.mem_filter.mp hmem).1, (List.mem_filter.mp hmem).2, fun r hr hpr hne => ?_⟩
  have hsub := hordered.sublist (List.filter_sublist (p := p))
  rw [hbefore, List.pairwise_append] at hsub
  have hr' : r ∈ before ++ [w] := by
    rw [← hbefore]
    exact List.mem_filter.mpr ⟨hr, hpr⟩
  rcases List.mem_append.mp hr' with hr' | hr'
  · exact hsub.2.2 r hr' w List.mem_cons_self
  · exact absurd (List.mem_singleton.mp hr') hne

theorem InOrder.mem_indexRecords (h : InOrder python runsDir d) (r : Loaded) :
    r ∈ indexRecords python runsDir d ↔ r ∈ writtenEntries python d := by
  unfold indexRecords writtenEntries indexFiles
  rw [List.mem_filterMap, List.mem_filterMap]
  constructor
  · rintro ⟨f, hf, hr⟩
    obtain ⟨kind, -, hf⟩ := List.mem_flatMap.mp hf
    exact ⟨f, (List.mem_filter.mp ((List.mem_insertionSort _).mp hf)).1, hr⟩
  · rintro ⟨f, hf, hr⟩
    obtain ⟨r', -, hbelongs, -⟩ := h.read f hf
    refine ⟨f, List.mem_flatMap.mpr ⟨r'.entry.kind, ?_, ?_⟩, hr⟩
    · cases r'.entry.kind <;> decide
    · exact (List.mem_insertionSort _).mpr (List.mem_filter.mpr ⟨hf, hbelongs⟩)

theorem InOrder.id_inj (h : InOrder python runsDir d) :
    ∀ r ∈ indexRecords python runsDir d, ∀ s ∈ indexRecords python runsDir d,
      r.entry.id = s.entry.id → r = s := by
  intro r hr s hs heq
  exact List.inj_on_of_nodup_map h.ids ((h.mem_indexRecords r).mp hr)
    ((h.mem_indexRecords s).mp hs) heq

theorem orElseText_of_ne {text : String} (h : text ≠ "") (default : String) :
    orElseText (some text) default = text := if_neg h

theorem InOrder.decision (h : InOrder python runsDir d) {key : String} {r : Loaded}
    (hw : lastWritten python (fun r => r.entry.kind == .decision && r.key? == some key) d = some w)
    (hr : r ∈ writtenEntries python d) (hkind : r.entry.kind = .decision) (hkey : r.key? = some key) :
    effectiveStatus (indexRecords python runsDir d) r = w.entry.status := by
  obtain ⟨hmem, hpw, hbefore⟩ := of_lastWritten h.ordered hw
  have hgroup (s : Loaded) : s ∈ decisionGroup (indexRecords python runsDir d) key ↔
      s ∈ writtenEntries python d ∧ s.entry.kind = .decision ∧ s.key? = some key := by
    unfold decisionGroup
    rw [List.mem_filter, h.mem_indexRecords, Bool.and_eq_true, beq_iff_eq, beq_iff_eq]
  rw [Bool.and_eq_true, beq_iff_eq, beq_iff_eq] at hpw
  have hother : ∀ kind, kind ≠ .decision → ∀ s ∈ indexRecords python runsDir d,
      s.entry.kind = kind → s.entry.id ≠ r.entry.id := by
    intro kind hne s hs hskind hid
    obtain rfl := h.id_inj s hs r ((h.mem_indexRecords r).mpr hr) hid
    exact hne (hskind.symm.trans hkind)
  unfold effectiveStatus
  rw [deriveTaskAttempt_eq_none (hother .taskAttempt (by decide)),
    deriveIssue_eq_none (hother .issue (by decide)),
    deriveDecision_eq ((hgroup w).mpr ⟨hmem, hpw⟩) ((hgroup r).mpr ⟨hr, hkind, hkey⟩) ?_ h.id_inj]
  · exact orElseText_of_ne (h.status w hmem) _
  · intro s hs hne
    obtain ⟨hs, hskind, hskey⟩ := (hgroup s).mp hs
    refine hbefore s hs (by rw [hskind, hskey]; simp) hne (Or.inl ⟨hskind, hpw.1, ?_, ?_⟩)
    · rw [hskey]
      exact Option.some_ne_none key
    · rw [hskey, hpw.2]

theorem InOrder.resolution (h : InOrder python runsDir d) {a : Loaded}
    (ha : a ∈ writtenEntries python d) (hkind : a.entry.kind = .taskAttempt)
    (hw : lastWritten python
      (fun r => r.entry.kind == .taskAttempt && r.entry.resolves.contains a.entry.id) d = some w) :
    effectiveStatus (indexRecords python runsDir d) a = w.entry.status := by
  obtain ⟨hmem, hpw, hbefore⟩ := of_lastWritten h.ordered hw
  rw [Bool.and_eq_true, beq_iff_eq, List.contains_iff_mem] at hpw
  unfold effectiveStatus
  rw [deriveTaskAttempt_eq ((h.mem_indexRecords w).mpr hmem) hpw.1 hpw.2
    ⟨a, (h.mem_indexRecords a).mpr ha, hkind, rfl⟩ ?_]
  · exact orElseText_of_ne (h.status w hmem) _
  · intro s hs hskind hsid hne
    refine hbefore s ((h.mem_indexRecords s).mp hs) ?_ hne (Or.inr ⟨hskind, hpw.1, Or.inl ?_⟩)
    · rw [hskind, List.contains_iff_mem.mpr hsid]
      rfl
    · exact ⟨a.entry.id, hsid, hpw.2⟩

theorem InOrder.taskDir (h : InOrder python runsDir d) {f : KnowledgeFile} {r : Loaded}
    (hf : f ∈ d.files) (hr : f.record? python = some r) (hkind : r.entry.kind = .taskAttempt) :
    r.filePath = f.dir ++ [f.name] ∧ f.dir ∈ d.dirs ∧
      ∃ runId, f.dir = attemptsDirOf runsDir runId ++ [r.entry.taskId] := by
  obtain ⟨r', hr', -, hdir, hattempt⟩ := h.read f hf
  obtain rfl := Option.some.inj (hr.symm.trans hr')
  refine ⟨?_, hdir, (hattempt hkind).2⟩
  unfold KnowledgeFile.record? at hr
  obtain ⟨e, -, rfl⟩ := Option.map_eq_some_iff.mp hr
  rfl

theorem attemptsDirOf_inj {runId runId' : String} {name name' : String}
    (h : attemptsDirOf runsDir runId ++ [name] = attemptsDirOf runsDir runId' ++ [name']) :
    runId = runId' ∧ name = name' := by
  unfold attemptsDirOf at h
  rw [List.append_assoc, List.append_assoc] at h
  have h := List.append_cancel_left h
  simp only [List.cons_append, List.nil_append, List.cons.injEq] at h
  exact ⟨h.1, h.2.2.2.1⟩

theorem InOrder.mem_load (h : InOrder python runsDir d) (runId : String) {t : String}
    (ht : Clean (strip t)) (r : Loaded) :
    r ∈ loadTaskAttemptEntriesForTask python (attemptsDirOf runsDir runId) d t ↔
      r ∈ writtenEntries python d ∧ r.entry.kind = .taskAttempt ∧ r.entry.taskId = strip t ∧
        runsDir ++ [runId] <+: r.filePath := by
  rw [mem_load_iff python _ ht]
  constructor
  · rintro ⟨-, f, hf, hholds⟩
    have hrecord : f.record? python = some r := by
      unfold KnowledgeFile.record?
      rw [hholds.load, ← hholds.path]
      rfl
    obtain ⟨-, -, runId', hdir⟩ := h.taskDir hf hrecord hholds.kind
    obtain ⟨-, htask⟩ := attemptsDirOf_inj (hdir.symm.trans hholds.dir)
    refine ⟨List.mem_filterMap.mpr ⟨f, hf, hrecord⟩, hholds.kind, htask, ?_⟩
    rw [hholds.path, hholds.dir]
    exact ⟨["knowledge", "task_attempts", strip t, f.name], by simp [attemptsDirOf]⟩
  · rintro ⟨hr, hkind, htask, hprefix⟩
    obtain ⟨f, hf, hrecord⟩ := List.mem_filterMap.mp hr
    obtain ⟨hpath, hdir, runId', htaskDir⟩ := h.taskDir hf hrecord hkind
    have hrun : runId = runId' := by
      rw [hpath, htaskDir, attemptsDirOf, List.append_assoc, List.append_assoc,
        List.prefix_append_right_inj] at hprefix
      exact (List.cons_prefix_cons.mp hprefix).1
    rw [← hrun, htask] at htaskDir
    obtain ⟨r', -, hbelongs, -⟩ := h.read f hf
    have hload : f.load python = .ok r.entry := by
      unfold KnowledgeFile.record? at hrecord
      obtain ⟨e, he, rfl⟩ := Option.map_eq_some_iff.mp hrecord
      cases hload : f.load python with
      | ok e' =>
        rw [hload] at he
        rw [Option.some.inj he]
      | error e' =>
        rw [hload] at he
        cases he
    have hname : isMarkdown f.name = true := by
      unfold KnowledgeFile.belongs at hbelongs
      rw [Bool.and_eq_true, Bool.and_eq_true] at hbelongs
      exact hbelongs.1.1
    exact ⟨htaskDir ▸ hdir, f, hf, htaskDir, hname, hload, hkind, hpath⟩

theorem InOrder.attempt (h : InOrder python runsDir d) {runId t : String} (ht : Clean (strip t))
    (hw : lastWritten python (fun r => r.entry.kind == .taskAttempt && r.entry.taskId == strip t &&
      (runsDir ++ [runId]).isPrefixOf r.filePath && r.entry.resolves.isEmpty) d = some w) :
    findLatestTaskAttemptEntry python (attemptsDirOf runsDir runId) d t none false = some w := by
  obtain ⟨hmem, hpw, hbefore⟩ := of_lastWritten h.ordered hw
  simp only [Bool.and_eq_true, beq_iff_eq, List.isPrefixOf_iff_prefix, List.isEmpty_iff] at hpw
  obtain ⟨⟨⟨hkind, htask⟩, hrun⟩, hresolves⟩ := hpw
  have hdir (r : Loaded)
      (hr : r ∈ loadTaskAttemptEntriesForTask python (attemptsDirOf runsDir runId) d t) :
      r.filePath.dropLast = attemptsDirOf runsDir runId ++ [strip t] := by
    obtain ⟨-, f, -, hholds⟩ := (mem_load_iff python _ ht d r).mp hr
    rw [hholds.path, List.dropLast_concat, hholds.dir]
  have hload := (h.mem_load runId ht w).mpr ⟨hmem, hkind, htask, hrun⟩
  unfold findLatestTaskAttemptEntry
  refine latestOf_eq (List.mem_filter.mpr ⟨hload, by simp [hresolves]⟩) fun r hr hne => ?_
  obtain ⟨hr, hempty⟩ := List.mem_filter.mp hr
  obtain ⟨hrmem, hrkind, hrtask, hrrun⟩ := (h.mem_load runId ht r).mp hr
  have hrresolves : r.entry.resolves = [] := by simpa using hempty
  refine hbefore r hrmem ?_ hne (Or.inr ⟨hrkind, hkind, Or.inr ⟨hrresolves, hresolves, ?_⟩⟩)
  · simp only [hrkind, hrtask, hrresolves, List.isPrefixOf_iff_prefix.mpr hrrun]
    simp
  · rw [hdir r hr, hdir w hload]

/-- **The last word counts** in every run whose calls write in order. -/
theorem last_word {init d : Disk} {trace : List (KnowledgeCall P × Except WriteError Loaded)}
    (hinit : init.files = []) (h : Run (Publishes python runsDir) init trace d)
    (hcalls : Throughout (Publishes python runsDir) init
      (fun _ m label => label.1.Redundant python runsDir m ∨ label.1.Orderly python runsDir m)
      trace) : LastWordCounts python runsDir d := by
  have horder : InOrder python runsDir d :=
    h.throughout (I := fun _ d => InOrder python runsDir d) (inOrder_empty hinit)
      (fun _ _ label _ _ hI hC hstep => hI.step label.1 label.2 hC hstep) hcalls
  exact ⟨fun key w hw r hr hkind hkey => horder.decision hw hr hkind hkey,
    fun a ha hkind w hw => horder.resolution ha hkind hw,
    fun runId t ht w hw => horder.attempt ht hw⟩

/-! ### Two decisions in one second -/

/-- A call that only a name that is taken can fail. -/
structure KnowledgeCall.Publishable (c : KnowledgeCall P) : Prop where
  entry : ∃ draft, c.writing = .entry draft
  unbroken : ∀ f ∈ c.entry.toFrontmatterPayload, f.2.Unbroken
  slashless : '/' ∉ (filenameStem c.host c.entry.source c.entry.createdAt).toList
  nulless : '\x00' ∉ (filenameStem c.host c.entry.source c.entry.createdAt).toList
  allowed : c.refused = false

variable (python runsDir) in
theorem KnowledgeCall.Publishable.publishes {c : KnowledgeCall P} (h : c.Publishable) (d : Disk)
    (hnew : ∀ g ∈ d.files, g.dir = c.dir runsDir → g.name ≠ c.name) :
    Publishes python runsDir d (c, .ok (c.record runsDir)) { d.mkdir (c.dir runsDir) with
      files := d.files ++ [⟨c.dir runsDir, c.name, c.entry.toMarkdown⟩] } := by
  obtain ⟨draft, hwriting⟩ := h.entry
  have hexec : c.exec python runsDir d =
      Knowledge.publishEntry python runsDir c.runId c.host c.refused c.entry d := by
    unfold KnowledgeCall.exec KnowledgeCall.entry
    rw [hwriting]
  have hpublish := publishAndRead_ok python h.slashless h.nulless c.entry hnew
  rw [loadPublished_of_unbroken python h.unbroken] at hpublish
  show c.exec python runsDir d = _
  rw [hexec, h.allowed]
  exact hpublish

variable (python runsDir) in
theorem run_two {c₁ c₂ : KnowledgeCall P} (h₁ : c₁.Publishable) (h₂ : c₂.Publishable)
    {dir : List String} (hdir₁ : c₁.dir runsDir = dir) (hdir₂ : c₂.dir runsDir = dir)
    (hname : c₁.name ≠ c₂.name) :
    Run (Publishes python runsDir) {}
      [(c₁, .ok (c₁.record runsDir)), (c₂, .ok (c₂.record runsDir))]
      ⟨[dir], [⟨dir, c₁.name, c₁.entry.toMarkdown⟩, ⟨dir, c₂.name, c₂.entry.toMarkdown⟩]⟩ := by
  have hfirst := h₁.publishes python runsDir {} (fun g hg => by cases hg)
  have hstate : ({ Disk.mkdir {} (c₁.dir runsDir) with
      files := [] ++ [⟨c₁.dir runsDir, c₁.name, c₁.entry.toMarkdown⟩] } : Disk) =
      ⟨[dir], [⟨dir, c₁.name, c₁.entry.toMarkdown⟩]⟩ := by
    rw [hdir₁]
    rfl
  rw [hstate] at hfirst
  have hsecond := h₂.publishes python runsDir ⟨[dir], [⟨dir, c₁.name, c₁.entry.toMarkdown⟩]⟩
    (fun g hg _ => by
      rw [List.mem_singleton.mp hg]
      exact hname)
  have hmkdir (files : List KnowledgeFile) : Disk.mkdir ⟨[dir], files⟩ dir = ⟨[dir], files⟩ :=
    if_pos List.mem_cons_self
  rw [hdir₂, hmkdir] at hsecond
  exact Run.snoc (Run.snoc Run.nil hfirst) hsecond

/-- A decision about the key `api`, in one and the same second. -/
def decisionCall (suffix status : String) : KnowledgeCall Unit where
  runId := "r1"
  writing := .entry (.decision
    { task := { id := "T1" }, source := "worker", title := "API", summary := "", artifacts := {} }
    "api" status)
  host := ⟨"2026-01-02T03:04:05+00:00", suffix, fun _ => ""⟩

def decisionsDir : List String := ["runs", "r1", "knowledge", "decisions", "T1"]

def twoDecisions (c₁ c₂ : KnowledgeCall Unit) : Disk :=
  ⟨[decisionsDir], [⟨decisionsDir, c₁.name, c₁.entry.toMarkdown⟩,
    ⟨decisionsDir, c₂.name, c₂.entry.toMarkdown⟩]⟩

theorem publishable_open : (decisionCall "aaaaaaaa" "open").Publishable :=
  ⟨⟨_, rfl⟩, by decide +kernel, by decide +kernel, by decide +kernel, rfl⟩

theorem publishable_closed : (decisionCall "bbbbbbbb" "closed").Publishable :=
  ⟨⟨_, rfl⟩, by decide +kernel, by decide +kernel, by decide +kernel, rfl⟩

theorem dir_open : (decisionCall "aaaaaaaa" "open").dir ["runs"] = decisionsDir := by
  decide +kernel

theorem dir_closed : (decisionCall "bbbbbbbb" "closed").dir ["runs"] = decisionsDir := by
  decide +kernel

theorem writtenEntries_two (h₁ : c₁.Publishable) (h₂ : c₂.Publishable)
    (hdir₁ : c₁.dir ["runs"] = decisionsDir) (hdir₂ : c₂.dir ["runs"] = decisionsDir) :
    writtenEntries constantsPython (twoDecisions c₁ c₂) =
      [c₁.record ["runs"], c₂.record ["runs"]] := by
  have hrecord₁ := c₁.record?_eq constantsPython ["runs"] h₁.unbroken
  have hrecord₂ := c₂.record?_eq constantsPython ["runs"] h₂.unbroken
  rw [hdir₁] at hrecord₁
  rw [hdir₂] at hrecord₂
  unfold writtenEntries twoDecisions
  rw [List.filterMap_cons, hrecord₁, List.filterMap_cons, hrecord₂]
  rfl

theorem indexFiles_two (h : ¬ decisionsDir ++ [c₁.name] ≤ decisionsDir ++ [c₂.name]) :
    indexFiles ["runs"] (twoDecisions c₁ c₂) = (twoDecisions c₂ c₁).files := by
  have hbelongs (c : KnowledgeCall Unit) (kind : KnowledgeEntryKind) :
      (⟨decisionsDir, c.name, c.entry.toMarkdown⟩ : KnowledgeFile).belongs ["runs"] kind =
        (kind == .decision) := by
    have hname : isMarkdown c.name = true := isMarkdown_append _
    unfold KnowledgeFile.belongs
    dsimp only
    rw [hname]
    cases kind <;> decide
  unfold indexFiles twoDecisions
  simp only [List.flatMap_cons, List.flatMap_nil, List.filter_cons, hbelongs, List.filter_nil]
  simp [h, List.insertionSort, List.orderedInsert]

theorem publishes_det {d' d'' : Disk} {l : KnowledgeCall P × Except WriteError Loaded}
    (h : Publishes python runsDir d l d') (h' : Publishes python runsDir d l d'') : d' = d'' :=
  congrArg Prod.fst (h.symm.trans h')

/-- Two decisions in one second, the second one with the greater suffix: it counts. -/
theorem last_word_two : LastWordCounts constantsPython ["runs"]
    (twoDecisions (decisionCall "aaaaaaaa" "open") (decisionCall "bbbbbbbb" "closed")) := by
  have hrun := run_two constantsPython ["runs"] publishable_open publishable_closed dir_open
    dir_closed (by decide +kernel)
  refine last_word rfl hrun ((Throughout.nil.snoc fun m hm => Or.inr ?_).snoc fun m hm => Or.inr ?_)
  · obtain rfl := hm.of_nil
    refine ⟨publishable_open.unbroken, publishable_open.slashless, ?_, by decide +kernel, ?_, ?_⟩
    · intro hkind
      cases hkind
    · intro r hr
      cases hr
    · intro r hr
      cases hr
  · -- the second call starts from what the first one left
    have hm₁ := hm.last
    obtain ⟨m', hm', hfirst⟩ := hm₁
    obtain rfl := hm'.of_nil
    have hstate := publishes_det hfirst
      (publishable_open.publishes constantsPython ["runs"] {} fun g hg => by cases hg)
    have hwritten : writtenEntries constantsPython m =
        [(decisionCall "aaaaaaaa" "open").record ["runs"]] := by
      have hrecord := (decisionCall "aaaaaaaa" "open").record?_eq constantsPython ["runs"]
        publishable_open.unbroken
      rw [hstate]
      unfold writtenEntries
      rw [List.nil_append, List.filterMap_cons, hrecord]
      rfl
    refine ⟨publishable_closed.unbroken, publishable_closed.slashless, ?_, by decide +kernel,
      ?_, ?_⟩
    · intro hkind
      cases hkind
    · rw [hwritten]
      intro r hr
      rw [List.mem_singleton.mp hr]
      decide +kernel
    · rw [hwritten]
      intro r hr _
      rw [List.mem_singleton.mp hr]
      decide +kernel

/-- With the smaller one it does not: the decision written first stays in force. -/
theorem first_word_counts : ∃ d w r,
    Run (Publishes constantsPython ["runs"]) {}
        [(decisionCall "bbbbbbbb" "closed",
            .ok ((decisionCall "bbbbbbbb" "closed").record ["runs"])),
          (decisionCall "aaaaaaaa" "open", .ok ((decisionCall "aaaaaaaa" "open").record ["runs"]))]
        d ∧
      lastWritten constantsPython
        (fun r => r.entry.kind == .decision && r.key? == some "api") d = some w ∧
      r ∈ writtenEntries constantsPython d ∧
      effectiveStatus (indexRecords constantsPython ["runs"] d) r = "closed" ∧
      w.entry.status = "open" := by
  have hrun := run_two constantsPython ["runs"] publishable_closed publishable_open dir_closed
    dir_open (by decide +kernel)
  have hwritten := writtenEntries_two publishable_closed publishable_open dir_closed dir_open
  have hfiles : indexFiles ["runs"]
      (twoDecisions (decisionCall "bbbbbbbb" "closed") (decisionCall "aaaaaaaa" "open")) =
      (twoDecisions (decisionCall "aaaaaaaa" "open") (decisionCall "bbbbbbbb" "closed")).files :=
    indexFiles_two (by decide +kernel)
  have hrecords : indexRecords constantsPython ["runs"]
      (twoDecisions (decisionCall "bbbbbbbb" "closed") (decisionCall "aaaaaaaa" "open")) =
      [(decisionCall "aaaaaaaa" "open").record ["runs"],
        (decisionCall "bbbbbbbb" "closed").record ["runs"]] := by
    unfold indexRecords
    rw [hfiles]
    exact writtenEntries_two publishable_open publishable_closed dir_open dir_closed
  refine ⟨_, (decisionCall "aaaaaaaa" "open").record ["runs"],
    (decisionCall "bbbbbbbb" "closed").record ["runs"], hrun, ?_, ?_, ?_, by decide +kernel⟩
  · show lastWritten constantsPython _ (twoDecisions _ _) = _
    unfold lastWritten
    rw [hwritten]
    decide +kernel
  · show _ ∈ writtenEntries constantsPython (twoDecisions _ _)
    rw [hwritten]
    exact List.mem_cons_self
  · show effectiveStatus (indexRecords constantsPython ["runs"] (twoDecisions _ _)) _ = _
    rw [hrecords]
    decide +kernel

end AlysisCode.Knowledge
