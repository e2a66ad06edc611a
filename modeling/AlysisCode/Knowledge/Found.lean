/-
Attempts are found by their task, where the identifiers are clean.

A call that does not raise leaves its attempt in the directory of its task, and nothing else
puts a file there: so the files of a directory below the attempts are, at every point of a run,
the attempts of the calls for the task of that name.  The reader lists exactly these.
-/
import AlysisCode.Knowledge.Buckets
import AlysisCode.Knowledge.Survival

namespace AlysisCode.Knowledge

open Text Runs

variable {F P : Type}

/-! ### Regular calls -/

/-- The arguments by which a resolution is recognised are as they will be read back. -/
structure ResolutionArgs.Plain (args : ResolutionArgs P) : Prop where
  source : strip args.source = args.source
  state : strip args.acceptanceState = args.acceptanceState
  word : args.acceptanceState ∉ ["", "success", "failure"]
  attempt : strip args.resolvedAttemptId = args.resolvedAttemptId
  named : args.resolvedAttemptId ≠ ""

variable (attemptsDir : List String) {directory : List String} {host : Host P} {value : String}
  (c : WriteCall P) {l : Loaded}

def WriteCall.entry : KnowledgeEntry := writeTaskAttemptEntry c.host c.args

/-- The name of the file it would be in. -/
def WriteCall.stem : String :=
  filenameStem c.host c.args.source (c.args.created c.host)

/-- A call whose texts survive their file, and whose file is one of its directory. -/
structure WriteCall.Regular (c : WriteCall P) : Prop where
  unbroken : ∀ f ∈ c.entry.toFrontmatterPayload, f.2.Unbroken
  slashless : '/' ∉ c.stem.toList
  plain : ∀ args, c.writing = .resolution args → args.Plain

def WriteCall.bucket (attemptsDir : List String) (c : WriteCall P) : List String :=
  attemptBucket attemptsDir c.args.task.taskId

def WriteCall.file (attemptsDir : List String) (c : WriteCall P) : KnowledgeFile :=
  ⟨c.bucket attemptsDir, c.stem ++ ".md", c.entry.toMarkdown⟩

def WriteCall.loaded (attemptsDir : List String) (c : WriteCall P) : Loaded :=
  ⟨c.entry.asRead (readBody c.entry.body), c.bucket attemptsDir ++ [c.stem ++ ".md"]⟩

theorem WriteCall.taskId_args : c.args.task.id = c.taskId := by
  unfold WriteCall.args WriteCall.taskId
  cases c.writing with
  | attempt args | resolution args => rfl

variable {c : WriteCall P} {args : ResolutionArgs P} {d : Disk} {t : String}
  {trace : List (WriteCall P × Except WriteError Loaded)}

theorem WriteCall.bucket_eq (h : Clean (strip c.taskId)) :
    c.bucket attemptsDir = attemptsDir ++ [strip c.taskId] := by
  unfold WriteCall.bucket attemptBucket Task.taskId
  rw [c.taskId_args, orDefault_of_ne h.1, orDefault_of_ne h.1, h.sanitize_eq]

theorem WriteCall.strip_taskId (hargs : c.writing = .resolution args) (h : Clean (strip c.taskId)) :
    strip args.task.taskId = strip c.taskId := by
  have hid : c.taskId = args.task.id := by
    unfold WriteCall.taskId
    rw [hargs]
  rw [hid] at h ⊢
  rw [Task.taskId, orDefault_of_ne h.1, strip_strip]

theorem WriteCall.kind_loaded (c : WriteCall P) :
    (c.loaded attemptsDir).entry.kind = .taskAttempt := rfl

theorem WriteCall.filePath_loaded (c : WriteCall P) :
    (c.loaded attemptsDir).filePath = c.bucket attemptsDir ++ [c.stem ++ ".md"] := rfl

theorem isMarkdown_append (stem : String) : isMarkdown (stem ++ ".md") = true := by
  unfold isMarkdown
  rw [String.toList_append, List.isSuffixOf_iff_suffix]
  exact List.suffix_append _ _

variable [Json.Floats F] (python : Python F) (attemptsDir : List String)

theorem WriteCall.load_file (h : c.Regular) :
    (c.file attemptsDir).load python = .ok (c.loaded attemptsDir).entry :=
  loadPublished_of_unbroken python h.unbroken

/-! ### What a call does -/

/-- What a regular call can come to: it raises, it leaves its file, or the resolution is there
already. -/
inductive WriteCall.Outcome (c : WriteCall P) (d : Disk) : Disk → Except WriteError Loaded → Prop
  | failed (e : WriteError) : Outcome c d (d.mkdir (c.bucket attemptsDir)) (.error e)
  | stored (hnew : ∀ g ∈ d.files, g.dir = c.bucket attemptsDir → g.name ≠ c.stem ++ ".md") :
      Outcome c d { d.mkdir (c.bucket attemptsDir) with
        files := d.files ++ [c.file attemptsDir] } (.ok (c.loaded attemptsDir))
  | known {args : ResolutionArgs P} {l : Loaded} (hargs : c.writing = .resolution args)
      (hl : l ∈ existingResolutions python attemptsDir d args) : Outcome c d d (.ok l)

@[simp] theorem Disk.files_mkdir (d : Disk) (dir : List String) :
    (d.mkdir dir).files = d.files := by
  unfold Disk.mkdir
  split <;> rfl

theorem Disk.mem_mkdir (d : Disk) (dir dir' : List String) :
    dir' ∈ (d.mkdir dir).dirs ↔ dir' ∈ d.dirs ∨ dir' = dir := by
  unfold Disk.mkdir
  split
  · rename_i h
    refine ⟨.inl, fun h' => ?_⟩
    rcases h' with h' | rfl
    · exact h'
    · exact h
  · simp

variable {stem : String} {f : KnowledgeFile}

theorem publishedFile_of_slashless (directory : List String) (text : List Char)
    (hslash : '/' ∉ stem.toList) : publishedFile directory stem text =
      if '\x00' ∈ stem.toList then none else some ⟨directory, stem ++ ".md", text⟩ := by
  have hdrop : stem.toList.dropWhile (· == '/') = stem.toList :=
    dropWhile_of_none fun c hc => by
      rw [beq_eq_false_iff_ne]
      rintro rfl
      exact hslash hc
  have hhead : stem.toList.head? ≠ some '/' := fun hhead =>
    hslash (List.mem_of_mem_head? hhead)
  unfold publishedFile
  simp only [hdrop, hslash, or_false, if_neg hhead, String.ofList_toList]

theorem publishAndRead_cases (directory : List String) (hslash : '/' ∉ stem.toList)
    (refused : Bool) (entry : KnowledgeEntry) (d : Disk) :
    (∃ e, publishAndRead python directory stem refused entry d = (d.mkdir directory, .error e)) ∨
    ((∀ g ∈ d.files, g.dir = directory → g.name ≠ stem ++ ".md") ∧
      publishAndRead python directory stem refused entry d = ({ d.mkdir directory with
            files := d.files ++ [⟨directory, stem ++ ".md", entry.toMarkdown⟩] },
          match loadPublished python entry with
          | .ok e => .ok ⟨e, directory ++ [stem ++ ".md"]⟩
          | .error e => .error (.unreadable e))) := by
  unfold publishAndRead
  dsimp only
  cases hpublish : (d.mkdir directory).publish directory stem entry.toMarkdown refused with
  | error e => exact .inl ⟨e, rfl⟩
  | ok f =>
    unfold Disk.publish at hpublish
    split at hpublish
    · cases hpublish
    rename_i g hfile
    split at hpublish
    · cases hpublish
    rename_i hnew
    split at hpublish
    · cases hpublish
    cases hpublish
    rw [publishedFile_of_slashless directory _ hslash] at hfile
    obtain ⟨-, hfile⟩ := Option.ite_none_left_eq_some.mp hfile
    cases hfile
    rw [Disk.files_mkdir] at hnew ⊢
    refine .inr ⟨fun g hg hdir hname => hnew ?_, rfl⟩
    rw [List.any_eq_true]
    exact ⟨g, hg, by simp [hdir, hname]⟩

theorem publish_cases (h : c.Regular) (d : Disk) : c.Outcome python attemptsDir d
      (publishTaskAttempt python attemptsDir c.host c.refused c.args d).1
      (publishTaskAttempt python attemptsDir c.host c.refused c.args d).2 := by
  have hload : loadPublished python (writeTaskAttemptEntry c.host c.args) =
      .ok (c.loaded attemptsDir).entry := c.load_file python attemptsDir h
  unfold publishTaskAttempt
  rcases publishAndRead_cases python (c.bucket attemptsDir) h.slashless c.refused
    (writeTaskAttemptEntry c.host c.args) d with ⟨e, heq⟩ | ⟨hnew, heq⟩
  · rw [show publishAndRead python (attemptBucket attemptsDir c.args.task.taskId)
      (filenameStem c.host c.args.source (c.args.created c.host)) c.refused
      (writeTaskAttemptEntry c.host c.args) d = _ from heq]
    exact .failed e
  · rw [show publishAndRead python (attemptBucket attemptsDir c.args.task.taskId)
      (filenameStem c.host c.args.source (c.args.created c.host)) c.refused
      (writeTaskAttemptEntry c.host c.args) d = _ from heq, hload]
    exact .stored hnew

/-- A name that is a file's and not yet taken is written, unless the system refuses. -/
theorem publishAndRead_ok (hslash : '/' ∉ stem.toList) (hnul : '\x00' ∉ stem.toList)
    (entry : KnowledgeEntry) (hnew : ∀ g ∈ d.files, g.dir = directory → g.name ≠ stem ++ ".md") :
    publishAndRead python directory stem false entry d = ({ d.mkdir directory with
          files := d.files ++ [⟨directory, stem ++ ".md", entry.toMarkdown⟩] },
        match loadPublished python entry with
        | .ok e => .ok ⟨e, directory ++ [stem ++ ".md"]⟩
        | .error e => .error (.unreadable e)) := by
  have hpublish : (d.mkdir directory).publish directory stem entry.toMarkdown false =
      .ok ⟨directory, stem ++ ".md", entry.toMarkdown⟩ := by
    unfold Disk.publish
    rw [publishedFile_of_slashless directory _ hslash, if_neg hnul]
    dsimp only
    rw [Disk.files_mkdir, if_neg]
    · rfl
    · rw [List.any_eq_true]
      rintro ⟨g, hg, heq⟩
      rw [Bool.and_eq_true, beq_iff_eq, beq_iff_eq] at heq
      exact hnew g hg heq.1 heq.2
  unfold publishAndRead
  dsimp only
  rw [hpublish, Disk.files_mkdir]
  rfl

theorem exec_attempt (h : c.Regular) {args : TaskAttemptArgs P} (hargs : c.writing = .attempt args)
    (hnul : '\x00' ∉ c.stem.toList)
    (hnew : ∀ g ∈ d.files, g.dir = c.bucket attemptsDir → g.name ≠ c.stem ++ ".md")
    (hrefused : c.refused = false) :
    c.exec python attemptsDir d = ({ d.mkdir (c.bucket attemptsDir) with
      files := d.files ++ [c.file attemptsDir] }, .ok (c.loaded attemptsDir)) := by
  have hexec : c.exec python attemptsDir d =
      publishTaskAttempt python attemptsDir c.host c.refused c.args d := by
    unfold WriteCall.exec WriteCall.args
    rw [hargs]
  have hload : loadPublished python c.entry = .ok (c.loaded attemptsDir).entry :=
    c.load_file python attemptsDir h
  have hpublish := publishAndRead_ok python h.slashless hnul c.entry hnew
  rw [hload] at hpublish
  rw [hexec, hrefused]
  exact hpublish

theorem exec_cases (h : c.Regular) {d' : Disk} {out : Except WriteError Loaded}
    (hexec : Writes python attemptsDir d (c, out) d') : c.Outcome python attemptsDir d d' out := by
  have hpublish := publish_cases python attemptsDir h d
  unfold Writes WriteCall.exec at hexec
  cases hwriting : c.writing with
  | attempt args =>
    have hargs : c.args = args := by rw [WriteCall.args, hwriting]
    rw [hwriting] at hexec
    dsimp only at hexec
    rwa [hargs, hexec] at hpublish
  | resolution args =>
    have hargs : c.args = args.attempt := by rw [WriteCall.args, hwriting]
    rw [hwriting] at hexec
    unfold publishTaskAttemptResolution at hexec
    dsimp only at hexec
    split at hexec
    · rename_i l hexisting
      cases hexec
      split at hexisting
      · exact .known hwriting (List.argmax_mem hexisting)
      · cases hexisting
    · rwa [hargs, hexec] at hpublish

/-! ### What a directory lists -/

structure Holds (f : KnowledgeFile) (taskId : String) (l : Loaded) : Prop where
  dir : f.dir = attemptsDir ++ [taskId]
  name : isMarkdown f.name = true
  load : f.load python = .ok l.entry
  kind : l.entry.kind = .taskAttempt
  path : l.filePath = f.dir ++ [f.name]

variable {python attemptsDir} in
theorem Holds.attempt {id : String} {l : Loaded} (h : Holds python attemptsDir f id l) :
    f.attempt? python (attemptsDir ++ [id]) = some l := by
  unfold KnowledgeFile.attempt?
  rw [h.load]
  dsimp only
  rw [if_pos h.kind, ← h.dir, ← h.path]

/-- **The reader lists the files of the task's directory**, for a clean identifier. -/
theorem mem_load_iff (ht : Clean (strip t)) (d : Disk) (l : Loaded) :
    l ∈ loadTaskAttemptEntriesForTask python attemptsDir d t ↔ attemptsDir ++ [strip t] ∈ d.dirs ∧
        ∃ f ∈ d.files, Holds python attemptsDir f (strip t) l := by
  unfold loadTaskAttemptEntriesForTask
  rw [ht.resolve_eq, ht.joinPath_eq]
  by_cases hdir : attemptsDir ++ [strip t] ∈ d.dirs
  · rw [if_pos hdir]
    rw [List.mem_filterMap]
    constructor
    · rintro ⟨f, hf, hl⟩
      obtain ⟨hf, hmatch⟩ := List.mem_filter.mp ((List.perm_insertionSort _ _).mem_iff.mp hf)
      rw [Bool.and_eq_true, beq_iff_eq] at hmatch
      unfold KnowledgeFile.attempt? at hl
      split at hl
      · rename_i e hload
        split at hl
        · rename_i hkind
          cases hl
          exact ⟨hdir, f, hf, hmatch.1, hmatch.2, hload, hkind, by rw [hmatch.1]⟩
        · cases hl
      · cases hl
    · rintro ⟨-, f, hf, hholds⟩
      refine ⟨f, (List.perm_insertionSort _ _).mem_iff.mpr (List.mem_filter.mpr ⟨hf, ?_⟩),
        hholds.attempt⟩
      rw [hholds.name, beq_iff_eq.mpr hholds.dir]
      rfl
  · rw [if_neg hdir]
    simp [hdir]

variable {python} in
theorem filePath_of_attempt {dir : List String} {l : Loaded}
    (h : f.attempt? python dir = some l) : l.filePath = dir ++ [f.name] := by
  unfold KnowledgeFile.attempt? at h
  split at h
  · split at h
    · rw [← Option.some.inj h]
    · cases h
  · cases h

/-- No two files below the attempts have their directory and their name in common. -/
def Apart (d : Disk) : Prop :=
  ∀ b, (d.files.filter fun f => f.dir == attemptsDir ++ [b]).Pairwise fun f g => f.name ≠ g.name

variable {attemptsDir} in
/-- Each file is listed once. -/
theorem nodup_load (ht : Clean (strip t)) (h : Apart attemptsDir d) :
    (loadTaskAttemptEntriesForTask python attemptsDir d t).Nodup := by
  unfold loadTaskAttemptEntriesForTask
  rw [ht.resolve_eq, ht.joinPath_eq]
  split
  · exact List.nodup_nil
  rename_i dir hdir
  split at hdir
  swap
  · cases hdir
  cases hdir
  have hfiles : (d.markdownFiles (attemptsDir ++ [strip t])).Pairwise
      fun f g => f.name ≠ g.name := by
    unfold Disk.markdownFiles
    rw [(List.perm_insertionSort _ _).pairwise_iff fun hfg => hfg.symm]
    refine (h (strip t)).sublist ?_
    have hsplit : (d.files.filter fun f => f.dir == attemptsDir ++ [strip t] && isMarkdown f.name) =
        (d.files.filter fun f => f.dir == attemptsDir ++ [strip t]).filter
          fun f => isMarkdown f.name := by
      rw [List.filter_filter]
      exact List.filter_congr fun f _ => Bool.and_comm _ _
    rw [hsplit]
    exact List.filter_sublist
  refine List.Pairwise.filterMap _ (fun f g hne l hl l' hl' heq => hne ?_) hfiles
  have hpath := (filePath_of_attempt hl).symm.trans
    ((congrArg Loaded.filePath heq).trans (filePath_of_attempt hl'))
  exact List.singleton_inj.mp (List.append_cancel_left hpath)

/-! ### The invariant of a run -/

structure Resolves (args : ResolutionArgs P) (l : Loaded) : Prop where
  source : l.entry.source = args.source
  status : l.entry.status = args.acceptanceState
  attempt : args.resolvedAttemptId ∈ l.entry.resolves

/-- The files below the attempts and the calls of the run belong to each other. -/
structure Kept (trace : List (WriteCall P × Except WriteError Loaded)) (d : Disk) : Prop where
  stored : ∀ c l, (c, .ok l) ∈ trace → ∃ f ∈ d.files, Holds python attemptsDir f (strip c.taskId) l
  written : ∀ f ∈ d.files, ∀ b, f.dir = attemptsDir ++ [b] →
    ∃ c l, (c, .ok l) ∈ trace ∧ Holds python attemptsDir f (strip c.taskId) l
  listed : ∀ f ∈ d.files, ∀ b, f.dir = attemptsDir ++ [b] → f.dir ∈ d.dirs
  apart : Apart attemptsDir d
  resolved : ∀ c l args, (c, .ok l) ∈ trace → c.writing = .resolution args → Resolves args l

theorem holds_file (h : c.Regular) (hclean : Clean (strip c.taskId)) :
    Holds python attemptsDir (c.file attemptsDir) (strip c.taskId) (c.loaded attemptsDir) :=
  ⟨c.bucket_eq attemptsDir hclean, isMarkdown_append _, c.load_file python attemptsDir h,
    c.kind_loaded attemptsDir, rfl⟩

theorem mem_existing_iff (d : Disk) (args : ResolutionArgs P) (l : Loaded) :
    l ∈ existingResolutions python attemptsDir d args ↔
      l ∈ loadTaskAttemptEntriesForTask python attemptsDir d args.task.taskId ∧
        Resolves args l := by
  unfold existingResolutions
  rw [List.mem_filter, Bool.and_eq_true, Bool.and_eq_true, beq_iff_eq, beq_iff_eq,
    List.contains_iff_mem]
  exact and_congr_right fun _ => ⟨fun h => ⟨h.1.1, h.1.2, h.2⟩, fun h => ⟨⟨h.1, h.2⟩, h.3⟩⟩

section Fields

variable (e : KnowledgeEntry) (body : List Char) (host : Host P) (args : TaskAttemptArgs P)

theorem status_asRead : (e.asRead body).status =
    normalizeTaskAttemptStatus e.kind (strip e.status) (e.result.bind stripped) := rfl

theorem resolves_asRead : (e.asRead body).resolves = trimmedItems e.resolves := rfl

theorem kind_attempt : (writeTaskAttemptEntry host args).kind = .taskAttempt := rfl

theorem taskId_attempt : (writeTaskAttemptEntry host args).taskId = args.task.taskId := by
  dsimp only [writeTaskAttemptEntry, KnowledgeEntry.withArtifacts]

theorem status_attempt :
    (writeTaskAttemptEntry host args).status = args.normalizedAcceptanceState := by
  dsimp only [writeTaskAttemptEntry, KnowledgeEntry.withArtifacts]

theorem result_attempt : (writeTaskAttemptEntry host args).result = args.rawResult := rfl

theorem resolves_attempt :
    (writeTaskAttemptEntry host args).resolves = normalizeResolveIds args.resolves := rfl

end Fields

theorem resolves_loaded (hargs : c.writing = .resolution args) (h : args.Plain) :
    Resolves args (c.loaded attemptsDir) := by
  have hentry : c.entry = writeTaskAttemptEntry c.host args.attempt := by
    unfold WriteCall.entry WriteCall.args
    rw [hargs]
  have hstate : args.attempt.normalizedAcceptanceState = args.acceptanceState := by
    unfold TaskAttemptArgs.normalizedAcceptanceState
    show orDefault (strip args.acceptanceState) _ = _
    rw [h.state, orDefault_of_ne fun hnil => h.word (by simp [hnil])]
  unfold WriteCall.loaded
  rw [hentry]
  refine ⟨h.source, ?_, ?_⟩
  · -- neither of the old words: the reader leaves the state alone
    have hword := h.word
    simp only [List.mem_cons, List.not_mem_nil, or_false, not_or] at hword
    have hempty : strip "" = "" := by decide
    rw [status_asRead, kind_attempt, status_attempt, result_attempt, hstate, h.state]
    have hnone : (args.attempt.rawResult.bind stripped) = none := rfl
    rw [hnone]
    unfold normalizeTaskAttemptStatus
    simp only [h.state, Option.getD_none, hempty]
    simp [hword.2.1, hword.2.2]
  · have hid : normalizeResolveIds [args.resolvedAttemptId] = [args.resolvedAttemptId] := by
      unfold normalizeResolveIds nonBlank
      simp [h.attempt, h.named, firsts]
    rw [resolves_asRead, resolves_attempt]
    show _ ∈ trimmedItems (normalizeResolveIds [args.resolvedAttemptId])
    rw [hid]
    simp [trimmedItems, h.attempt, h.named]

variable {python attemptsDir}

theorem Kept.mem_load (h : Kept python attemptsDir trace d) (hl : (c, .ok l) ∈ trace)
    (ht : strip t = strip c.taskId) (hclean : Clean (strip t)) :
    l ∈ loadTaskAttemptEntriesForTask python attemptsDir d t := by
  obtain ⟨f, hf, hholds⟩ := h.stored c l hl
  rw [← ht] at hholds
  rw [mem_load_iff python attemptsDir hclean]
  refine ⟨?_, f, hf, hholds⟩
  rw [← hholds.dir]
  exact h.listed f hf _ hholds.dir

/-- **What is listed for a task was written for it.** -/
theorem Kept.of_mem_load (h : Kept python attemptsDir trace d) (hclean : Clean (strip t))
    (hl : l ∈ loadTaskAttemptEntriesForTask python attemptsDir d t) :
    ∃ c, (c, .ok l) ∈ trace ∧ strip c.taskId = strip t := by
  obtain ⟨-, f, hf, hholds⟩ := (mem_load_iff python attemptsDir hclean d l).mp hl
  obtain ⟨c, l', hmem, hholds'⟩ := h.written f hf _ hholds.dir
  have hdir := List.append_cancel_left (hholds'.dir.symm.trans hholds.dir)
  have hentry := Except.ok.inj (hholds'.load.symm.trans hholds.load)
  have hpath := hholds'.path.trans hholds.path.symm
  obtain rfl : l' = l := by
    cases l
    cases l'
    rw [Loaded.mk.injEq]
    exact ⟨hentry, hpath⟩
  exact ⟨c, hmem, List.singleton_inj.mp hdir⟩

def NoAttempts (attemptsDir : List String) (d : Disk) : Prop :=
  ∀ f ∈ d.files, ∀ b, f.dir ≠ attemptsDir ++ [b]

theorem kept_nil (h : NoAttempts attemptsDir d) :
    Kept python attemptsDir ([] : List (WriteCall P × _)) d where
  stored _ _ hl := by cases hl
  written f hf b hdir := absurd hdir (h f hf b)
  listed f hf b hdir := absurd hdir (h f hf b)
  apart b := by
    have hnil : (d.files.filter fun f => f.dir == attemptsDir ++ [b]) = [] :=
      List.filter_eq_nil_iff.mpr fun f hf => by simpa using h f hf b
    rw [hnil]
    exact List.Pairwise.nil
  resolved _ _ _ hl := by cases hl

/-- **Every regular call for a clean identifier keeps it.** -/
theorem Kept.snoc {trace : List (WriteCall P × Except WriteError Loaded)} {d d' : Disk}
    (h : Kept python attemptsDir trace d) {c : WriteCall P} {out : Except WriteError Loaded}
    (hc : c.Regular) (hclean : Clean (strip c.taskId))
    (hexec : Writes python attemptsDir d (c, out) d') :
    Kept python attemptsDir (trace ++ [(c, out)]) d' := by
  have hsnoc (c' : WriteCall P) (l : Loaded) (out : Except WriteError Loaded)
      (hmem : (c', .ok l) ∈ trace ++ [(c, out)]) :
      (c', .ok l) ∈ trace ∨ c' = c ∧ out = .ok l := by
    rcases List.mem_append.mp hmem with hmem | hmem
    · exact .inl hmem
    · obtain ⟨rfl, hout⟩ := Prod.mk.inj (List.mem_singleton.mp hmem)
      exact .inr ⟨rfl, hout.symm⟩
  cases exec_cases python attemptsDir hc hexec with
  | failed e =>
    refine ⟨fun c' l hmem => ?_, fun f hf b hdir => ?_, fun f hf b hdir => ?_, ?_, ?_⟩
    · rcases hsnoc c' l _ hmem with hmem | ⟨-, heq⟩
      · rw [Disk.files_mkdir]
        exact h.stored c' l hmem
      · cases heq
    · rw [Disk.files_mkdir] at hf
      obtain ⟨c', l, hmem, hholds⟩ := h.written f hf b hdir
      exact ⟨c', l, List.mem_append_left _ hmem, hholds⟩
    · rw [Disk.files_mkdir] at hf
      exact (Disk.mem_mkdir d _ _).mpr (.inl (h.listed f hf b hdir))
    · intro b
      rw [Disk.files_mkdir]
      exact h.apart b
    · intro c' l args hmem hargs
      rcases hsnoc c' l _ hmem with hmem | ⟨-, heq⟩
      · exact h.resolved c' l args hmem hargs
      · cases heq
  | stored hnew =>
    have hfile := holds_file python attemptsDir hc hclean
    refine ⟨fun c' l hmem => ?_, fun f hf b hdir => ?_, fun f hf b hdir => ?_, ?_, ?_⟩
    · rcases hsnoc c' l _ hmem with hmem | ⟨rfl, heq⟩
      · obtain ⟨f, hf, hholds⟩ := h.stored c' l hmem
        exact ⟨f, List.mem_append_left _ hf, hholds⟩
      · cases heq
        exact ⟨_, List.mem_append_right _ List.mem_cons_self, hfile⟩
    · rcases List.mem_append.mp hf with hf | hf
      · obtain ⟨c', l, hmem, hholds⟩ := h.written f hf b hdir
        exact ⟨c', l, List.mem_append_left _ hmem, hholds⟩
      · obtain rfl := List.mem_singleton.mp hf
        exact ⟨c, _, List.mem_append_right _ List.mem_cons_self, hfile⟩
    · rcases List.mem_append.mp hf with hf | hf
      · exact (Disk.mem_mkdir d _ _).mpr (.inl (h.listed f hf b hdir))
      · obtain rfl := List.mem_singleton.mp hf
        exact (Disk.mem_mkdir d _ _).mpr (.inr rfl)
    · intro b
      rw [List.filter_append, List.pairwise_append]
      refine ⟨h.apart b, ?_, ?_⟩
      · exact (List.pairwise_singleton _ _).sublist List.filter_sublist
      · intro f hf g hg hname
        obtain ⟨hf, hfdir⟩ := List.mem_filter.mp hf
        obtain ⟨hg, hgdir⟩ := List.mem_filter.mp hg
        obtain rfl := List.mem_singleton.mp hg
        refine hnew f hf ?_ hname
        exact (beq_iff_eq.mp hfdir).trans (beq_iff_eq.mp hgdir).symm
    · intro c' l args hmem hargs
      rcases hsnoc c' l _ hmem with hmem | ⟨rfl, heq⟩
      · exact h.resolved c' l args hmem hargs
      · cases heq
        exact resolves_loaded attemptsDir hargs (hc.plain args hargs)
  | @known args l hargs hl =>
    obtain ⟨hload, hresolves⟩ := (mem_existing_iff python attemptsDir d args l).mp hl
    have hid : strip args.task.taskId = strip c.taskId := c.strip_taskId hargs hclean
    refine ⟨fun c' l' hmem => ?_, fun f hf b hdir => ?_, h.listed, h.apart, ?_⟩
    · rcases hsnoc c' l' _ hmem with hmem | ⟨rfl, heq⟩
      · exact h.stored c' l' hmem
      · cases heq
        rw [← hid] at hclean ⊢
        exact ((mem_load_iff python attemptsDir hclean d l).mp hload).2
    · obtain ⟨c', l', hmem, hholds⟩ := h.written f hf b hdir
      exact ⟨c', l', List.mem_append_left _ hmem, hholds⟩
    · intro c' l' args' hmem hargs'
      rcases hsnoc c' l' _ hmem with hmem | ⟨rfl, heq⟩
      · exact h.resolved c' l' args' hmem hargs'
      · cases heq
        obtain rfl := Writing.resolution.inj (hargs.symm.trans hargs')
        exact hresolves

theorem kept {init : Disk} (hinit : NoAttempts attemptsDir init)
    {trace : List (WriteCall P × Except WriteError Loaded)} {d : Disk}
    (h : Run (Writes python attemptsDir) init trace d)
    (hcalls : ∀ label ∈ trace, label.1.Regular ∧ Clean (strip label.1.taskId)) :
    Kept python attemptsDir trace d := by
  induction h with
  | nil => exact kept_nil hinit
  | @snoc trace s s' label _ hstep ih =>
    obtain ⟨hregular, hclean⟩ := hcalls label (List.mem_append_right _ List.mem_cons_self)
    exact (ih fun l hl => hcalls l (List.mem_append_left _ hl)).snoc hregular hclean hstep

/-! ### Finding by task -/

/-- Two calls that report the same resolution. -/
structure ResolutionArgs.Same (args args' : ResolutionArgs P) : Prop where
  task : args.task.id = args'.task.id
  source : args.source = args'.source
  state : args.acceptanceState = args'.acceptanceState
  attempt : args.resolvedAttemptId = args'.resolvedAttemptId

variable (python attemptsDir) in
/-- What is found for a task is what was written for it: each attempt once, none of another
task as the latest one; and a resolution that is written again is not written twice. -/
structure FoundByTask (ids : Set String) (trace : List (WriteCall P × Except WriteError Loaded))
    (d : Disk) : Prop where
  found : ∀ t ∈ ids, ∀ l, l ∈ loadTaskAttemptEntriesForTask python attemptsDir d t ↔
    ∃ c, (c, .ok l) ∈ trace ∧ c.taskId = t
  once : ∀ t ∈ ids, (loadTaskAttemptEntriesForTask python attemptsDir d t).Nodup
  latest : ∀ t ∈ ids, ∀ source withResolutions l,
    findLatestTaskAttemptEntry python attemptsDir d t source withResolutions = some l →
      ∃ c, (c, .ok l) ∈ trace ∧ c.taskId = t
  resolution : ∀ c l args, (c, .ok l) ∈ trace → c.writing = .resolution args →
    ∀ (c' : WriteCall P) args', c'.writing = .resolution args' → args'.Same args →
      ∃ l', c'.exec python attemptsDir d = (d, .ok l')

/-- The identifiers are clean once they are trimmed, and stay different. -/
structure CleanIds (ids : Set String) : Prop where
  clean : ∀ t ∈ ids, Clean (strip t)
  injective : ∀ t ∈ ids, ∀ u ∈ ids, strip t = strip u → t = u

/-- A resolution that the run has written is not written again. -/
theorem Kept.exec_known (h : Kept python attemptsDir trace d) {c' : WriteCall P}
    {args' : ResolutionArgs P} (hl : (c, .ok l) ∈ trace) (hargs : c.writing = .resolution args)
    (hargs' : c'.writing = .resolution args') (hsame : args'.Same args)
    (hclean : Clean (strip c.taskId)) :
    ∃ l', c'.exec python attemptsDir d = (d, .ok l') := by
  have hid : strip args'.task.taskId = strip c.taskId := by
    rw [← c.strip_taskId hargs hclean, Task.taskId, hsame.task]
    rfl
  have hload := h.mem_load hl hid (by rw [hid]; exact hclean)
  have hresolves := h.resolved c l args hl hargs
  have hhas : hasTaskAttemptResolution python attemptsDir d args'.task.taskId
      args'.resolvedAttemptId args'.acceptanceState = true := by
    unfold hasTaskAttemptResolution
    rw [List.any_eq_true]
    refine ⟨l, hload, ?_⟩
    rw [hsame.state, hsame.attempt, hresolves.status]
    simp [hresolves.attempt]
  have hmem : l ∈ existingResolutions python attemptsDir d args' := by
    rw [mem_existing_iff]
    refine ⟨hload, ?_, ?_, ?_⟩
    · rw [hsame.source]
      exact hresolves.source
    · rw [hsame.state]
      exact hresolves.status
    · rw [hsame.attempt]
      exact hresolves.attempt
  unfold WriteCall.exec
  rw [hargs']
  dsimp only
  unfold publishTaskAttemptResolution
  rw [if_pos hhas]
  cases hlatest : latestOf (existingResolutions python attemptsDir d args') with
  | none =>
    rw [latestOf, List.argmax_eq_none] at hlatest
    rw [hlatest] at hmem
    cases hmem
  | some l' => exact ⟨l', rfl⟩

theorem foundByTask_of_clean {ids : Set String} (hids : CleanIds ids) {init : Disk}
    (hinit : NoAttempts attemptsDir init) (h : Run (Writes python attemptsDir) init trace d)
    (hcalls : ∀ label ∈ trace, label.1.taskId ∈ ids ∧ label.1.Regular) :
    FoundByTask python attemptsDir ids trace d := by
  have hkept := kept hinit h fun label hl =>
    ⟨(hcalls label hl).2, hids.clean _ (hcalls label hl).1⟩
  have hfound : ∀ t ∈ ids, ∀ l, l ∈ loadTaskAttemptEntriesForTask python attemptsDir d t →
      ∃ c, (c, .ok l) ∈ trace ∧ c.taskId = t := by
    intro t ht l hl
    obtain ⟨c, hc, hstrip⟩ := hkept.of_mem_load (hids.clean t ht) hl
    exact ⟨c, hc, hids.injective _ (hcalls _ hc).1 t ht hstrip⟩
  refine ⟨fun t ht l => ⟨hfound t ht l, ?_⟩, fun t ht => ?_, fun t ht source all l hl => ?_, ?_⟩
  · rintro ⟨c, hc, rfl⟩
    exact hkept.mem_load hc rfl (hids.clean _ ht)
  · exact nodup_load python (hids.clean t ht) hkept.apart
  · exact hfound t ht l (List.mem_filter.mp (List.argmax_mem hl)).1
  · intro c l args hl hargs c' args' hargs' hsame
    exact hkept.exec_known hl hargs hargs' hsame (hids.clean _ (hcalls _ hl).1)

/-! ### No other identifiers -/

def plainCall (t : String) : WriteCall P where
  writing := .attempt {
    task := { id := t }, source := "worker", result := none, summary := "", changedFiles := []
    verifySummary := none, artifacts := {} }
  host := ⟨"2026-01-02T03:04:05+00:00", "0123abcd", fun _ => ""⟩

theorem isWideBreak_of_isIdChar {c : Char} (h : isIdChar c = true) : isWideBreak c = false := by
  by_contra hbreak
  rw [Bool.not_eq_false, isWideBreak, Bool.and_eq_true] at hbreak
  have hspace := isSpace_of_isLineBreak hbreak.1
  rw [isSpace_of_isIdChar h] at hspace
  cases hspace

theorem mem_of_mem_strip {c : Char} (h : c ∈ (strip value).toList) : c ∈ value.toList := by
  unfold strip at h
  rw [String.toList_ofList, List.mem_reverse] at h
  exact (List.dropWhile_sublist _).subset
    (List.mem_reverse.mp ((List.dropWhile_sublist _).subset h))

theorem taskId_ne (task : Task) : task.taskId ≠ "" := by
  unfold Task.taskId orDefault
  split
  · decide
  · assumption

theorem taskId_plainCall (t : String) : (plainCall t : WriteCall P).taskId = t := rfl

theorem bucket_plainCall (attemptsDir : List String) (t : String) :
    (plainCall t : WriteCall P).bucket attemptsDir =
      attemptsDir ++ [sanitizeComponent (Task.taskId { id := t })] := by
  have htask : (plainCall t : WriteCall P).args.task.taskId = Task.taskId { id := t } := rfl
  rw [WriteCall.bucket, attemptBucket, htask, orDefault_of_ne (taskId_ne _)]

/-- A text without a wide line end. -/
def Whole (s : String) : Prop := ∀ c ∈ s.toList, isWideBreak c = false

instance (s : String) : Decidable (Whole s) :=
  inferInstanceAs (Decidable (∀ c ∈ s.toList, isWideBreak c = false))

theorem Whole.append {s : String} (hs : Whole s) (ht : Whole t) : Whole (s ++ t) := by
  intro c hc
  rw [String.toList_append, List.mem_append] at hc
  exact hc.elim (hs c) (ht c)

theorem whole_sanitizeComponent (value : String) : Whole (sanitizeComponent value) := fun c hc =>
  isWideBreak_of_isIdChar ((clean_sanitizeComponent value).2 c hc)

theorem unbroken_scalar {s : String} (h : Whole s) : (Field.scalar (some s)).Unbroken := by
  intro s' hs'
  obtain rfl := List.mem_singleton.mp hs'
  exact h

theorem whole_taskId (h : Whole t) : Whole (Task.taskId { id := t }) := by
  unfold Task.taskId orDefault
  split
  · decide
  · exact fun c hc => h c (mem_of_mem_strip hc)

theorem orDefault_empty (default : String) : orDefault "" default = default := if_pos rfl

theorem whole_timestampSlug (h : Whole value) : Whole (timestampSlug value) := by
  intro c hc
  unfold timestampSlug at hc
  rw [String.toList_ofList] at hc
  exact h c (List.mem_filter.mp hc).1

theorem whole_entryIdentity {kind : KnowledgeEntryKind} {taskId source createdAt : String}
    (hcreated : Whole createdAt) (hsuffix : Whole host.suffix) :
    Whole (entryIdentity host kind taskId source createdAt) := by
  have hkind : Whole kind.text := by
    cases kind <;> decide
  have hdash : Whole "-" := by decide
  exact ((((((((hkind.append hdash).append (whole_sanitizeComponent _)).append hdash).append
    (whole_sanitizeComponent _)).append hdash).append (whole_timestampSlug hcreated)).append
    hdash).append hsuffix)

theorem unbroken_attempt {args : TaskAttemptArgs P} (hid : Whole args.task.taskId)
    (htitle : args.task.title = "") (hcreated : Whole (args.created host))
    (hsuffix : Whole host.suffix) (hsource : Whole args.source) (hresult : args.result = none)
    (hstate : args.acceptanceState = none) (hpaths : args.effectivePaths = [])
    (hrelated : args.task.dependencies = []) (htags : args.extraTags = [])
    (hartifacts : args.artifacts = {}) (hresolves : args.resolves = []) :
    ∀ f ∈ (writeTaskAttemptEntry host args).toFrontmatterPayload, f.2.Unbroken := by
  have hraw : args.rawResult = none := by
    rw [TaskAttemptArgs.rawResult, hresult]
    rfl
  have hempty : strip "" = "" := by decide
  have hrejected : args.normalizedAcceptanceState = "rejected" := by
    rw [TaskAttemptArgs.normalizedAcceptanceState, hstate, hraw]
    simp [hempty, orDefault]
  have hnone : (Field.scalar none).Unbroken := by decide
  have hnil : (Field.list []).Unbroken := by decide
  have hdeps : nonBlank args.task.dependencies = [] := by
    rw [hrelated]
    rfl
  have hids : normalizeResolveIds args.resolves = [] := by
    rw [hresolves]
    rfl
  have hall : ∀ s ∈ firsts id (args.source :: args.normalizedAcceptanceState ::
      args.rawResult.toList ++ nonBlank args.extraTags), Whole s := by
    intro s hs
    have hs := firsts_subset id _ hs
    rw [hrejected, hraw, htags] at hs
    rcases List.mem_cons.mp hs with rfl | hs
    · exact hsource
    · obtain rfl : s = "rejected" := by simpa [nonBlank] using hs
      decide
  unfold KnowledgeEntry.toFrontmatterPayload writeTaskAttemptEntry
  simp only [List.forall_mem_cons, KnowledgeEntry.withArtifacts, hartifacts, Option.map_none,
    hpaths, hdeps, hids, hraw, hrejected, hempty, htitle, orDefault_empty]
  refine ⟨by decide, unbroken_scalar (whole_entryIdentity hcreated hsuffix),
    unbroken_scalar ((hid.append (by decide)).append hid), unbroken_scalar hcreated,
    unbroken_scalar hid, unbroken_scalar hsource, by decide, hnone, hnil, hnil, ?_, hnone, hnone,
    hnone, hnone, hnone, hnone, hnone, hnil, hnone, by simp⟩
  rwa [hrejected, hraw] at hall

theorem stem_plainCall (t : String) :
    (plainCall t : WriteCall P).stem = "20260102T030405+0000_worker_0123abcd" := by
  show timestampSlug "2026-01-02T03:04:05+00:00" ++ "_" ++ sanitizeComponent "worker" ++ "_" ++
    "0123abcd" = _
  decide +kernel

theorem regular_plainCall (h : Whole t) : (plainCall t : WriteCall P).Regular := by
  have hcreated : (plainCall t : WriteCall P).args.created (plainCall t : WriteCall P).host =
      "2026-01-02T03:04:05+00:00" := rfl
  refine ⟨?_, ?_, ?_⟩
  · refine unbroken_attempt (whole_taskId h) rfl ?_ ?_ ?_ rfl rfl rfl rfl rfl rfl rfl
    · rw [hcreated]
      decide
    · show Whole "0123abcd"
      decide
    · show Whole "worker"
      decide
  · rw [stem_plainCall]
    decide
  · intro args hargs
    cases hargs

/-! ### Which sets of identifiers -/

theorem filePath_of_mem_load (h : l ∈ loadTaskAttemptEntriesForTask python attemptsDir d t) :
    ∃ name, l.filePath = joinPath attemptsDir (strip t) ++ [name] := by
  unfold loadTaskAttemptEntriesForTask at h
  split at h
  · cases h
  · obtain ⟨f, -, hf⟩ := List.mem_filterMap.mp h
    exact ⟨f.name, filePath_of_attempt hf⟩

variable (python attemptsDir) in
theorem run_plainCall (h : Whole t) : Run (Writes python attemptsDir) {}
      [((plainCall t : WriteCall P), .ok ((plainCall t : WriteCall P).loaded attemptsDir))]
      ⟨[(plainCall t : WriteCall P).bucket attemptsDir],
        [(plainCall t : WriteCall P).file attemptsDir]⟩ := by
  have hnul : '\x00' ∉ (plainCall t : WriteCall P).stem.toList := by
    rw [stem_plainCall]
    decide
  have hwriting : (plainCall t : WriteCall P).writing = .attempt (plainCall t : WriteCall P).args :=
    rfl
  have hrefused : (plainCall t : WriteCall P).refused = false := rfl
  have hexec := exec_attempt python attemptsDir (regular_plainCall (P := P) h) hwriting hnul
    (d := {}) (fun g hg => by cases hg) hrefused
  have hstate (dir : List String) (f : KnowledgeFile) :
      ({ Disk.mkdir {} dir with files := [] ++ [f] } : Disk) = ⟨[dir], [f]⟩ := rfl
  rw [hstate] at hexec
  exact Run.snoc Run.nil hexec

/-- **Attempts are found by their task for exactly the clean sets of identifiers**, as far as
these have no wide line end in them. -/
theorem foundByTask_iff {ids : Set String} (hwhole : ∀ t ∈ ids, Whole t) : CleanIds ids ↔
      ∀ (init : Disk) (trace : List (WriteCall P × Except WriteError Loaded)) (d : Disk),
        NoAttempts attemptsDir init → Run (Writes python attemptsDir) init trace d →
          (∀ label ∈ trace, label.1.taskId ∈ ids ∧ label.1.Regular) →
            FoundByTask python attemptsDir ids trace d := by
  constructor
  · intro hids init trace d hinit hrun hcalls
    exact foundByTask_of_clean hids hinit hrun hcalls
  · intro hall
    -- one call on an empty disk tells a set that is not clean
    have hsole (t : String) (ht : t ∈ ids) : ∃ d, (plainCall t : WriteCall P).loaded attemptsDir ∈
            loadTaskAttemptEntriesForTask python attemptsDir d t ∧
          FoundByTask python attemptsDir ids [((plainCall t : WriteCall P),
            .ok ((plainCall t : WriteCall P).loaded attemptsDir))] d := by
      have hrun := run_plainCall (P := P) python attemptsDir (hwhole t ht)
      have hfound := hall {} _ _ (fun f hf => by cases hf) hrun fun label hl => by
        obtain rfl := List.mem_singleton.mp hl
        rw [taskId_plainCall]
        exact ⟨ht, regular_plainCall (hwhole t ht)⟩
      have hmem := (hfound.found t ht ((plainCall t : WriteCall P).loaded attemptsDir)).mpr
        ⟨(plainCall t : WriteCall P), List.mem_cons_self, taskId_plainCall t⟩
      exact ⟨_, hmem, hfound⟩
    refine ⟨fun t ht => ?_, fun t ht u hu hstrip => ?_⟩
    · obtain ⟨d, hmem, -⟩ := hsole t ht
      obtain ⟨name, hname⟩ := filePath_of_mem_load hmem
      have hpath : attemptsDir ++ [sanitizeComponent (Task.taskId { id := t })] =
          joinPath attemptsDir (strip t) := by
        rw [WriteCall.filePath_loaded attemptsDir (plainCall t : WriteCall P),
          bucket_plainCall attemptsDir t] at hname
        have hdir := congrArg List.dropLast hname
        rwa [List.dropLast_concat, List.dropLast_concat] at hdir
      by_cases hempty : strip t = ""
      · have hparts : joinPath attemptsDir "" = attemptsDir ++ [] := by
          rw [joinPath, if_neg (by decide)]
          rfl
        rw [hempty, hparts] at hpath
        cases List.append_cancel_left hpath
      · rw [Task.taskId, orDefault_of_ne hempty] at hpath
        exact clean_of_joinPath_eq hpath.symm (strip_strip t) hempty
    · obtain ⟨d, hmem, hfound⟩ := hsole u hu
      have hload : loadTaskAttemptEntriesForTask python attemptsDir d u =
          loadTaskAttemptEntriesForTask python attemptsDir d t := by
        unfold loadTaskAttemptEntriesForTask
        rw [hstrip]
      rw [hload] at hmem
      obtain ⟨c, hc, hid⟩ := (hfound.found t ht _).mp hmem
      rw [List.mem_singleton, Prod.mk.injEq] at hc
      rw [← hid, hc.1, taskId_plainCall]

/-! ### Two identifiers -/

/-- One attempt of the task `T1`, found. -/
theorem foundByTask_one : FoundByTask constantsPython ["runs"] {"T1"}
    [((plainCall "T1" : WriteCall Unit), .ok ((plainCall "T1" : WriteCall Unit).loaded ["runs"]))]
    ⟨[["runs", "T1"]], [(plainCall "T1" : WriteCall Unit).file ["runs"]]⟩ := by
  have hwhole : ∀ t ∈ ({"T1"} : Set String), Whole t := by
    rintro t rfl
    decide
  have hclean : CleanIds {"T1"} := by
    refine ⟨?_, ?_⟩
    · rintro t rfl
      decide
    · rintro t rfl u rfl -
      rfl
  have hbucket : (plainCall "T1" : WriteCall Unit).bucket ["runs"] = ["runs", "T1"] := by
    decide +kernel
  have hrun := run_plainCall (P := Unit) constantsPython ["runs"] (hwhole "T1" rfl)
  rw [hbucket] at hrun
  refine (foundByTask_iff hwhole).mp hclean {} _ _ (fun f hf => by cases hf) hrun ?_
  intro label hl
  obtain rfl := List.mem_singleton.mp hl
  exact ⟨rfl, regular_plainCall (hwhole "T1" rfl)⟩

/-- The attempt of the task `fix login` is not found, and is found for the task `fix_login`. -/
theorem attempt_mixed : ∃ d, Run (Writes constantsPython ["runs"]) {}
        [((plainCall "fix login" : WriteCall Unit),
          .ok ((plainCall "fix login" : WriteCall Unit).loaded ["runs"]))] d ∧
      loadTaskAttemptEntriesForTask constantsPython ["runs"] d "fix login" = [] ∧
      (plainCall "fix login" : WriteCall Unit).loaded ["runs"] ∈
        loadTaskAttemptEntriesForTask constantsPython ["runs"] d "fix_login" := by
  have hwhole : Whole "fix login" := by decide
  have hbucket : (plainCall "fix login" : WriteCall Unit).bucket ["runs"] =
      ["runs", "fix_login"] := by decide +kernel
  have hclean : Clean (strip "fix_login") := by decide
  have hstrip : strip "fix_login" = "fix_login" := by decide
  have hrun := run_plainCall (P := Unit) constantsPython ["runs"] hwhole
  rw [hbucket] at hrun
  refine ⟨_, hrun, rfl, ?_⟩
  rw [mem_load_iff constantsPython ["runs"] hclean, hstrip]
  refine ⟨List.mem_cons_self, _, List.mem_cons_self, hbucket, isMarkdown_append _,
    WriteCall.load_file constantsPython ["runs"] (regular_plainCall hwhole), ?_, ?_⟩
  · exact WriteCall.kind_loaded _ _
  · exact WriteCall.filePath_loaded _ _

end AlysisCode.Knowledge
