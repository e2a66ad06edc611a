/-
The files that knowledge entries are kept in, and how the attempts of a task are found again.

An attempt is published in the directory of its task, under a name made of its time, its source
and a random suffix.  The writer names that directory by the sanitised task identifier; the
reader walks to the directory that the identifier itself names, as a path.
-/
import AlysisCode.Knowledge.Write
import Mathlib.Data.Prod.Lex
import Mathlib.Data.List.MinMax

namespace AlysisCode.Knowledge

open Text Runs

variable {F P : Type}

/-! ### Files -/

structure KnowledgeFile where
  dir : List String
  name : String
  text : List Char
  deriving DecidableEq

/-- The directories and the files there are. -/
structure Disk where
  dirs : List (List String) := []
  files : List KnowledgeFile := []
  deriving DecidableEq

/-- The parts of a path, as `pathlib` cuts it. -/
def pathParts (text : String) : List String :=
  ((text.toList.splitOn '/').filter fun c => c != [] && c != ['.']).map String.ofList

/-- `dir / text` -/
def joinPath (dir : List String) (text : String) : List String :=
  if text.toList.head? = some '/' then pathParts text else dir ++ pathParts text

/-- `as_posix()` of an absolute path. -/
def asPosix (parts : List String) : String := "/" ++ "/".intercalate parts

variable (python : Python F) (d : Disk)

/-- `mkdir(exist_ok=True)` -/
def Disk.mkdir (dir : List String) : Disk :=
  if dir ∈ d.dirs then d else { d with dirs := d.dirs ++ [dir] }

/-- Where the system ends when it follows the parts of a path from a directory on. -/
def Disk.walk (d : Disk) : List String → List String → Option (List String)
  | here, [] => some here
  | here, part :: rest =>
    if part = ".." then d.walk here.dropLast rest
    else if here ++ [part] ∈ d.dirs then d.walk (here ++ [part]) rest
    else none

/-- The directory that `dir / text` is, if there is one. -/
def Disk.resolve (dir : List String) (text : String) : Option (List String) :=
  d.walk (if text.toList.head? = some '/' then [] else dir) (pathParts text)

/-- `*.md` -/
def isMarkdown (name : String) : Bool := ".md".toList.isSuffixOf name.toList

/-- `sorted(directory.glob("*.md"))` -/
def Disk.markdownFiles (dir : List String) : List KnowledgeFile :=
  (d.files.filter fun f => f.dir == dir && isMarkdown f.name).insertionSort (·.name ≤ ·.name)

/-! ### Reading the attempts of a task -/

/-- An entry with its `file_path`. -/
structure Loaded where
  entry : KnowledgeEntry
  filePath : List String
  deriving DecidableEq

/-- What entries are compared by: time stamp, identifier, path. -/
def Loaded.order (l : Loaded) : String ×ₗ String ×ₗ String :=
  toLex (l.entry.createdAt, toLex (l.entry.id, asPosix l.filePath))

/-- `max(entries, key=…)` -/
def latestOf (entries : List Loaded) : Option Loaded := entries.argmax Loaded.order

variable [Json.Floats F]

/-- `load_knowledge_entry` -/
def KnowledgeFile.load (f : KnowledgeFile) : Except EntryError KnowledgeEntry :=
  fromMarkdown python (universalNewlines f.text)

/-- The attempt in a file below `dir`, unless the file is skipped. -/
def KnowledgeFile.attempt? (dir : List String) (f : KnowledgeFile) : Option Loaded :=
  match f.load python with
  | .ok e => if e.kind = .taskAttempt then some ⟨e, dir ++ [f.name]⟩ else none
  | .error _ => none

def loadTaskAttemptEntriesForTask (attemptsDir : List String) (d : Disk) (taskId : String) :
    List Loaded :=
  match d.resolve attemptsDir (strip taskId) with
  | none => []
  | some dir =>
    (d.markdownFiles dir).filterMap
      (KnowledgeFile.attempt? python (joinPath attemptsDir (strip taskId)))

def findLatestTaskAttemptEntry (attemptsDir : List String) (d : Disk) (taskId : String)
    (source : Option String) (includeResolutionEntries : Bool) : Option Loaded :=
  latestOf ((loadTaskAttemptEntriesForTask python attemptsDir d taskId).filter fun l =>
    (source.isNone || source == some l.entry.source) &&
      (includeResolutionEntries || l.entry.resolves.isEmpty))

def hasTaskAttemptResolution (attemptsDir : List String) (d : Disk)
    (taskId resolvedAttemptId acceptanceState : String) : Bool :=
  (loadTaskAttemptEntriesForTask python attemptsDir d taskId).any fun l =>
    l.entry.resolves.contains resolvedAttemptId && l.entry.status == acceptanceState

/-! ### Writing an attempt -/

/-- Why a writer raises. -/
inductive WriteError where
  /-- `FileExistsError` -/
  | exists
  /-- The name holds a NUL, or a directory that is not there. -/
  | name
  /-- The system refuses the new file. -/
  | refused
  /-- What was published is not read back. -/
  | unreadable (e : EntryError)
  deriving DecidableEq

/-- The name of the file, without its extension. -/
def filenameStem (host : Host P) (source createdAt : String) : String :=
  timestampSlug createdAt ++ "_" ++ sanitizeComponent source ++ "_" ++ host.suffix

/-- The file that `_publish_markdown_entry_atomic` makes.  A name that begins with a slash is
one below the root. -/
def publishedFile (directory : List String) (stem : String) (text : List Char) :
    Option KnowledgeFile :=
  let bare := stem.toList.dropWhile (· == '/')
  if '\x00' ∈ bare ∨ '/' ∈ bare then none
  else
    let dir := if stem.toList.head? = some '/' then [] else directory
    some ⟨dir, String.ofList bare ++ ".md", text⟩

/-- `_publish_markdown_entry_atomic` -/
def Disk.publish (directory : List String) (stem : String) (text : List Char) (refused : Bool) :
    Except WriteError KnowledgeFile :=
  match publishedFile directory stem text with
  | none => .error .name
  | some f =>
    if d.files.any fun g => g.dir == f.dir && g.name == f.name then .error .exists
    else if refused then .error .refused
    else .ok f

/-- `_knowledge_bucket_dir`, of a task attempt. -/
def attemptBucket (attemptsDir : List String) (taskId : String) : List String :=
  attemptsDir ++ [sanitizeComponent (orDefault taskId "general")]

/-- `created_at or _now_iso()` -/
def TaskAttemptArgs.created (host : Host P) (args : TaskAttemptArgs P) : String :=
  orDefault (args.createdAt.getD "") host.nowIso

/-- How a writer ends: the entry is published in its directory and read back.  The disk that
this leaves comes first. -/
def publishAndRead (directory : List String) (stem : String) (refused : Bool)
    (entry : KnowledgeEntry) (d : Disk) : Disk × Except WriteError Loaded :=
  let d := d.mkdir directory
  match d.publish directory stem entry.toMarkdown refused with
  | .error e => (d, .error e)
  | .ok f =>
    let outcome := match f.load python with
      | .ok e => .ok ⟨e, f.dir ++ [f.name]⟩
      | .error e => .error (.unreadable e)
    ({ d with files := d.files ++ [f] }, outcome)

/-- `write_task_attempt_entry` -/
def publishTaskAttempt (attemptsDir : List String) (host : Host P) (refused : Bool)
    (args : TaskAttemptArgs P) (d : Disk) : Disk × Except WriteError Loaded :=
  publishAndRead python (attemptBucket attemptsDir args.task.taskId)
    (filenameStem host args.source (args.created host)) refused (writeTaskAttemptEntry host args) d

/-- The arguments of `write_task_attempt_resolution_entry`. -/
structure ResolutionArgs (P : Type) where
  task : Task
  (source acceptanceState resolvedAttemptId summary : String)
  changedFiles : List String
  verifySummary : Option String
  artifacts : Artifacts P
  createdAt : Option String := none
  extraTags : List String := []

def ResolutionArgs.attempt (args : ResolutionArgs P) : TaskAttemptArgs P where
  task := args.task
  source := args.source
  result := none
  summary := args.summary
  changedFiles := args.changedFiles
  verifySummary := args.verifySummary
  artifacts := args.artifacts
  acceptanceState := some args.acceptanceState
  resolves := [args.resolvedAttemptId]
  createdAt := args.createdAt
  extraTags := args.extraTags ++ ["acceptance_resolution"]

/-- `existing_entries` -/
def existingResolutions (attemptsDir : List String) (d : Disk) (args : ResolutionArgs P) :
    List Loaded :=
  (loadTaskAttemptEntriesForTask python attemptsDir d args.task.taskId).filter fun l =>
    l.entry.source == args.source && l.entry.status == args.acceptanceState &&
      l.entry.resolves.contains args.resolvedAttemptId

/-- `write_task_attempt_resolution_entry` -/
def publishTaskAttemptResolution (attemptsDir : List String) (host : Host P) (refused : Bool)
    (args : ResolutionArgs P) (d : Disk) : Disk × Except WriteError Loaded :=
  let existing :=
    if hasTaskAttemptResolution python attemptsDir d args.task.taskId args.resolvedAttemptId
        args.acceptanceState then latestOf (existingResolutions python attemptsDir d args)
    else none
  match existing with
  | some l => (d, .ok l)
  | none => publishTaskAttempt python attemptsDir host refused args.attempt d

/-! ### Runs -/

/-- A call of one of the two writers. -/
inductive Writing (P : Type) where
  | attempt (args : TaskAttemptArgs P)
  | resolution (args : ResolutionArgs P)

/-- A call in its surroundings. -/
structure WriteCall (P : Type) where
  writing : Writing P
  host : Host P
  refused : Bool := false

def WriteCall.taskId (c : WriteCall P) : String :=
  match c.writing with
  | .attempt args => args.task.id
  | .resolution args => args.task.id

def WriteCall.args (c : WriteCall P) : TaskAttemptArgs P :=
  match c.writing with
  | .attempt args => args
  | .resolution args => args.attempt

def WriteCall.exec (attemptsDir : List String) (c : WriteCall P) (d : Disk) :
    Disk × Except WriteError Loaded :=
  match c.writing with
  | .attempt args => publishTaskAttempt python attemptsDir c.host c.refused args d
  | .resolution args => publishTaskAttemptResolution python attemptsDir c.host c.refused args d

def Writes (attemptsDir : List String) (d : Disk) (label : WriteCall P × Except WriteError Loaded)
    (d' : Disk) : Prop :=
  label.1.exec python attemptsDir d = (d', label.2)

end AlysisCode.Knowledge
