/-
The checkpoint of a task's best verified candidate: what the worker process does.

The host asks a worker to look at a candidate.  The worker keeps its answer in three places
besides the host's memory — the budget file, the archive and the index — and may fail at any
of them, or be killed before it has answered.  How each call of the operating system ends is
an argument (`Weather`), and so is what the two walks through the workspace meet.
-/
import AlysisCode.Ide.Python
import AlysisCode.Library.JsonText
import AlysisCode.Library.Runs

namespace AlysisCode.Checkpoint

/-! ### Settings, candidates and checkpoints -/

inductive Direction where
  | minimize
  | maximize
  deriving DecidableEq

/-- `CheckpointSettings` -/
structure Settings where
  enabled : Bool
  (maxFiles maxTotalBytes maxCandidates : Nat)
  objectiveCommand : String
  objectiveKey : String
  objectiveDirection : Direction

/-- What becomes of a JSON value as a measurement: `float` of a finite number, nothing for
another value, and an `OverflowError` for an integer that no float holds. -/
inductive Number (S : Type) where
  | finite (x : S)
  | other
  | overflow

/-- What the manager asks its surroundings: Python's `str`, `float` and `math.isfinite`, SHA-256
of bytes and of a command, and `zipfile` of sorted files with their modes. -/
structure Host (F S B D M : Type) where
  python : Python F
  number : Json F → Number S
  digest : B → D
  commandDigest : String → D
  zip : List (String × B) → M → B
  root : String

/-- `_objective_config()` -/
structure Objective (D : Type) where
  commandSha256 : D
  key : String
  direction : Direction
  deriving DecidableEq

/-- The dict of a preserved checkpoint.  An archive is named by its content address. -/
structure Best (S D : Type) where
  workspaceRoot : String
  objectiveConfig : Objective D
  taskId : String
  acceptanceRevision : String
  generation : Int
  archive : D
  archiveSha256 : D
  objectiveValue : Option S
  omittedPaths : List String
  deriving DecidableEq

/-- `best`, `_task_id`, `_acceptance_revision` and `_attempted`, on both sides of the pipe. -/
structure State (S D : Type) where
  best : Option (Best S D) := none
  taskId : String := ""
  acceptanceRevision : String := ""
  attempted : List (String × Int) := []

/-- `budget.json` -/
structure Budget where
  taskId : String
  acceptanceRevision : String
  generations : List Int

/-- The files below `verified_checkpoints`: archives by content address, and for each task and
revision its budget and its index.  The newest of a name stands first. -/
structure Disk (S B D : Type) where
  archives : List (D × B) := []
  budgets : List ((String × String) × Budget) := []
  indexes : List ((String × String) × Best S D) := []

/-- The arguments of `consider`: what it reads of the outcome, the result of the tool, the
accepted commands, and whether `remaining_seconds` is used up. -/
structure Call (F : Type) where
  taskId : String
  acceptanceRevision : String
  verifiedSuccess : Bool
  terminal : Bool
  generation : Int
  result : List (String × Json F)
  acceptedCommands : List String
  expired : Bool

def Call.attempt {F : Type} (call : Call F) : String × Int := (call.taskId, call.generation)

/-- `outcome.get("verified_success") and outcome.get("terminal") is True` -/
def Call.sufficient {F : Type} (call : Call F) : Bool := call.verifiedSuccess && call.terminal

inductive Status where
  | verifiedCheckpointPreserved
  | candidateBudgetExhausted
  | checkpointUnavailable (reason : String)
  | checkpointTimeBudgetExhausted
  | unverifiedCandidateRejected
  | priorCandidateRetained
  | objectiveUnmeasured
  deriving DecidableEq

structure Event (S D : Type) where
  status : Status
  best : Option (Best S D)

/-! ### How calls of the operating system end -/

/-- A write that works, one that raises and one that the worker does not survive; the last two
may have had their effect. -/
inductive Fate where
  | works
  | raises (reason : String) (effect : Bool)
  | killed (effect : Bool)

/-- The exclusive creation of the archive, with what it leaves behind where it does not work. -/
inductive Creation (B : Type) where
  | works
  | raises (reason : String) (left : Option B)
  | killed (left : Option B)

structure Stat where
  size : Nat
  mtimeNs : Int
  ctimeNs : Int
  deriving DecidableEq

/-- A name that the walk meets, as the calls on it answer. -/
structure Seen (B : Type) where
  relative : String
  late : Bool := false
  excluded : Bool := false
  listed : Bool := true
  (runtimeArtifact sensitive symlink : Bool := false)
  regular : Bool := true
  before : Stat
  after : Stat
  content : B

/-- A walk through the workspace: the names it meets, or an error or its end before that. -/
inductive Walk (B : Type) where
  | meets (names : List (Seen B))
  | raises (reason : String)
  | killed

/-- Everything that is up to the operating system while a worker considers a candidate: whether
it is launched, what the calls do, and whether its answer arrives in time. -/
structure Weather (B M : Type) where
  launched : Bool := true
  budgetWrite : Fate := .works
  first : Walk B
  second : Walk B
  modes : Option M
  archiveWrite : Creation B := .works
  (archiveRead manifestWrite indexWrite : Fate := .works)
  answered : Bool := true

/-! ### Snapshots -/

variable {F S B D M : Type}

/-- `files[relative] = content` -/
def assignFile (files : List (String × B)) (relative : String) (content : B) : List (String × B) :=
  files.filter (·.1 != relative) ++ [(relative, content)]

/-- The loop of `_snapshot`: the files, the omitted paths and the bytes counted so far. -/
def snapshotFrom (settings : Settings) (files : List (String × B)) (omitted : List String)
    (total : Nat) : List (Seen B) → Except String (List (String × B) × List String)
  | [] => .ok (files, omitted)
  | seen :: rest =>
    if seen.late then .error "checkpoint_time_budget_exhausted"
    else if seen.excluded || !seen.listed || seen.runtimeArtifact then
      snapshotFrom settings files omitted total rest
    else if seen.sensitive || seen.symlink || !seen.regular then
      snapshotFrom settings files (omitted ++ [seen.relative]) total rest
    else if settings.maxFiles ≤ files.length ∨
        settings.maxTotalBytes < total + seen.before.size then
      .error "checkpoint_size_budget_exhausted"
    else if seen.before ≠ seen.after then .error "workspace_changed_during_checkpoint"
    else snapshotFrom settings (assignFile files seen.relative seen.content) omitted
      (total + seen.before.size) rest

def snapshot (settings : Settings) (names : List (Seen B)) :
    Except String (List (String × B) × List String) :=
  snapshotFrom settings [] [] 0 names

/-- `{name: sha256(data)} == {name: sha256(data)}` -/
def sameDigests [DecidableEq D] (host : Host F S B D M) (files confirmed : List (String × B)) :
    Bool :=
  files.all (fun f => (confirmed.lookup f.1).map host.digest == some (host.digest f.2)) &&
    confirmed.all (fun f => (files.lookup f.1).map host.digest == some (host.digest f.2))

/-! ### Measurements -/

/-- `value == 0`, of a JSON value. -/
def isZero (python : Python F) : Json F → Bool
  | .int n => n == 0
  | .bool b => !b
  | .float x => python.isZero x
  | _ => false

/-- A row of the result: its measurement, if it is the objective's run and shows one. -/
def measureRow [Json.Floats F] (host : Host F S B D M) (settings : Settings) (command : String)
    (row : List (String × Json F)) : Number S :=
  let python := host.python
  let observed := strip (python.text (python.orElse (python.orElse (Json.get row "effective_cmd")
    (python.orElse (Json.get row "cmd") (Json.get row "command"))) (.str "")))
  if observed ≠ command || !isZero python (Json.get row "exit_code") then .other
  else
    match python.orElse (Json.get row "stdout") (.str "") with
    | .str stdout =>
      match Json.loads (F := F) stdout with
      | some (.obj payload) =>
        match payload.lookup settings.objectiveKey with
        | some value => host.number value
        | none => .other
      | _ => .other
    | _ => .other

/-- `_measurement`, over the rows: the first one that shows a number; `none` is the
`OverflowError`. -/
def measureRows [Json.Floats F] (host : Host F S B D M) (settings : Settings) (command : String) :
    List (Json F) → Option (Option S)
  | [] => some none
  | .obj row :: rest =>
    match measureRow host settings command row with
    | .finite x => some (some x)
    | .overflow => none
    | .other => measureRows host settings command rest
  | _ :: rest => measureRows host settings command rest

def measurement [Json.Floats F] (host : Host F S B D M) (settings : Settings) (call : Call F) :
    Option (Option S) :=
  let command := strip settings.objectiveCommand
  if command = "" || !call.acceptedCommands.contains command then some none
  else
    match Json.get call.result "results" with
    | .arr rows => measureRows host settings command rows
    | _ => measureRows host settings command [.obj call.result]

/-- `better`, of a score and the previous one. -/
def better [LinearOrder S] (direction : Direction) (score previous : Option S) : Bool :=
  match score, previous with
  | none, _ => false
  | some _, none => true
  | some score, some previous =>
    match direction with
    | .minimize => decide (score < previous)
    | .maximize => decide (previous < score)

end AlysisCode.Checkpoint

/-! ### The worker and the host

The worker's operations and the host's, which are the same manager on two sides of a pipe.

The host hands its state to the worker and takes over what the worker answers; where no answer
comes it keeps its best checkpoint and counts the candidate as attempted.  A new host process
starts without state, and recovers what the last acknowledged checkpoint and the budget file
give it.
-/

namespace AlysisCode.Checkpoint

open Runs

variable {F S B D M : Type}

/-! ### Files -/

variable (disk : Disk S B D)

/-- What stands at the path of an archive afterwards. -/
def Disk.leave (name : D) : Option B → Disk S B D
  | none => disk
  | some content => { disk with archives := (name, content) :: disk.archives }

/-- `atomic_write_json(budget_path, …)` -/
def Disk.writeBudget (s : State S D) : Disk S B D :=
  { disk with budgets := ((s.taskId, s.acceptanceRevision),
      ⟨s.taskId, s.acceptanceRevision, s.attempted.map (·.2)⟩) :: disk.budgets }

/-- `atomic_write_json(self._task_index(task_id), best)` -/
def Disk.writeIndex (best : Best S D) : Disk S B D :=
  { disk with indexes := ((best.taskId, best.acceptanceRevision), best) :: disk.indexes }

/-- A write to the disk, as it ends. -/
def Fate.apply (fate : Fate) (disk written : Disk S B D) : Disk S B D :=
  match fate with
  | .works => written
  | .raises _ effect => if effect then written else disk
  | .killed effect => if effect then written else disk

/-- The archive is created, or is there already and is checked against its address. -/
def storeArchive [DecidableEq D] (host : Host F S B D M) (w : Weather B M) (disk : Disk S B D)
    (data : B) : Disk S B D × Fate :=
  match disk.archives.lookup (host.digest data) with
  | none =>
    match w.archiveWrite with
    | .works => (disk.leave (host.digest data) (some data), .works)
    | .raises reason left => (disk.leave (host.digest data) left, .raises reason false)
    | .killed left => (disk.leave (host.digest data) left, .killed false)
  | some content =>
    match w.archiveRead with
    | .works =>
      if host.digest content ≠ host.digest data then
        (disk, .raises "checkpoint_archive_identity_mismatch" false)
      else (disk, .works)
    | fate => (disk, fate)

/-! ### The worker -/

/-- How a worker ends: without an answer, with an error, or with its state and an event. -/
inductive Worker (S D : Type) where
  | killed
  | raises (reason : String)
  | answers (s : State S D) (event : Option (Event S D))

/-- An answer that leaves the best checkpoint. -/
def State.retains (s : State S D) (status : Status) : Worker S D :=
  .answers s (some ⟨status, s.best⟩)

/-- A new task or a new acceptance revision starts without attempts. -/
def State.select (s : State S D) (taskId revision : String) : State S D :=
  if taskId = s.taskId ∧ revision = s.acceptanceRevision then s
  else { taskId := taskId, acceptanceRevision := revision }

section Worker

variable [Json.Floats F] [LinearOrder S] [DecidableEq D]

variable (host : Host F S B D M) (settings : Settings) (call : Call F) (s : State S D)
  (w : Weather B M)

def objective : Objective D :=
  ⟨host.commandDigest settings.objectiveCommand, settings.objectiveKey, settings.objectiveDirection⟩

/-- The dict of a new checkpoint. -/
def newBest (score : Option S) (omitted : List String) (data : B) : Best S D where
  workspaceRoot := host.root
  objectiveConfig := objective host settings
  taskId := call.taskId
  acceptanceRevision := s.acceptanceRevision
  generation := call.generation
  archive := host.digest data
  archiveSha256 := host.digest data
  objectiveValue := score
  omittedPaths := omitted

/-- `_consider_inline`, from the archive on. -/
def publish (s : State S D) (score : Option S) (omitted : List String) (data : B)
    (disk : Disk S B D) :
    Disk S B D × Worker S D :=
  match storeArchive host w disk data with
  | (disk, .killed _) => (disk, .killed)
  | (disk, .raises reason _) => (disk, s.retains (.checkpointUnavailable reason))
  | (disk, .works) =>
    match w.manifestWrite with
    | .killed _ => (disk, .killed)
    | .raises reason _ => (disk, s.retains (.checkpointUnavailable reason))
    | .works =>
      let best := newBest host settings call s score omitted data
      let indexed := w.indexWrite.apply disk (disk.writeIndex best)
      match w.indexWrite with
      | .killed _ => (indexed, .killed)
      | .raises reason _ => (indexed, s.retains (.checkpointUnavailable reason))
      | .works => (indexed, .answers { s with best := some best }
          (some ⟨.verifiedCheckpointPreserved, some best⟩))

/-- `_consider_inline`, from the first snapshot on. -/
def preserve (s : State S D) (score : Option S) (disk : Disk S B D) : Disk S B D × Worker S D :=
  match w.first with
  | .killed => (disk, .killed)
  | .raises reason => (disk, s.retains (.checkpointUnavailable reason))
  | .meets names =>
    match snapshot settings names with
    | .error reason => (disk, s.retains (.checkpointUnavailable reason))
    | .ok (files, omitted) =>
      if files.isEmpty then (disk, .answers s none)
      else
        match w.second with
        | .killed => (disk, .killed)
        | .raises reason => (disk, s.retains (.checkpointUnavailable reason))
        | .meets names =>
          match snapshot settings names with
          | .error reason => (disk, s.retains (.checkpointUnavailable reason))
          | .ok (confirmed, confirmedOmitted) =>
            if omitted ≠ confirmedOmitted ∨ !sameDigests host files confirmed then
              (disk, s.retains (.checkpointUnavailable "workspace_changed_during_checkpoint"))
            else
              match w.modes with
              | none => (disk, s.retains (.checkpointUnavailable "stat"))
              | some modes =>
                publish host settings call w s score omitted (host.zip files modes) disk

/-- `_consider_inline`, behind the budget file. -/
def examine (s : State S D) (score : Option S) (disk : Disk S B D) : Disk S B D × Worker S D :=
  if !call.sufficient then (disk, s.retains .unverifiedCandidateRejected)
  else if s.best.any fun best =>
      !better settings.objectiveDirection score best.objectiveValue then
    (disk, s.retains .priorCandidateRetained)
  else if settings.objectiveCommand ≠ "" ∧ score.isNone ∧ s.best.isSome then
    (disk, s.retains .objectiveUnmeasured)
  else if call.expired then (disk, s.retains .checkpointTimeBudgetExhausted)
  else preserve host settings call w s score disk

/-- `_consider_inline`, up to the budget file: the state that is written there, with the new
attempt, and the score; or the worker's answer without an evaluation. -/
def gate : Except (Worker S D) (State S D × Option S) :=
  let s := s.select call.taskId call.acceptanceRevision
  if !call.sufficient && s.best.isNone then .error (.answers s none)
  else
    match measurement host settings call with
    | none => .error (.raises "OverflowError")
    | some score =>
      if s.attempted.contains call.attempt then .error (.answers s none)
      else if settings.maxCandidates ≤ s.attempted.length then
        .error (s.retains .candidateBudgetExhausted)
      else .ok ({ s with attempted := s.attempted ++ [call.attempt] }, score)

def considerInline (s : State S D) (disk : Disk S B D) : Disk S B D × Worker S D :=
  match gate host settings call s with
  | .error worker => (disk, worker)
  | .ok (s, score) =>
    let written := w.budgetWrite.apply disk (disk.writeBudget s)
    match w.budgetWrite with
    | .killed _ => (written, .killed)
    | .raises reason _ => (written, s.retains (.checkpointUnavailable reason))
    | .works => examine host settings call w s score written

/-! ### The host -/

def allAttempts (taskId : String) : List (String × Int) :=
  (List.range settings.maxCandidates).map fun index => (taskId, (index : Int))

def State.sameTask (call : Call F) : Bool :=
  call.taskId = s.taskId && call.acceptanceRevision = s.acceptanceRevision

/-- The host's state when no answer came. -/
def State.afterFailure (call : Call F) : State S D :=
  let s : State S D :=
    if s.sameTask call then s
    else
      { taskId := call.taskId, acceptanceRevision := call.acceptanceRevision
        attempted := allAttempts settings call.taskId }
  if s.attempted.contains call.attempt then s
  else { s with attempted := s.attempted ++ [call.attempt] }

/-- `consider` does not ask the worker: checkpoints are off, there is nothing to preserve or to
compare with, or the candidate was attempted. -/
def State.declines (call : Call F) : Bool :=
  !settings.enabled || call.taskId = "" ||
    (!call.verifiedSuccess && (!s.sameTask call || s.best.isNone)) ||
    (s.sameTask call && s.attempted.contains call.attempt)

/-- The event of a call that got no answer. -/
def failureEvent (status : Status) : Option (Event S D) := some ⟨status, s.best⟩

def consider (s : State S D) (disk : Disk S B D) : State S D × Disk S B D × Option (Event S D) :=
  if s.declines settings call then (s, disk, none)
  else
    let failed := s.afterFailure settings call
    if call.expired || !w.launched then
      (failed, disk, failureEvent failed .checkpointTimeBudgetExhausted)
    else
      match considerInline host settings call w s disk with
      | (disk, .answers s event) =>
        if w.answered then (s, disk, event)
        else (failed, disk, failureEvent failed .checkpointTimeBudgetExhausted)
      | (disk, .raises reason) =>
        (failed, disk, failureEvent failed (.checkpointUnavailable reason))
      | (disk, .killed) => (failed, disk, failureEvent failed .checkpointTimeBudgetExhausted)

/-! ### Resuming -/

/-- What the operating system does while a worker recovers a checkpoint. -/
structure Recovery where
  (answered archiveReads budgetReads : Bool := true)

/-- The attempts that the budget file gives back; `none` where it cannot be read. -/
def Disk.budgetAttempts (disk : Disk S B D) (recovery : Recovery) (taskId revision : String) :
    Option (List (String × Int)) :=
  match disk.budgets.lookup (taskId, revision) with
  | none => none
  | some budget =>
    if !recovery.budgetReads then none
    else if budget.taskId = taskId ∧ budget.acceptanceRevision = revision then
      some ((firsts id budget.generations).map fun generation => (taskId, generation))
    else some []

/-- `_select_task_inline`, of a new task with an acknowledged checkpoint. -/
def recoverInline (recovery : Recovery) (taskId revision : String) (saved : Best S D)
    (disk : Disk S B D) : State S D :=
  let archiveMatches := recovery.archiveReads &&
    ((disk.archives.lookup saved.archive).map host.digest == some saved.archiveSha256)
  if saved.taskId = taskId ∧ saved.acceptanceRevision = revision ∧
      saved.workspaceRoot = host.root ∧ saved.objectiveConfig = objective host settings ∧
      archiveMatches then
    { best := some saved
      taskId := taskId
      acceptanceRevision := revision
      attempted := (disk.budgetAttempts recovery taskId revision).getD
        (allAttempts settings taskId) }
  else { taskId := taskId, acceptanceRevision := revision }

def selectTask (recovery : Recovery) (taskId revision : String) (acknowledged : Option (Best S D))
    (s : State S D) (disk : Disk S B D) : State S D :=
  if taskId = s.taskId ∧ revision = s.acceptanceRevision then s
  else
    match acknowledged with
    | none => { taskId := taskId, acceptanceRevision := revision }
    | some saved =>
      if recovery.answered then recoverInline host settings recovery taskId revision saved disk
      else
        { taskId := taskId, acceptanceRevision := revision
          attempted := allAttempts settings taskId }

end Worker

end AlysisCode.Checkpoint
