/-
The threads that share one run directory.

A call of `acquire_run_mutation_guard` is known by its owner token.  Its caller's thread
acquires and later releases; once there is a guard, a second thread refreshes the
heartbeat.  A step is one thread's next read, exclusive open, write, replace or unlink of
a file, or one of its next computations between two of these, so a run of steps is an
interleaving of any number of threads of any number of processes on one host.

A process that dies leaves its files as they are.  Nothing joins the heartbeat thread:
`stop` is looked at before a refresh and not during one.
-/
import AlysisCode.RunLock.Basic

namespace AlysisCode.RunLock

/-! ### Threads -/

/-- Why a call of `acquire_run_mutation_guard` raised. -/
inductive AcquireError
  /-- `RunMutationConflictError`, with the metadata it shows and its note. -/
  | conflict (metadata : Option Metadata) (note : Option String)
      (reasonCode : String := "blocked_by_active_workspace_execution")
  /-- The stale lock was gone when it was to be unlinked. -/
  | fileNotFound
  deriving DecidableEq

/-- What follows when `_clear_stale_recovery_claim` returns. -/
inductive AfterClear
  | acquire
  | raise (existing : Metadata)
  deriving DecidableEq

/-- Where the caller's thread is: what it does next. -/
inductive MainPc
  /-- `_clear_stale_recovery_claim` reads the claim. -/
  | clearRead (next : AfterClear)
  | clearAssess (next : AfterClear) (claim : Metadata)
  | clearUnlink (next : AfterClear)
  /-- Build the metadata of the lock, open the lock file exclusively, write. -/
  | build
  | openLock (metadata : Metadata)
  | writeLock (metadata : Metadata)
  /-- The lock file exists: read it and weigh its owner. -/
  | readExisting
  | assessExisting (existing : Metadata)
  | buildClaim (existing : Metadata) (kind : Option StaleKind)
  | openClaim (existing : Metadata) (kind : Option StaleKind) (claim : Metadata)
  | writeClaim (existing : Metadata) (kind : Option StaleKind) (claim : Metadata)
  | grace (existing : Metadata) (wakeAt : Nat)
  /-- Read the lock again, weigh its owner again, unlink it. -/
  | reread (existing : Metadata)
  | reassess (current : Metadata)
  | unlinkStale (current : Metadata)
  /-- Build, open and write the lock in its place. -/
  | rebuild
  | reopen (metadata : Metadata)
  | rewrite (metadata : Metadata)
  /-- The `finally` of the recovery: drop the claim. -/
  | finallyRead (outcome : Except AcquireError Unit)
  | finallyUnlink (outcome : Except AcquireError Unit)
  /-- The lock is acquired and the guard is not returned yet. -/
  | acquired
  | failed (error : AcquireError)
  /-- The caller has the guard. -/
  | held
  /-- `release`; `again` says that it has been called before. -/
  | releaseRead (again : Bool)
  | releaseUnlink (again : Bool)
  | releaseClaimRead
  | releaseClaimUnlink
  | released
  deriving DecidableEq

/-- Where the heartbeat thread is. -/
inductive BeatPc
  | waiting
  | reading
  /-- It has read its own lock and is about to call `now_iso`. -/
  | stamping (current : Metadata)
  | replacing (current : Metadata)
  deriving DecidableEq

/-- One call of `acquire_run_mutation_guard` and the guard it returned. -/
structure Call where
  config : Config
  main : MainPc := .clearRead .acquire
  beat : BeatPc := .waiting
  /-- `_HeartbeatWorker._stop`. -/
  stop : Bool := false
  /-- The `last_heartbeat_at` of the lock that the call last put in place. -/
  beatAt : Nat := 0
  deriving DecidableEq

/-- The run directory, the processes and the calls. -/
structure State where
  now : Nat
  /-- The processes that are running, by process id. -/
  alive : Nat → Bool
  /-- `active_execution.lock.json`. -/
  lock : File
  /-- `active_execution.recovering.json`. -/
  recovery : File
  calls : OwnerToken → Option Call

/-- Before any call: whatever files earlier executions left. -/
def initial (alive : Nat → Bool) (lock recovery : File) : State :=
  { now := 0, alive := alive, lock := lock, recovery := recovery, calls := fun _ => none }

variable (s : State)

/-- `_process_is_running`. -/
def State.isRunning (pid : Nat) : Option Bool :=
  some (s.alive pid)

def State.put (k : OwnerToken) (c : Call) : State :=
  { s with calls := Function.update s.calls k (some c) }

/-- The text of the call's own open file, if it is still at the path, becomes `m`. -/
def writeOpened (f : File) (k : OwnerToken) (m : Metadata) : File :=
  if f = some (.blank k) then some (.metadata m) else f

def carries (f : File) (k : OwnerToken) : Bool :=
  (loadMetadata f).any (·.ownedBy k)

/-! ### Steps of the caller's thread -/

section Steps

variable (host : String)

variable (s : State) (k : OwnerToken)

/-- The verdict on a lock now. -/
def State.assess (m : Metadata) : LockStaleness :=
  assessLockStaleness host s.isRunning s.now (some m)

/-- `_clear_stale_recovery_claim` has returned. -/
def AfterClear.resume : AfterClear → MainPc
  | .acquire => .build
  | .raise existing =>
    .failed (.conflict existing "another execution is already recovering the stale run lock")

/-- The next step of `acquire_run_mutation_guard` or of `release`.  `patient` says what a
waiting call does when the lock is active: poll again or time out. -/
def advance (c : Call) (patient : Bool) : Option State :=
  let go (pc : MainPc) : Call := { c with main := pc }
  match c.main with
  | .clearRead next =>
    match loadMetadata s.recovery with
    | none => some (s.put k (go next.resume))
    | some claim => some (s.put k (go (.clearAssess next claim)))
  | .clearAssess next claim =>
    if (s.assess host claim).recoverable then
      some (s.put k (go (.clearUnlink next)))
    else
      some (s.put k (go (.failed
        (.conflict claim "another execution is already recovering this run"))))
  | .clearUnlink next => some ({ s with recovery := none }.put k (go next.resume))
  | .build => some (s.put k (go (.openLock (buildMetadata host c.config k s.now))))
  | .openLock metadata =>
    match s.lock with
    | none => some ({ s with lock := some (.blank k) }.put k (go (.writeLock metadata)))
    | some _ => some (s.put k (go .readExisting))
  | .writeLock metadata =>
    some ({ s with lock := writeOpened s.lock k metadata }.put k
      { c with main := .acquired, beatAt := metadata.lastHeartbeatAt.getD 0 })
  | .readExisting =>
    match loadMetadata s.lock with
    | none => some (s.put k (go (.failed (.conflict none
        "the active run lock exists but its metadata is unreadable, so recovery is blocked"))))
    | some existing => some (s.put k (go (.assessExisting existing)))
  | .assessExisting existing =>
    let staleness := s.assess host existing
    if staleness.recoverable then
      some (s.put k (go (.buildClaim existing staleness.kind)))
    else if c.config.wait = false then
      some (s.put k (go (.failed (.conflict existing none))))
    else if patient then
      some (s.put k (go (.clearRead .acquire)))
    else
      some (s.put k (go (.failed (.conflict existing
        "queued execution timed out waiting for the active mutation guard to finish"
        "active_execution_wait_timeout"))))
  | .buildClaim existing kind =>
    some (s.put k (go (.openClaim existing kind (buildMetadata host c.config k s.now))))
  | .openClaim existing kind claim =>
    match s.recovery with
    | none =>
      some ({ s with recovery := some (.blank k) }.put k (go (.writeClaim existing kind claim)))
    | some _ => some (s.put k (go (.clearRead (.raise existing))))
  | .writeClaim existing kind claim =>
    -- A lock that only *looks* expired gets one grace interval to prove otherwise.
    some ({ s with recovery := writeOpened s.recovery k claim }.put k (go
      (if kind = some StaleKind.heartbeatExpired then
        .grace existing (s.now + recoveryGraceS c.config existing)
      else
        .reread existing)))
  | .grace existing wakeAt =>
    if wakeAt ≤ s.now then some (s.put k (go (.reread existing))) else none
  | .reread existing =>
    match loadMetadata s.lock with
    | none => some (s.put k (go (.finallyRead (.error (.conflict none
        "the active run lock disappeared or became unreadable during recovery")))))
    | some current =>
      if current = existing then
        some (s.put k (go (.reassess current)))
      else
        some (s.put k (go (.finallyRead (.error (.conflict current
          "the active run lock changed while recovery was in progress")))))
  | .reassess current =>
    if (s.assess host current).recoverable then
      some (s.put k (go (.unlinkStale current)))
    else
      some (s.put k (go (.finallyRead (.error (.conflict current
        "the active run lock is no longer definitely stale")))))
  | .unlinkStale _ =>
    match s.lock with
    | none => some (s.put k (go (.finallyRead (.error .fileNotFound))))
    | some _ => some ({ s with lock := none }.put k (go .rebuild))
  | .rebuild => some (s.put k (go (.reopen (buildMetadata host c.config k s.now))))
  | .reopen metadata =>
    match s.lock with
    | none => some ({ s with lock := some (.blank k) }.put k (go (.rewrite metadata)))
    | some _ => some (s.put k (go (.finallyRead (.error (.conflict (loadMetadata s.lock)
        "another execution claimed the run while stale-lock recovery was finalizing")))))
  | .rewrite metadata =>
    some ({ s with lock := writeOpened s.lock k metadata }.put k
      { c with main := .finallyRead (.ok ()), beatAt := metadata.lastHeartbeatAt.getD 0 })
  | .finallyRead outcome =>
    if carries s.recovery k then
      some (s.put k (go (.finallyUnlink outcome)))
    else
      some (s.put k (go (match outcome with | .ok _ => .acquired | .error e => .failed e)))
  | .finallyUnlink outcome =>
    some ({ s with recovery := none }.put k
      (go (match outcome with | .ok _ => .acquired | .error e => .failed e)))
  | .acquired => some (s.put k (go .held))
  | .releaseRead again =>
    if carries s.lock k then
      some (s.put k (go (.releaseUnlink again)))
    else
      some (s.put k (go .released))
  | .releaseUnlink _ => some ({ s with lock := none }.put k (go .releaseClaimRead))
  | .releaseClaimRead =>
    if carries s.recovery k then
      some (s.put k (go .releaseClaimUnlink))
    else
      some (s.put k (go .released))
  | .releaseClaimUnlink => some ({ s with recovery := none }.put k (go .released))
  | .failed _ | .held | .released => none

/-- `RunMutationGuard.release` is called: by the caller, and again by `__del__`. -/
def release (c : Call) : Option State :=
  match c.main with
  | .held => some (s.put k { c with main := .releaseRead false, stop := true })
  | .released => some (s.put k { c with main := .releaseRead true, stop := true })
  | _ => none

/-! ### Steps of the heartbeat thread -/

/-- There is a guard, and with it a heartbeat thread. -/
def MainPc.guarded : MainPc → Bool
  | .acquired | .held | .releaseRead _ | .releaseUnlink _ | .releaseClaimRead
  | .releaseClaimUnlink | .released => true
  | _ => false

/-- The next step of `_HeartbeatWorker._loop` and of the `refresh_heartbeat` it calls. -/
def beat (s : State) (k : OwnerToken) (c : Call) : Option State :=
  match c.beat with
  | .waiting =>
    if c.main.guarded = true ∧ c.stop = false then
      some (s.put k { c with beat := .reading })
    else
      none
  | .reading =>
    match loadMetadata s.lock with
    | none => some (s.put k { c with beat := .waiting })
    | some current =>
      if current.ownedBy k then
        some (s.put k { c with beat := .stamping current })
      else
        some (s.put k { c with beat := .waiting })
  | .stamping current =>
    some (s.put k
      { c with beat := .replacing { current with lastHeartbeatAt := some (nowIso s.now) } })
  | .replacing current =>
    some ({ s with lock := some (.metadata current) }.put k
      { c with beat := .waiting, beatAt := current.lastHeartbeatAt.getD 0 })

/-- A refresh raised: it is counted and retried on the next tick. -/
def beatError (c : Call) : Option State :=
  if c.beat = .waiting then none else some (s.put k { c with beat := .waiting })

/-! ### Runs -/

/-- Which thread takes the next step; or a call is made, a process dies, time passes. -/
inductive Label
  | start (k : OwnerToken) (config : Config)
  | advance (k : OwnerToken) (patient : Bool)
  | release (k : OwnerToken)
  | beat (k : OwnerToken)
  | beatError (k : OwnerToken)
  | exit (pid : Nat)
  | tick (elapsed : Nat)

/-- A live process's call takes a step. -/
def State.run (f : Call → Option State) : Option State :=
  match s.calls k with
  | none => none
  | some c => if s.alive c.config.pid then f c else none

/-- The step a label names, if it can be taken. -/
def exec : Label → Option State
  | .start k config =>
    if s.calls k = none ∧ s.alive config.pid = true then
      some (s.put k { config := config })
    else
      none
  | .advance k patient => s.run k fun c => advance host s k c patient
  | .release k => s.run k fun c => release s k c
  | .beat k => s.run k fun c => beat s k c
  | .beatError k => s.run k fun c => beatError s k c
  | .exit pid => some { s with alive := Function.update s.alive pid false }
  | .tick elapsed => some { s with now := s.now + elapsed }

end Steps

def MainPc.holds : MainPc → Bool
  | .held | .releaseRead false | .releaseUnlink false => true
  | _ => false

/-- A live process holds the guard of this call. -/
def Holds (k : OwnerToken) (c : Call) : Prop :=
  s.calls k = some c ∧ s.alive c.config.pid = true ∧ c.main.holds = true

/-- The heartbeat of a call is older than it promised. -/
def Call.lapsed (c : Call) (now : Nat) : Prop :=
  c.config.heartbeatTtlS < now - c.beatAt

/-- No process that holds a guard lets its heartbeat lapse. -/
def HeartbeatsKept : Prop :=
  ∀ k c, Holds s k c → ¬ c.lapsed s.now

/-- A step among processes that keep their heartbeats. -/
def Step (host : String) (s : State) (l : Label) (s' : State) : Prop :=
  exec host s l = some s' ∧ HeartbeatsKept s'

/-- Two live processes never hold a guard each. -/
def MutualExclusion : Prop :=
  ∀ j k c d, Holds s j c → Holds s k d → c.config.pid = d.config.pid

end AlysisCode.RunLock
