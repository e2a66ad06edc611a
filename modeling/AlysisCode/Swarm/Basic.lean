/-
The resumable swarm coordinator: durable jobs, fenced workers.

Jobs of all owners and workspaces share one database; a coordinator sees the rows of its
own owner and workspace.  A job is queued, claimed by a worker under a generation and a
token, and finished, interrupted, cancelled or recovered; an interrupted or failed job is
queued again only by an explicit resumption.  Every mutating operation is one
`BEGIN IMMEDIATE` transaction.

JSON objects are abstract: `Codec` is what the coordinator does with them.
-/
import Mathlib.Data.List.Nodup
import AlysisCode.Ide.Common
import AlysisCode.Library.Runs
import AlysisCode.Library.Table

namespace AlysisCode.Swarm

open Table

inductive SwarmJobState where
  | queued
  | running
  | interrupted
  | succeeded
  | failed
  | cancelled
  deriving DecidableEq, Repr

/-- `TERMINAL_STATES`. -/
def SwarmJobState.terminal : SwarmJobState → Bool
  | .succeeded | .failed | .cancelled => true
  | .queued | .running | .interrupted => false

/-- The errors of the coordinator, by class, with their message. -/
inductive ResumableSwarmError where
  | validation (message : String)
  | storage (message : String)
  | jobNotFound (message : String)
  | jobState (message : String)
  | leaseLost (message : String)
  | permissionScopeChanged (message : String)
  | freshPermissionGrantRequired (message : String)
  | revisionConflict (message : String) (currentRevision : Nat)
  | idempotencyConflict (message : String)
  | capacity (message : String)
  deriving DecidableEq, Repr

structure ResumableSwarmConfig where
  maxOutstandingPerSession : Nat := 100
  outstanding_range : 0 < maxOutstandingPerSession ∧ maxOutstandingPerSession ≤ 10000 := by decide

/-- What the coordinator does with JSON objects and display texts, under its size limits:
`_serialize_json_object` for the three uses, `_decode_stored_object` for specifications,
and `_public_text`. -/
structure Codec (J : Type) where
  sha256 : String → String
  (serializeSpec serializeResult serializeScope : J → Except ResumableSwarmError (String × J))
  decodeSpec : String → Except ResumableSwarmError J
  publicText : String → Except ResumableSwarmError String

def Codec.permissionFingerprint {J : Type} (codec : Codec J) (scope : J) :
    Except ResumableSwarmError String := do
  let (serialized, _) ← codec.serializeScope scope
  .ok (codec.sha256 serialized)

structure Coordinator where
  ownerKey : String
  workspaceKey : String
  deriving DecidableEq

/-- What identifies a job. -/
structure JobKey where
  (ownerKey workspaceKey sessionId jobId : String)
  deriving DecidableEq

def Coordinator.key (me : Coordinator) (sessionId jobId : String) : JobKey :=
  ⟨me.ownerKey, me.workspaceKey, sessionId, jobId⟩

/-! ### The tables -/

/-- Usage counters.  The caller passes integers; stored ones are never negative. -/
structure SwarmUsage where
  (calls inputTokens outputTokens cachedInputTokens totalTokens : Int := 0)
  deriving DecidableEq

/-- A row of `ide_swarm_jobs`. -/
structure Row (T : Type) where
  key : JobKey
  (idempotencyHash executionSpecJson executionSpecSha256 permissionScopeSha256 : String)
  state : SwarmJobState
  (revision generation attempts resumeCount : Nat)
  createdAt : T
  updatedAt : T
  startedAt : Option T := none
  terminalAt : Option T := none
  leaseTokenSha256 : Option String := none
  leaseWorkerSha256 : Option String := none
  leaseExpiresAt : Option T := none
  (resultJson errorCode errorSummary : Option String := none)
  usage : SwarmUsage := {}
  deriving DecidableEq

/-- A row of `ide_swarm_usage_events`. -/
structure UsageEvent (T : Type) where
  key : JobKey
  eventHash : String
  usage : SwarmUsage
  recordedAt : T
  deriving DecidableEq

variable {T J : Type}

/-- The columns fixed when a job is started. -/
def Row.identity (r : Row T) : JobKey × String × String × String × String × T :=
  (r.key, r.idempotencyHash, r.executionSpecJson, r.executionSpecSha256,
    r.permissionScopeSha256, r.createdAt)

/-- The table's first `CHECK`: a row has a lease exactly while it is running. -/
def LeaseCheck (r : Row T) : Prop :=
  (r.state = .running ∧ r.leaseTokenSha256.isSome ∧ r.leaseWorkerSha256.isSome ∧
      r.leaseExpiresAt.isSome) ∨
    (r.state ≠ .running ∧ r.leaseTokenSha256.isNone ∧ r.leaseWorkerSha256.isNone ∧
      r.leaseExpiresAt.isNone)

/-- The second: which states have a result and an end. -/
def ResultCheck (r : Row T) : Prop :=
  (r.state = .succeeded ∧ r.resultJson.isSome ∧ r.terminalAt.isSome) ∨
    ((r.state = .failed ∨ r.state = .cancelled) ∧ r.resultJson.isNone ∧ r.terminalAt.isSome) ∨
    ((r.state = .queued ∨ r.state = .running ∨ r.state = .interrupted) ∧ r.resultJson.isNone ∧
      r.terminalAt.isNone)

instance (r : Row T) : Decidable (LeaseCheck r) := inferInstanceAs (Decidable (_ ∨ _))
instance (r : Row T) : Decidable (ResultCheck r) := inferInstanceAs (Decidable (_ ∨ _ ∨ _))

/-- The value checks of the usage columns. -/
def SwarmUsage.nonneg (u : SwarmUsage) : Prop :=
  0 ≤ u.calls ∧ 0 ≤ u.inputTokens ∧ 0 ≤ u.outputTokens ∧ 0 ≤ u.cachedInputTokens ∧ 0 ≤ u.totalTokens

instance (u : SwarmUsage) : Decidable u.nonneg := inferInstanceAs (Decidable (_ ∧ _))

/-- What the schema enforces. -/
structure Constraints (jobs : List (Row T)) (events : List (UsageEvent T)) : Prop where
  key_unique : (jobs.map (·.key)).Nodup
  request_unique : (jobs.map fun r =>
    (r.key.ownerKey, r.key.workspaceKey, r.key.sessionId, r.idempotencyHash)).Nodup
  lease_check : ∀ r ∈ jobs, LeaseCheck r
  result_check : ∀ r ∈ jobs, ResultCheck r
  revision_pos : ∀ r ∈ jobs, 1 ≤ r.revision
  usage_check : ∀ r ∈ jobs, r.usage.nonneg
  event_unique : (events.map fun e => (e.key, e.eventHash)).Nodup
  event_check : ∀ e ∈ events, e.usage.nonneg
  /-- `FOREIGN KEY … REFERENCES ide_swarm_jobs`. -/
  event_job : ∀ e ∈ events, e.key ∈ jobs.map (·.key)

instance (jobs : List (Row T)) (events : List (UsageEvent T)) :
    Decidable (Constraints jobs events) :=
  decidable_of_iff ((jobs.map (·.key)).Nodup ∧ (jobs.map fun r =>
        (r.key.ownerKey, r.key.workspaceKey, r.key.sessionId, r.idempotencyHash)).Nodup ∧
      (∀ r ∈ jobs, LeaseCheck r) ∧ (∀ r ∈ jobs, ResultCheck r) ∧ (∀ r ∈ jobs, 1 ≤ r.revision) ∧
      (∀ r ∈ jobs, r.usage.nonneg) ∧ (events.map fun e => (e.key, e.eventHash)).Nodup ∧
      (∀ e ∈ events, e.usage.nonneg) ∧ ∀ e ∈ events, e.key ∈ jobs.map (·.key))
    ⟨fun ⟨a, b, c, d, e, f, g, h, i⟩ => ⟨a, b, c, d, e, f, g, h, i⟩,
      fun ⟨a, b, c, d, e, f, g, h, i⟩ => ⟨a, b, c, d, e, f, g, h, i⟩⟩

/-- The database, with the constraints it satisfies. -/
structure Store (T : Type) where
  jobs : List (Row T)
  events : List (UsageEvent T)
  constraints : Constraints jobs events

/-- Freshly created tables. -/
def Store.empty : Store T :=
  ⟨[], [], by constructor <;> simp⟩

/-- Leave these rows; `none` is `sqlite3.IntegrityError`. -/
def Store.write (jobs : List (Row T)) (events : List (UsageEvent T)) : Option (Store T) :=
  if h : Constraints jobs events then some ⟨jobs, events, h⟩ else none

/-- A statement outside `start_job`: `_transaction` turns an `IntegrityError` into this. -/
def Store.execute (jobs : List (Row T)) (events : List (UsageEvent T)) :
    Except ResumableSwarmError (Store T) :=
  match Store.write jobs events with
  | some q => .ok q
  | none => .error (.storage "Resumable swarm storage operation failed.")

/-- `UPDATE ide_swarm_jobs SET … WHERE` the key is this one. -/
def Store.updateJob (q : Store T) (key : JobKey) (f : Row T → Row T) :
    Except ResumableSwarmError (Store T) :=
  Store.execute (updateWhere (·.key == key) f q.jobs) q.events

def Store.jobRow (q : Store T) (key : JobKey) : Except ResumableSwarmError (Row T) :=
  match q.jobs.find? fun r => r.key == key with
  | none => .error (.jobNotFound "Swarm job was not found.")
  | some row => .ok row

/-! ### What the statements write -/

/-- `claim_job`'s `SET` list. -/
def Row.claim (tokenSha256 workerSha256 : String) (expiresAt now : T) (r : Row T) : Row T :=
  { r with
    state := .running, revision := r.revision + 1, generation := r.generation + 1,
    attempts := r.attempts + 1, updatedAt := now, startedAt := r.startedAt.or (some now),
    leaseTokenSha256 := some tokenSha256, leaseWorkerSha256 := some workerSha256,
    leaseExpiresAt := some expiresAt, terminalAt := none, errorCode := none,
    errorSummary := none, resultJson := none }

/-- `renew`'s. -/
def Row.renew (expiresAt now : T) (r : Row T) : Row T :=
  { r with leaseExpiresAt := some expiresAt, updatedAt := now, revision := r.revision + 1 }

/-- `record_usage`'s. -/
def Row.use (usage : SwarmUsage) (now : T) (r : Row T) : Row T :=
  { r with usage, updatedAt := now, revision := r.revision + 1 }

/-- `_finish_locked`'s. -/
def Row.finish (state : SwarmJobState) (resultJson errorCode errorSummary : Option String)
    (now : T) (r : Row T) : Row T :=
  { r with
    state, revision := r.revision + 1, generation := r.generation + 1, updatedAt := now,
    terminalAt := if state.terminal then some now else none, leaseTokenSha256 := none,
    leaseWorkerSha256 := none, leaseExpiresAt := none, resultJson, errorCode, errorSummary }

/-- `cancel_job`'s. -/
def Row.cancel (now : T) (r : Row T) : Row T :=
  { r with
    state := .cancelled, revision := r.revision + 1, generation := r.generation + 1,
    updatedAt := now, terminalAt := some now, leaseTokenSha256 := none,
    leaseWorkerSha256 := none, leaseExpiresAt := none, resultJson := none,
    errorCode := some "cancelled", errorSummary := some "The swarm job was cancelled." }

/-- What `recover_stale_jobs` and `resume_job` write to an expired row. -/
def Row.expire (now : T) (r : Row T) : Row T :=
  { r with
    state := .interrupted, revision := r.revision + 1, generation := r.generation + 1,
    updatedAt := now, leaseTokenSha256 := none, leaseWorkerSha256 := none,
    leaseExpiresAt := none, resultJson := none, errorCode := some "worker_lease_expired",
    errorSummary := some "The prior swarm worker lease expired." }

/-- `resume_job`'s. -/
def Row.requeue (now : T) (r : Row T) : Row T :=
  { r with
    state := .queued, revision := r.revision + 1, generation := r.generation + 1,
    resumeCount := r.resumeCount + 1, updatedAt := now, terminalAt := none,
    leaseTokenSha256 := none, leaseWorkerSha256 := none, leaseExpiresAt := none,
    resultJson := none, errorCode := none, errorSummary := none }

/-! ### Validation -/

/-- `_identifier`, which strips its argument and refuses a `..` segment. -/
def identifier (value kind : String) (maximum : Nat) : Except ResumableSwarmError String :=
  let normalized := strip value
  if normalized.isEmpty || maximum < normalized.length || !matchesIdentifier normalized ||
      (normalized.toList.splitOn '/').contains ['.', '.'] then
    .error (.validation s!"Swarm {kind} identifier is invalid.")
  else .ok normalized

/-- `_job_scope`, as the job's key. -/
def jobScope (me : Coordinator) (sessionId jobId : String) : Except ResumableSwarmError JobKey := do
  let sessionId ← identifier sessionId "session" 256
  let jobId ← identifier jobId "job" 128
  .ok (me.key sessionId jobId)

/-- `_error_code`. -/
def errorCodeOf (value : String) : Except ResumableSwarmError String :=
  let normalized := strip value
  if 80 < normalized.length || !matchesErrorCode normalized then
    .error (.validation "Swarm error code is invalid.")
  else .ok normalized

/-- `_lease_token`. -/
def leaseTokenOf (value : String) : Except ResumableSwarmError String :=
  if value.length < 32 || 512 < value.length then
    .error (.validation "Generated swarm lease token is invalid.")
  else .ok value

def maxUsageValue : Int := 9000000000000000000

def validatedUsage (u : SwarmUsage) : Except ResumableSwarmError SwarmUsage :=
  if [u.calls, u.inputTokens, u.outputTokens, u.cachedInputTokens, u.totalTokens].any
      fun v => v < 0 || maxUsageValue < v then
    .error (.validation "Swarm usage values must be non-negative integers.")
  else if u.totalTokens < u.inputTokens + u.outputTokens then
    .error (.validation "Swarm total token usage is inconsistent.")
  else .ok u

def safeUsageSum (left right : Int) : Except ResumableSwarmError Int :=
  if maxUsageValue < left + right then
    .error (.validation "Swarm usage total exceeds the safe range.")
  else .ok (left + right)

/-- The five sums of `record_usage`, in order. -/
def combineUsage (current delta : SwarmUsage) : Except ResumableSwarmError SwarmUsage := do
  let calls ← safeUsageSum current.calls delta.calls
  let inputTokens ← safeUsageSum current.inputTokens delta.inputTokens
  let outputTokens ← safeUsageSum current.outputTokens delta.outputTokens
  let cachedInputTokens ← safeUsageSum current.cachedInputTokens delta.cachedInputTokens
  let totalTokens ← safeUsageSum current.totalTokens delta.totalTokens
  .ok { calls, inputTokens, outputTokens, cachedInputTokens, totalTokens }

def optionalRevision (value : Option Int) : Except ResumableSwarmError (Option Int) :=
  match value with
  | none => .ok none
  | some v => if v < 1 then .error (.validation "Swarm revision is invalid.") else .ok (some v)

def checkRevision (row : Row T) (expected : Option Int) : Except ResumableSwarmError Unit :=
  match expected with
  | none => .ok ()
  | some v =>
    if (row.revision : Int) ≠ v then
      .error (.revisionConflict "Swarm job changed; reload it before updating." row.revision)
    else .ok ()

def requirePermission (row : Row T) (currentHash : String) : Except ResumableSwarmError Unit :=
  if row.permissionScopeSha256 ≠ currentHash then
    .error (.permissionScopeChanged "Swarm permission scope changed; start a new reviewed job.")
  else .ok ()

/-- A resumption's grant: absent or not an object of the four fields with values of their
types, or these four values. -/
inductive Grant where
  | malformed
  | fields (schemaVersion : Int) (sessionId jobId : String) (revision : Int)
  deriving DecidableEq

def requireFreshPermissionGrant (grant : Grant) (row : Row T) (key : JobKey) :
    Except ResumableSwarmError Unit :=
  if grant ≠ .fields 1 key.sessionId key.jobId row.revision then
    .error (.freshPermissionGrantRequired
      "A fresh, job-scoped permission grant is required to resume this swarm job.")
  else .ok ()

/-! ### What the operations return -/

structure SwarmJobStatus (T : Type) where
  jobId : String
  state : SwarmJobState
  (revision attempts resumeCount : Nat)
  createdAt : T
  updatedAt : T
  (startedAt terminalAt leaseExpiresAt : Option T)
  resultAvailable : Bool
  errorCode : Option String
  errorSummary : Option String
  usage : SwarmUsage
  deriving DecidableEq

structure SwarmJobResult (T J : Type) where
  status : SwarmJobStatus T
  result : J

structure SwarmJobCreation (T : Type) where
  status : SwarmJobStatus T
  created : Bool

structure SwarmWorkerLease (T J : Type) where
  jobId : String
  sessionId : String
  generation : Nat
  expiresAt : T
  executionSpec : J
  leaseToken : String

section Operations

variable [Clock T]

/-- `_now`; `none` is a reading that is not a finite number. -/
def readClock (clock : Option T) : Except ResumableSwarmError T :=
  match clock with
  | none => .error (.validation "Resumable swarm clock is invalid.")
  | some now =>
    if now < ((0 : Nat) : T) then .error (.validation "Resumable swarm clock is invalid.")
    else .ok now

/-- `_duration`, between `MIN_LEASE_SECONDS` and `MAX_LEASE_SECONDS`. -/
def durationOf (value : T) : Except ResumableSwarmError T :=
  if ((1 : Nat) : T) ≤ value ∧ value ≤ ((86400 : Nat) : T) then .ok value
  else .error (.validation "Swarm lease duration is invalid.")

variable (codec : Codec J) (config : ResumableSwarmConfig)

/-- `_status_from_row`: every stored value is checked again on its way out. -/
def status (row : Row T) : Except ResumableSwarmError (SwarmJobStatus T) :=
  let invalid := ResumableSwarmError.storage "Stored swarm job is invalid."
  let bad (v : Int) : Bool := v < 0 || maxUsageValue < v
  let late (t : Option T) : Bool := t.any (· < ((0 : Nat) : T))
  let reread {α : Type} (x : Except ResumableSwarmError α) : Except ResumableSwarmError α :=
    x.mapError fun _ => invalid
  do
    let jobId ← reread (identifier row.key.jobId "stored job" 128)
    if row.revision < 1 ∨ [(row.revision : Int), row.attempts, row.resumeCount].any bad ∨
        late row.createdAt ∨ late row.updatedAt ∨ late row.startedAt ∨ late row.terminalAt ∨
        late row.leaseExpiresAt then
      .error invalid
    else
      let errorCode ← reread (row.errorCode.mapM errorCodeOf)
      let errorSummary ← reread (row.errorSummary.mapM codec.publicText)
      if [row.usage.calls, row.usage.inputTokens, row.usage.outputTokens,
          row.usage.cachedInputTokens, row.usage.totalTokens].any bad then
        .error invalid
      else if row.state = .running ∧ row.leaseExpiresAt = none then .error invalid
      else if row.state = .succeeded ∧ row.resultJson = none then .error invalid
      else
        .ok { jobId, state := row.state, revision := row.revision, attempts := row.attempts,
              resumeCount := row.resumeCount, createdAt := row.createdAt,
              updatedAt := row.updatedAt, startedAt := row.startedAt,
              terminalAt := row.terminalAt, leaseExpiresAt := row.leaseExpiresAt,
              resultAvailable := row.resultJson.isSome, errorCode, errorSummary,
              usage := row.usage }

/-- `lease_expires_at <= now`, false for `NULL`. -/
def Row.expiredBy (now : T) (r : Row T) : Bool := r.leaseExpiresAt.any (· ≤ now)

variable (me : Coordinator) (lease : SwarmWorkerLease T J)

def requireLiveLease (now : T) (q : Store T) : Except ResumableSwarmError (Row T) := do
  let key ← jobScope me lease.sessionId lease.jobId
  let row ← q.jobRow key
  if row.state ≠ .running ∨ row.generation ≠ lease.generation ∨ row.leaseExpiresAt = none ∨
      row.expiredBy now = true ∨ row.leaseTokenSha256 ≠ some (codec.sha256 lease.leaseToken) then
    .error (.leaseLost "Swarm worker lease is no longer valid.")
  else .ok row

/-- The row `start_job` inserts. -/
def newRow (key : JobKey) (idempotencyHash specJson specSha256 permissionSha256 : String)
    (now : T) : Row T :=
  { key, idempotencyHash, executionSpecJson := specJson, executionSpecSha256 := specSha256,
    permissionScopeSha256 := permissionSha256, state := .queued, revision := 1, generation := 0,
    attempts := 0, resumeCount := 0, createdAt := now, updatedAt := now }

/-- `start_job`; `freshId` is what the id factory returns. -/
def startJob (sessionId idempotencyKey : String) (spec scope : J) (freshId : String)
    (clock : Option T) (q : Store T) :
    Except ResumableSwarmError (SwarmJobCreation T × Store T) := do
  let sessionId ← identifier sessionId "session" 256
  let idempotencyKey ← identifier idempotencyKey "idempotency" 256
  let (specJson, _) ← codec.serializeSpec spec
  let specHash := codec.sha256 specJson
  let permissionHash ← codec.permissionFingerprint scope
  let idempotencyHash := codec.sha256 idempotencyKey
  let now ← readClock clock
  match q.jobs.find? fun r => r.key.ownerKey == me.ownerKey &&
      r.key.workspaceKey == me.workspaceKey && r.key.sessionId == sessionId &&
      r.idempotencyHash == idempotencyHash with
  | some existing =>
    if existing.executionSpecSha256 ≠ specHash ∨ existing.permissionScopeSha256 ≠ permissionHash then
      .error (.idempotencyConflict "Idempotency key was already used for a different swarm job.")
    else
      let status ← status codec existing
      .ok ({ status, created := false }, q)
  | none =>
    let outstanding := q.jobs.countP fun r => r.key.ownerKey == me.ownerKey &&
      r.key.workspaceKey == me.workspaceKey && r.key.sessionId == sessionId && !r.state.terminal
    if config.maxOutstandingPerSession ≤ outstanding then
      .error (.capacity "Session has too many outstanding swarm jobs.")
    else
      let jobId ← identifier freshId "generated job" 128
      let row := newRow (me.key sessionId jobId) idempotencyHash specJson specHash permissionHash
        now
      match Store.write (q.jobs ++ [row]) q.events with
      | none => .error (.storage "Could not allocate a unique swarm job.")
      | some q' =>
        let status ← status codec row
        .ok ({ status, created := true }, q')

/-- `claim_job`; `freshToken` is what the lease factory returns. -/
def claimJob (sessionId jobId workerId : String) (scope : J) (leaseSeconds : T)
    (freshToken : String) (clock : Option T) (q : Store T) :
    Except ResumableSwarmError (SwarmWorkerLease T J × Store T) := do
  let key ← jobScope me sessionId jobId
  let workerId ← identifier workerId "worker" 256
  let duration ← durationOf leaseSeconds
  let permissionHash ← codec.permissionFingerprint scope
  let now ← readClock clock
  let expiresAt := now + duration
  let token ← leaseTokenOf freshToken
  let row ← q.jobRow key
  requirePermission row permissionHash
  if row.state ≠ .queued then
    .error (.jobState "Swarm job is not queued for execution.")
  else
    let q' ← q.updateJob key (Row.claim (codec.sha256 token) (codec.sha256 workerId) expiresAt now)
    let executionSpec ← codec.decodeSpec row.executionSpecJson
    .ok ({ jobId := key.jobId, sessionId := key.sessionId, generation := row.generation + 1,
           expiresAt, executionSpec, leaseToken := token }, q')

def SwarmWorkerLease.named : JobKey :=
  me.key lease.sessionId lease.jobId

/-- `renew`; the statement names the job as the lease spells it. -/
def renew (me : Coordinator) (lease : SwarmWorkerLease T J) (leaseSeconds : T) (clock : Option T)
    (q : Store T) : Except ResumableSwarmError (SwarmWorkerLease T J × Store T) := do
  let duration ← durationOf leaseSeconds
  let now ← readClock clock
  let expiresAt := now + duration
  let row ← requireLiveLease codec me lease now q
  let q' ← q.updateJob (lease.named me) (Row.renew expiresAt now)
  let executionSpec ← codec.decodeSpec row.executionSpecJson
  .ok ({ lease with expiresAt, executionSpec }, q')

/-- `record_usage`; the statements name the job as the lease spells it. -/
def recordUsage (usage : SwarmUsage) (idempotencyKey : String) (clock : Option T) (q : Store T) :
    Except ResumableSwarmError (SwarmJobStatus T × Store T) := do
  let delta ← validatedUsage usage
  let event ← identifier idempotencyKey "usage event" 256
  let eventHash := codec.sha256 event
  let now ← readClock clock
  let row ← requireLiveLease codec me lease now q
  match q.events.find? fun e => e.key == lease.named me && e.eventHash == eventHash with
  | some prior =>
    if prior.usage ≠ delta then
      .error (.idempotencyConflict "Usage idempotency key was already used for a different event.")
    else
      let status ← status codec row
      .ok (status, q)
  | none =>
    let combined ← combineUsage row.usage delta
    let q₁ ← Store.execute q.jobs
      (q.events ++ [{ key := lease.named me, eventHash, usage := delta, recordedAt := now }])
    let q₂ ← q₁.updateJob (lease.named me) (Row.use combined now)
    let row ← q₂.jobRow (lease.named me)
    let status ← status codec row
    .ok (status, q₂)

/-- A lease checked, `_finish_locked`, and the job's new status. -/
def finish (me : Coordinator) (lease : SwarmWorkerLease T J) (state : SwarmJobState)
    (resultJson errorCode errorSummary : Option String) (clock : Option T) (q : Store T) :
    Except ResumableSwarmError (SwarmJobStatus T × Store T) := do
  let now ← readClock clock
  let _ ← requireLiveLease codec me lease now q
  let q' ← q.updateJob (lease.named me) (Row.finish state resultJson errorCode errorSummary now)
  let row ← q'.jobRow (lease.named me)
  let status ← status codec row
  .ok (status, q')

def complete (result : J) (clock : Option T) (q : Store T) :
    Except ResumableSwarmError (SwarmJobResult T J × Store T) := do
  let (resultJson, normalized) ← codec.serializeResult result
  let (status, q') ← finish codec me lease .succeeded (some resultJson) none none clock q
  .ok ({ status, result := normalized }, q')

def interrupt (errorCode errorSummary : String) (clock : Option T) (q : Store T) :
    Except ResumableSwarmError (SwarmJobStatus T × Store T) := do
  let code ← errorCodeOf errorCode
  let summary ← codec.publicText errorSummary
  finish codec me lease .interrupted none (some code) (some summary) clock q

def fail (errorCode errorSummary : String) (clock : Option T) (q : Store T) :
    Except ResumableSwarmError (SwarmJobStatus T × Store T) := do
  let code ← errorCodeOf errorCode
  let summary ← codec.publicText errorSummary
  finish codec me lease .failed none (some code) (some summary) clock q

def cancelJob (sessionId jobId : String) (expectedRevision : Option Int) (clock : Option T)
    (q : Store T) :
    Except ResumableSwarmError (SwarmJobStatus T × Store T) := do
  let key ← jobScope me sessionId jobId
  let revision ← optionalRevision expectedRevision
  let now ← readClock clock
  let row ← q.jobRow key
  checkRevision row revision
  if row.state = .cancelled then
    let status ← status codec row
    .ok (status, q)
  else if row.state = .succeeded ∨ row.state = .failed then
    .error (.jobState "Completed swarm job cannot be cancelled.")
  else
    let q' ← q.updateJob key (Row.cancel now)
    let row ← q'.jobRow key
    let status ← status codec row
    .ok (status, q')

/-- The rows `recover_stale_jobs` selects. -/
def Row.stale (session : Option String) (now : T) (r : Row T) : Bool :=
  r.key.ownerKey == me.ownerKey && r.key.workspaceKey == me.workspaceKey &&
    r.state == .running && session.all (r.key.sessionId == ·) && r.expiredBy now

/-- `recover_stale_jobs`.  The source updates the selected rows one at a time, each by its
unique key. -/
def recoverStaleJobs (sessionId : Option String) (clock : Option T) (q : Store T) :
    Except ResumableSwarmError (List (SwarmJobStatus T) × Store T) := do
  let session ← sessionId.mapM (identifier · "session" 256)
  let now ← readClock clock
  let rows := q.jobs.filter (Row.stale me session now)
  let q' ← Store.execute (updateWhere (Row.stale me session now) (Row.expire now) q.jobs) q.events
  let statuses ← rows.mapM fun r => do
    let row ← q'.jobRow r.key
    status codec row
  .ok (statuses, q')

/-- The first statement of `resume_job`: a running row whose lease ran out is interrupted. -/
def Store.interruptExpired (q : Store T) (key : JobKey) (row : Row T) (now : T) :
    Except ResumableSwarmError (Store T) :=
  if row.state = .running ∧ row.expiredBy now = true then q.updateJob key (Row.expire now)
  else .ok q

def resumeJob (sessionId jobId : String) (scope : J) (grant : Grant) (expectedRevision : Option Int)
    (clock : Option T) (q : Store T) :
    Except ResumableSwarmError (SwarmJobStatus T × Store T) := do
  let key ← jobScope me sessionId jobId
  let revision ← optionalRevision expectedRevision
  let permissionHash ← codec.permissionFingerprint scope
  let now ← readClock clock
  let row ← q.jobRow key
  checkRevision row revision
  requireFreshPermissionGrant grant row key
  let q ← q.interruptExpired key row now
  let row ← q.jobRow key
  requirePermission row permissionHash
  if row.state ≠ .interrupted ∧ row.state ≠ .failed then
    .error (.jobState "Swarm job is not in a resumable state.")
  else
    let q' ← q.updateJob key (Row.requeue now)
    let row ← q'.jobRow key
    let status ← status codec row
    .ok (status, q')

def shouldCancel (clock : Option T) (q : Store T) : Except ResumableSwarmError Bool := do
  let now ← readClock clock
  match requireLiveLease codec me lease now q with
  | .ok _ => .ok false
  | .error (.jobNotFound _) | .error (.leaseLost _) => .ok true
  | .error e => .error e

def getStatus (sessionId jobId : String) (q : Store T) :
    Except ResumableSwarmError (SwarmJobStatus T) := do
  let key ← jobScope me sessionId jobId
  let row ← q.jobRow key
  status codec row

end Operations

end AlysisCode.Swarm
