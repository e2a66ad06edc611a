/-
The Forge request ledger: durable acceptance of plan requests.

A request is accepted into one row, keyed by the digests of its workspace and its
idempotency key, and the row then goes from `queued` to `running` to a terminal state
under leases that carry a generation and a token.  As in the prompt queue every public
operation is one `BEGIN IMMEDIATE` transaction, so it is a function from the table to
an answer and the next table, or to the error it raises.

No statement but the insertion writes a column that a constraint reads, so only the
insertion can break one; the others are total functions on `Ledger`, which carries the
constraints.
-/
import Mathlib.Data.List.Sort
import AlysisCode.Ide.Common
import AlysisCode.Library.Runs
import AlysisCode.Library.Table

namespace AlysisCode.ForgeLedger

open Table

inductive ForgeRequestState where
  | queued
  | running
  | completed
  | failed
  | cancelled
  | indeterminate
  deriving DecidableEq, Repr

/-- `TERMINAL_STATES`. -/
def ForgeRequestState.terminal : ForgeRequestState → Bool
  | .queued | .running => false
  | .completed | .failed | .cancelled | .indeterminate => true

inductive ForgeRequestLedgerError where
  | validation (message : String)
  | idempotencyConflict (message : String)
  | notFound (message : String)
  | leaseLost (message : String)
  | storage (message : String)
  deriving DecidableEq, Repr

/-- The configuration, within the ranges `__post_init__` checks. -/
structure ForgeRequestLedgerConfig (T : Type) [Clock T] where
  leaseSeconds : T
  maxRecords : Nat
  terminalRetentionSeconds : T
  lease_range : ((1 : Nat) : T) ≤ leaseSeconds ∧ leaseSeconds ≤ ((900 : Nat) : T)
  records_range : 100 ≤ maxRecords ∧ maxRecords ≤ 1000000
  retention_range : ((1 : Nat) : T) ≤ terminalRetentionSeconds ∧
    terminalRetentionSeconds ≤ ((315360000 : Nat) : T)

/-- What the ledger computes outside the table: digests, `os.path.normcase`, and the
canonical JSON of a payload (`none` where `json.dumps` raises). -/
structure Host (P : Type) where
  sha256 : String → String
  normcase : String → String
  dumps : P → Option String

/-! ### The table -/

/-- A row of `ide_forge_plan_requests`. -/
structure Row (T : Type) where
  (jobId workspaceSha256 workspaceRoot sessionId idempotencySha256 payloadSha256 : String)
  state : ForgeRequestState
  generation : Nat := 1
  attempts : Nat := 0
  leaseTokenSha256 : Option String
  leaseExpiresAt : Option T
  planId : Option String := none
  errorCode : Option String := none
  createdAt : T
  updatedAt : T
  startedAt : Option T := none
  terminalAt : Option T := none
  deriving DecidableEq

variable {T P : Type}

/-- The columns fixed when a request is accepted: its job, the digests of its workspace,
idempotency key and payload, and its creation time. -/
def Row.identity (r : Row T) : String × String × String × String × T :=
  (r.jobId, r.workspaceSha256, r.idempotencySha256, r.payloadSha256, r.createdAt)

/-- The table, with its primary key and its `UNIQUE` constraint. -/
structure Ledger (T : Type) where
  rows : List (Row T)
  jobId_unique : (rows.map (·.jobId)).Nodup
  request_unique : (rows.map fun r => (r.workspaceSha256, r.idempotencySha256)).Nodup

/-- A freshly created table. -/
def Ledger.empty : Ledger T := ⟨[], by simp, by simp⟩

variable (q : Ledger T)

/-- `UPDATE … WHERE p`, for a statement that writes none of the identity columns. -/
def Ledger.update (p : Row T → Bool) (f : Row T → Row T)
    (hf : ∀ r, (f r).identity = r.identity := by intro; rfl) : Ledger T where
  rows := updateWhere p f q.rows
  jobId_unique := by
    rw [map_updateWhere (fun r => congrArg (·.1) (hf r))]
    exact q.jobId_unique
  request_unique := by
    rw [map_updateWhere (g := fun r : Row T => (r.workspaceSha256, r.idempotencySha256))
      (fun r => congrArg (fun i => (i.2.1, i.2.2.1)) (hf r))]
    exact q.request_unique

/-- `DELETE … WHERE p`. -/
def Ledger.delete (p : Row T → Bool) : Ledger T where
  rows := q.rows.filter fun r => !p r
  jobId_unique := q.jobId_unique.sublist (List.filter_sublist.map _)
  request_unique := q.request_unique.sublist (List.filter_sublist.map _)

/-- `INSERT`; `none` is `sqlite3.IntegrityError`. -/
def Ledger.insert (row : Row T) : Option (Ledger T) :=
  if h : ((q.rows ++ [row]).map (·.jobId)).Nodup ∧
      ((q.rows ++ [row]).map fun r => (r.workspaceSha256, r.idempotencySha256)).Nodup then
    some ⟨q.rows ++ [row], h.1, h.2⟩
  else none

def Ledger.rowByJob (jobId : String) : Except ForgeRequestLedgerError (Row T) :=
  match q.rows.find? fun r => r.jobId == jobId with
  | none => .error (.notFound "Durable Forge plan request was not found.")
  | some row => .ok row

/-! ### What the operations return -/

structure ForgeRequestRecord (T : Type) where
  (jobId sessionId workspaceRoot : String)
  state : ForgeRequestState
  createdAt : T
  updatedAt : T
  startedAt : Option T
  terminalAt : Option T
  planId : Option String
  errorCode : Option String
  attempts : Nat
  deriving DecidableEq

/-- A `ForgeDispatchLease` or a `ForgeWorkerLease`; the two classes have the same fields. -/
structure ForgeLease (T : Type) where
  jobId : String
  generation : Nat
  expiresAt : T
  token : String
  deriving DecidableEq

structure ForgeRequestAcceptance (T : Type) where
  record : ForgeRequestRecord T
  created : Bool
  dispatchLease : Option (ForgeLease T) := none
  deriving DecidableEq

def Row.record (r : Row T) : ForgeRequestRecord T :=
  { jobId := r.jobId, sessionId := r.sessionId, workspaceRoot := r.workspaceRoot,
    state := r.state, createdAt := r.createdAt, updatedAt := r.updatedAt,
    startedAt := r.startedAt, terminalAt := r.terminalAt, planId := r.planId,
    errorCode := r.errorCode, attempts := r.attempts }

/-! ### What the statements write -/

/-- `accept`'s `SET` list for a prior request: a new session touches the row. -/
def Row.resession (session : String) (now : T) (r : Row T) : Row T :=
  { r with sessionId := session, updatedAt := if r.sessionId = session then r.updatedAt else now }

/-- `_replace_dispatch_lease`'s. -/
def Row.redispatch (generation : Nat) (tokenSha256 : String) (expiresAt now : T) (r : Row T) :
    Row T :=
  { r with
    generation, leaseTokenSha256 := some tokenSha256, leaseExpiresAt := some expiresAt,
    updatedAt := now }

/-- `begin`'s. -/
def Row.start (expiresAt now : T) (r : Row T) : Row T :=
  { r with
    state := .running, attempts := r.attempts + 1, startedAt := r.startedAt.or (some now),
    updatedAt := now, leaseExpiresAt := some expiresAt }

/-- `renew`'s. -/
def Row.renew (expiresAt now : T) (r : Row T) : Row T :=
  { r with leaseExpiresAt := some expiresAt, updatedAt := now }

/-- `reject`'s. -/
def Row.reject (errorCode : String) (now : T) (r : Row T) : Row T :=
  { r with
    state := .failed, errorCode := some errorCode, terminalAt := some now, updatedAt := now,
    leaseTokenSha256 := none, leaseExpiresAt := none }

/-- `_finish`'s. -/
def Row.finish (state : ForgeRequestState) (planId errorCode : Option String) (now : T)
    (r : Row T) : Row T :=
  { r with
    state, planId, errorCode, terminalAt := some now, updatedAt := now,
    leaseTokenSha256 := none, leaseExpiresAt := none }

/-- `_reconcile_expired_running`'s. -/
def Row.expire (now : T) (r : Row T) : Row T :=
  { r with
    state := .indeterminate, errorCode := some "worker_lease_expired", terminalAt := some now,
    updatedAt := now, leaseTokenSha256 := none, leaseExpiresAt := none }

/-- `attach`'s. -/
def Row.attach (session : String) (now : T) (r : Row T) : Row T :=
  { r with sessionId := session, updatedAt := now }

/-! ### Validation -/

/-- `_identifier`, which strips its argument. -/
def identifier (value label : String) (maximum : Nat) : Except ForgeRequestLedgerError String :=
  let clean := strip value
  if clean.isEmpty || maximum < clean.length || !matchesIdentifier clean then
    .error (.validation s!"Forge request {label} identifier is invalid.")
  else .ok clean

/-- `_error_code`. -/
def errorCodeOf (value : String) : Except ForgeRequestLedgerError String :=
  let clean := strip value
  if clean.isEmpty || 128 < clean.length || !matchesErrorCode clean then
    .error (.validation "Forge request error code is invalid.")
  else .ok clean

def Host.payloadDigest (host : Host P) (payload : P) : Except ForgeRequestLedgerError String :=
  match host.dumps payload with
  | none => .error (.validation "Forge request payload is not valid JSON.")
  | some encoded => .ok (host.sha256 encoded)

section Operations

variable [Clock T]

/-- `_now`; `none` is a reading that is not a finite number. -/
def readClock (clock : Option T) : Except ForgeRequestLedgerError T :=
  match clock with
  | none => .error (.storage "Forge request ledger clock failed.")
  | some now =>
    if now < ((0 : Nat) : T) then .error (.storage "Forge request ledger clock failed.")
    else .ok now

/-- `float(row["lease_expires_at"] or 0.0)`. -/
def Row.expiry (r : Row T) : T := r.leaseExpiresAt.getD ((0 : Nat) : T)

variable (host : Host P) (config : ForgeRequestLedgerConfig T)

def requireLease (jobId : String) (generation : Nat) (token : String)
    (expected : ForgeRequestState) (now : T) (q : Ledger T) :
    Except ForgeRequestLedgerError (Row T) := do
  let clean ← identifier jobId "job" 128
  let row ← q.rowByJob clean
  if row.state ≠ expected ∨ row.generation ≠ generation ∨
      row.leaseTokenSha256.getD "" ≠ host.sha256 token ∨ row.expiry ≤ now then
    .error (.leaseLost "Forge plan worker lease is no longer valid.")
  else .ok row

def reconcileExpiredRunning (row : Row T) (now : T) (q : Ledger T) :
    Except ForgeRequestLedgerError (Row T × Ledger T) :=
  if row.state ≠ .running then .ok (row, q)
  else if now < row.expiry then .ok (row, q)
  else do
    let q' := q.update (fun r => r.jobId == row.jobId && r.state == .running &&
      r.leaseExpiresAt.any (· ≤ now)) (Row.expire now)
    let row' ← q'.rowByJob row.jobId
    .ok (row', q')

/-- `ORDER BY terminal_at ASC`, `NULL` first. -/
def terminalOrder (a b : Row T) : Prop :=
  match a.terminalAt, b.terminalAt with
  | none, _ => True
  | some _, none => False
  | some x, some y => x ≤ y

instance : DecidableRel (terminalOrder (T := T)) := fun a b => by
  unfold terminalOrder
  split <;> infer_instance

/-- `_prune_for_insert`: first the terminal rows past retention, then the oldest terminal
rows as far as the limit needs.  Rows with equal times go in table order. -/
def pruneForInsert (now : T) (q : Ledger T) : Except ForgeRequestLedgerError (Ledger T) :=
  let cutoff := now - config.terminalRetentionSeconds
  let q₁ := q.delete fun r => r.state.terminal && r.terminalAt.any (· < cutoff)
  let overflow := q₁.rows.length + 1 - config.maxRecords
  let oldest := (((q₁.rows.filter (·.state.terminal)).insertionSort terminalOrder).take
    overflow).map (·.jobId)
  let q₂ := if 0 < overflow then q₁.delete fun r => oldest.contains r.jobId else q₁
  if config.maxRecords ≤ q₂.rows.length then
    .error (.storage "Durable Forge plan request storage is full.")
  else .ok q₂

def newRow (jobId workspaceSha256 workspaceRoot sessionId idempotencySha256 payloadSha256
    tokenSha256 : String) (expiresAt now : T) : Row T :=
  { jobId, workspaceSha256, workspaceRoot, sessionId, idempotencySha256, payloadSha256,
    state := .queued, leaseTokenSha256 := some tokenSha256, leaseExpiresAt := some expiresAt,
    createdAt := now, updatedAt := now }

/-- `accept` of a request that has a row. -/
def acceptPrior (session payloadSha256 freshToken : String) (now : T) (row : Row T)
    (q : Ledger T) : Except ForgeRequestLedgerError (ForgeRequestAcceptance T × Ledger T) :=
  if row.payloadSha256 ≠ payloadSha256 then
    .error (.idempotencyConflict
      "Idempotency key was already used for a different Forge plan request.")
  else do
    let (row, q) ← reconcileExpiredRunning row now q
    let state := row.state
    let q := q.update (·.jobId == row.jobId) (Row.resession session now)
    let row ← q.rowByJob row.jobId
    if state = .queued ∧ row.expiry ≤ now then
      let token ← identifier freshToken "lease" 256
      let generation := row.generation + 1
      let expiresAt := now + config.leaseSeconds
      let q := q.update (fun r => r.jobId == row.jobId && r.state == .queued)
        (Row.redispatch generation (host.sha256 token) expiresAt now)
      let row ← q.rowByJob row.jobId
      .ok ({ record := row.record, created := false,
             dispatchLease := some { jobId := row.jobId, generation, expiresAt, token } }, q)
    else .ok ({ record := row.record, created := false }, q)

/-- `accept`; `workspace` is what `_workspace` makes of the root it is given, `freshJob`
and `freshToken` are what the two factories return. -/
def accept (workspace : Except ForgeRequestLedgerError String) (sessionId idempotencyKey : String)
    (payload : P) (freshJob freshToken : String) (clock : Option T) (q : Ledger T) :
    Except ForgeRequestLedgerError (ForgeRequestAcceptance T × Ledger T) := do
  let workspace ← workspace
  let session ← identifier sessionId "session" 256
  let key ← identifier idempotencyKey "idempotency" 256
  let workspaceKey := host.sha256 (host.normcase workspace)
  let idempotencyHash := host.sha256 key
  let payloadHash ← host.payloadDigest payload
  let now ← readClock clock
  match q.rows.find? fun r =>
      r.workspaceSha256 == workspaceKey && r.idempotencySha256 == idempotencyHash with
  | some row => acceptPrior host config session payloadHash freshToken now row q
  | none =>
    let jobId ← identifier freshJob "generated job" 128
    let q ← pruneForInsert config now q
    let token ← identifier freshToken "lease" 256
    let expiresAt := now + config.leaseSeconds
    let row := newRow jobId workspaceKey workspace session idempotencyHash payloadHash
      (host.sha256 token) expiresAt now
    match q.insert row with
    | none => .error (.storage "Could not allocate a durable Forge plan request.")
    | some q' =>
      .ok ({ record := row.record, created := true,
             dispatchLease := some { jobId, generation := 1, expiresAt, token } }, q')

variable (lease : ForgeLease T)

def begin (clock : Option T) (q : Ledger T) :
    Except ForgeRequestLedgerError (ForgeLease T × Ledger T) := do
  let now ← readClock clock
  let expiresAt := now + config.leaseSeconds
  let row ← requireLease host lease.jobId lease.generation lease.token .queued now q
  .ok ({ lease with expiresAt }, q.update (·.jobId == row.jobId) (Row.start expiresAt now))

/-- `renew`; the statement names the job as the lease spells it. -/
def renew (lease : ForgeLease T) (clock : Option T) (q : Ledger T) :
    Except ForgeRequestLedgerError (ForgeLease T × Ledger T) := do
  let now ← readClock clock
  let expiresAt := now + config.leaseSeconds
  let _ ← requireLease host lease.jobId lease.generation lease.token .running now q
  .ok ({ lease with expiresAt }, q.update (·.jobId == lease.jobId) (Row.renew expiresAt now))

/-- `_finish`; likewise. -/
def finish (lease : ForgeLease T) (state : { s : ForgeRequestState // s.terminal = true })
    (planId errorCode : Option String) (clock : Option T) (q : Ledger T) :
    Except ForgeRequestLedgerError (ForgeRequestRecord T × Ledger T) := do
  let now ← readClock clock
  let _ ← requireLease host lease.jobId lease.generation lease.token .running now q
  let q := q.update (·.jobId == lease.jobId) (Row.finish state planId errorCode now)
  let row ← q.rowByJob lease.jobId
  .ok (row.record, q)

def complete (planId : String) (clock : Option T) (q : Ledger T) :
    Except ForgeRequestLedgerError (ForgeRequestRecord T × Ledger T) := do
  let clean ← identifier planId "plan" 128
  finish host lease ⟨.completed, rfl⟩ (some clean) none clock q

def fail (errorCode : String) (clock : Option T) (q : Ledger T) :
    Except ForgeRequestLedgerError (ForgeRequestRecord T × Ledger T) := do
  let code ← errorCodeOf errorCode
  finish host lease ⟨.failed, rfl⟩ none (some code) clock q

def cancel (errorCode : String) (clock : Option T) (q : Ledger T) :
    Except ForgeRequestLedgerError (ForgeRequestRecord T × Ledger T) := do
  let code ← errorCodeOf errorCode
  finish host lease ⟨.cancelled, rfl⟩ none (some code) clock q

/-- `reject`; the error code is read after the lease is checked. -/
def reject (lease : ForgeLease T) (errorCode : String) (clock : Option T) (q : Ledger T) :
    Except ForgeRequestLedgerError (ForgeRequestRecord T × Ledger T) := do
  let now ← readClock clock
  let _ ← requireLease host lease.jobId lease.generation lease.token .queued now q
  let code ← errorCodeOf errorCode
  let q := q.update (·.jobId == lease.jobId) (Row.reject code now)
  let row ← q.rowByJob lease.jobId
  .ok (row.record, q)

/-- `get`, which classifies an expired running job on the way. -/
def get (jobId : String) (clock : Option T) (q : Ledger T) :
    Except ForgeRequestLedgerError (Option (ForgeRequestRecord T) × Ledger T) := do
  let clean ← identifier jobId "job" 128
  let now ← readClock clock
  match q.rows.find? fun r => r.jobId == clean with
  | none => .ok (none, q)
  | some row =>
    let (row, q) ← reconcileExpiredRunning row now q
    .ok (some row.record, q)

def attach (jobId sessionId : String) (workspace : Except ForgeRequestLedgerError String)
    (clock : Option T) (q : Ledger T) :
    Except ForgeRequestLedgerError (ForgeRequestRecord T × Ledger T) := do
  let cleanJob ← identifier jobId "job" 128
  let cleanSession ← identifier sessionId "session" 256
  let workspace ← workspace
  let workspaceKey := host.sha256 (host.normcase workspace)
  let now ← readClock clock
  let row ← q.rowByJob cleanJob
  if row.workspaceSha256 ≠ workspaceKey then
    .error (.validation "Durable Forge plan request workspace binding does not match.")
  else
    let q := q.update (·.jobId == cleanJob) (Row.attach cleanSession now)
    let row ← q.rowByJob cleanJob
    .ok (row.record, q)

end Operations

end AlysisCode.ForgeLedger
