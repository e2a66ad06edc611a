/-
The durable prompt queue: its table and its operations.

Every public operation is one `BEGIN IMMEDIATE` transaction over one table, so an
operation here is a function from the table to an answer and the next table, or to
the error it raises; raising rolls the transaction back.  The checks stand in the
source's order and the errors carry the source's texts.

`Queue` is the table together with what SQLite enforces on it: the primary key, the
two `UNIQUE` constraints, the `CHECK` on the lease columns and the partial unique
index that lets a session have one running row.  A statement whose result breaks one
of them raises, so no operation can build a table without them.
-/
import Mathlib.Data.List.Nodup
import AlysisCode.Ide.Common
import AlysisCode.Library.Runs
import AlysisCode.Library.Table

namespace AlysisCode.PromptQueue

open Table

inductive PromptState where
  | pending
  | running
  | completed
  | cancelled
  | failed
  deriving DecidableEq, Repr

inductive PromptQueueError where
  | validation (message : String)
  | capacity (message : String)
  | idempotencyConflict (message : String)
  | notFound (message : String)
  | stateError (message : String)
  | leaseLost (message : String)
  | storage (message : String)
  deriving DecidableEq, Repr

structure PromptQueueConfig where
  maxOutstandingPerSession : Nat := 100
  maxListLimit : Nat := 500
  outstanding_pos : 0 < maxOutstandingPerSession := by decide
  listLimit_pos : 0 < maxListLimit := by decide

/-- The bounds that a queue has where none are given. -/
def PromptQueueConfig.standard : PromptQueueConfig := {}

/--
How payloads are written and read: `_serialize_payload` gives the canonical JSON text
and the normalized payload, `loads` reads a stored text back.  The queue itself looks
at a payload only through its text and the digest of that text.
-/
structure PayloadFormat (P : Type) where
  serializePayload : P → Except PromptQueueError (String × P)
  sha256 : String → String
  loads : String → Option P
  /-- `json.loads` reads what `json.dumps` wrote. -/
  loads_serialize : ∀ p text normalized,
    serializePayload p = .ok (text, normalized) → loads text = some normalized

/-- Payloads named by their canonical JSON text, with the digests of the texts in use. -/
def PayloadFormat.canonical (sha256 : String → String) : PayloadFormat String where
  serializePayload text := .ok (text, text)
  sha256
  loads := some
  loads_serialize := by
    intro p text normalized h
    obtain ⟨rfl, rfl⟩ : p = text ∧ p = normalized := by simpa using h
    rfl

/-! ### The table -/

/-- A row of `prompt_queue_items`. -/
structure Row (T : Type) where
  sequence : Nat
  (promptId sessionId idempotencyKey payloadJson payloadSha256 : String)
  state : PromptState
  createdAt : T
  updatedAt : T
  attempts : Nat := 0
  (leaseToken leaseOwner leaseSessionId : Option String := none)
  (leaseExpiresAt executionStartedAt terminalAt : Option T := none)
  errorCode : Option String := none
  deriving DecidableEq

variable {T P : Type}

/-- The table's `CHECK`: a row has a lease exactly while it is running. -/
def LeaseCheck (r : Row T) : Prop :=
  (r.state = .running ∧ r.leaseToken.isSome ∧ r.leaseOwner.isSome ∧ r.leaseExpiresAt.isSome) ∨
    (r.state ≠ .running ∧ r.leaseToken.isNone ∧ r.leaseOwner.isNone ∧ r.leaseExpiresAt.isNone)

instance (r : Row T) : Decidable (LeaseCheck r) := inferInstanceAs (Decidable (_ ∨ _))

/-- What the schema and its indexes enforce. -/
structure Constraints (rows : List (Row T)) (lastSequence : Nat) : Prop where
  /-- `INTEGER PRIMARY KEY AUTOINCREMENT`: rows are kept and read in this order. -/
  sequence_lt : (rows.map (·.sequence)).Pairwise (· < ·)
  sequence_le : ∀ r ∈ rows, r.sequence ≤ lastSequence
  promptId_unique : (rows.map (·.promptId)).Nodup
  idempotency_unique : (rows.map fun r => (r.sessionId, r.idempotencyKey)).Nodup
  /-- `prompt_queue_one_running_per_session`. -/
  one_running : ((rows.filter (·.state == .running)).map (·.sessionId)).Nodup
  lease_check : ∀ r ∈ rows, LeaseCheck r

instance (rows : List (Row T)) (lastSequence : Nat) : Decidable (Constraints rows lastSequence) :=
  decidable_of_iff
    ((rows.map (·.sequence)).Pairwise (· < ·) ∧ (∀ r ∈ rows, r.sequence ≤ lastSequence) ∧
      (rows.map (·.promptId)).Nodup ∧
      (rows.map fun r => (r.sessionId, r.idempotencyKey)).Nodup ∧
      ((rows.filter (·.state == .running)).map (·.sessionId)).Nodup ∧
      ∀ r ∈ rows, LeaseCheck r)
    ⟨fun ⟨a, b, c, d, e, f⟩ => ⟨a, b, c, d, e, f⟩, fun ⟨a, b, c, d, e, f⟩ => ⟨a, b, c, d, e, f⟩⟩

/-- The table, with the constraints it satisfies. -/
structure Queue (T : Type) where
  rows : List (Row T)
  /-- The `AUTOINCREMENT` counter. -/
  lastSequence : Nat
  constraints : Constraints rows lastSequence

/-- A freshly created table. -/
def Queue.empty : Queue T :=
  ⟨[], 0, ⟨by simp, by simp, by simp, by simp, by simp, by simp⟩⟩

/-- Run a statement that leaves `rows`; `none` is `sqlite3.IntegrityError`. -/
def Queue.write (rows : List (Row T)) (lastSequence : Nat) : Option (Queue T) :=
  if h : Constraints rows lastSequence then some ⟨rows, lastSequence, h⟩ else none

/-- A statement outside `enqueue`: `_transaction` turns an `IntegrityError` into this. -/
def Queue.execute (rows : List (Row T)) (lastSequence : Nat) : Except PromptQueueError (Queue T) :=
  match Queue.write rows lastSequence with
  | some q => .ok q
  | none => .error (.storage "Prompt queue operation failed.")

/-! ### What the statements write -/

/-- `claim_next`'s `SET` list. -/
def Row.claim (leaseToken ownerId sessionId : String) (expiresAt now : T) (r : Row T) : Row T :=
  { r with
    state := .running, leaseToken := some leaseToken, leaseOwner := some ownerId,
    leaseSessionId := some sessionId, leaseExpiresAt := some expiresAt,
    attempts := r.attempts + 1, updatedAt := now, terminalAt := none, errorCode := none }

/-- `renew`'s. -/
def Row.renew (expiresAt now : T) (r : Row T) : Row T :=
  { r with leaseExpiresAt := some expiresAt, updatedAt := now }

/-- `mark_execution_started`'s. -/
def Row.start (now : T) (r : Row T) : Row T :=
  { r with executionStartedAt := some now, updatedAt := now }

/-- `_finish`'s. -/
def Row.finish (state : PromptState) (errorCode : Option String) (now : T) (r : Row T) : Row T :=
  { r with
    state, leaseToken := none, leaseOwner := none, leaseSessionId := none,
    leaseExpiresAt := none, updatedAt := now, terminalAt := some now, errorCode }

/-- `release`'s. -/
def Row.release (now : T) (r : Row T) : Row T :=
  { r with
    state := .pending, leaseToken := none, leaseOwner := none, leaseSessionId := none,
    leaseExpiresAt := none, updatedAt := now }

/-- `delete_pending`'s and `cancel_pending_for_session`'s. -/
def Row.cancel (now : T) (r : Row T) : Row T :=
  { r with state := .cancelled, updatedAt := now, terminalAt := some now }

/-- `rebind_recoverable`'s for a pending or a live running row. -/
def Row.moveTo (target : String) (now : T) (r : Row T) : Row T :=
  { r with sessionId := target, updatedAt := now }

/-- `rebind_recoverable`'s for an expired running row. -/
def Row.recoverTo (target : String) (now : T) (r : Row T) : Row T :=
  { r with
    sessionId := target, state := .pending, leaseToken := none, leaseOwner := none,
    leaseSessionId := none, leaseExpiresAt := none, updatedAt := now }

/-- `UPDATE … WHERE sequence = ?`. -/
def updateRow (sequence : Nat) (f : Row T → Row T) (rows : List (Row T)) : List (Row T) :=
  updateWhere (fun r => r.sequence == sequence) f rows

/-- `state IN ('pending', 'running')`. -/
def Row.outstanding (r : Row T) : Bool := r.state == .pending || r.state == .running

section Clock

variable [Clock T]

/-- `lease_expires_at > now`, false for `NULL`. -/
def Row.expiresAfter (now : T) (r : Row T) : Bool := r.leaseExpiresAt.any (now < ·)

/-- `lease_expires_at <= now`, false for `NULL`. -/
def Row.expiredBy (now : T) (r : Row T) : Bool := r.leaseExpiresAt.any (· ≤ now)

/-- `state = 'running' AND lease_expires_at > now`. -/
def Row.live (now : T) (r : Row T) : Bool := r.state == .running && r.expiresAfter now

/-- `state = 'pending' OR (state = 'running' AND lease_expires_at <= now)`. -/
def Row.claimable (now : T) (r : Row T) : Bool :=
  r.state == .pending || (r.state == .running && r.expiredBy now)

/-! ### Validation -/

/-- `_now`; `none` is a reading that is not a finite number. -/
def readClock (clock : Option T) : Except PromptQueueError T :=
  match clock with
  | none => .error (.validation "Queue clock returned an invalid value.")
  | some now =>
    if now < ((0 : Nat) : T) then .error (.validation "Queue clock returned an invalid value.")
    else .ok now

/-- `_validate_lease_seconds`, between `MIN_LEASE_SECONDS` and `MAX_LEASE_SECONDS`. -/
def validateLeaseSeconds (value : T) : Except PromptQueueError T :=
  if value < ((1 : Nat) : T) ∨ ((86400 : Nat) : T) < value then
    .error (.validation "Prompt lease duration is outside the allowed range.")
  else .ok value

end Clock

def validateIdentifier (value kind : String) (maxLength : Nat) : Except PromptQueueError String :=
  if value.isEmpty || maxLength < value.length || !matchesIdentifier value then
    .error (.validation s!"Prompt {kind} identifier is invalid.")
  else .ok value

def validateLeaseIdentifiers (sessionId promptId leaseToken : String) :
    Except PromptQueueError (String × String × String) := do
  let sessionId ← validateIdentifier sessionId "session" 256
  let promptId ← validateIdentifier promptId "prompt" 256
  let leaseToken ← validateIdentifier leaseToken "lease" 256
  .ok (sessionId, promptId, leaseToken)

/-! ### What the operations return -/

structure PromptQueueItem (T P : Type) where
  promptId : String
  sequence : Nat
  sessionId : String
  idempotencyKey : String
  payload : P
  state : PromptState
  createdAt : T
  updatedAt : T
  attempts : Nat
  (leaseExpiresAt executionStartedAt terminalAt : Option T)
  errorCode : Option String

structure EnqueueResult (T P : Type) where
  item : PromptQueueItem T P
  created : Bool

structure PromptLease (T P : Type) where
  item : PromptQueueItem T P
  leaseToken : String
  ownerId : String
  expiresAt : T

/-- The counts `rebind_recoverable` reports. -/
structure Rebound where
  (pending recovered active : Nat)
  deriving DecidableEq, Repr

def Row.item (r : Row T) (payload : P) : PromptQueueItem T P :=
  { promptId := r.promptId, sequence := r.sequence, sessionId := r.sessionId,
    idempotencyKey := r.idempotencyKey, payload, state := r.state, createdAt := r.createdAt,
    updatedAt := r.updatedAt, attempts := r.attempts, leaseExpiresAt := r.leaseExpiresAt,
    executionStartedAt := r.executionStartedAt, terminalAt := r.terminalAt,
    errorCode := r.errorCode }

/-- `_item_from_row`, decoding the stored payload. -/
def itemFromRow (format : PayloadFormat P) (r : Row T) :
    Except PromptQueueError (PromptQueueItem T P) :=
  match format.loads r.payloadJson with
  | none => .error (.storage "Stored prompt payload is invalid.")
  | some payload => .ok (r.item payload)

/-- `SELECT * … WHERE sequence = ?` after an update of that row. -/
def Queue.rowAt (q : Queue T) (sequence : Nat) : Except PromptQueueError (Row T) :=
  match q.rows.find? (fun r => r.sequence == sequence) with
  | none => .error (.storage "Could not load claimed prompt.")
  | some row => .ok row

def Queue.updateAndLoad (format : PayloadFormat P) (q : Queue T) (sequence : Nat)
    (f : Row T → Row T) : Except PromptQueueError (PromptQueueItem T P × Queue T) := do
  let q' ← Queue.execute (updateRow sequence f q.rows) q.lastSequence
  let row ← q'.rowAt sequence
  let item ← itemFromRow format row
  .ok (item, q')

/-! ### The operations -/

section Operations

variable [Clock T] (config : PromptQueueConfig) (format : PayloadFormat P)

/-- The row with this `UNIQUE (session_id, idempotency_key)`. -/
def Queue.byKey (q : Queue T) (sessionId idempotencyKey : String) : Option (Row T) :=
  q.rows.find? fun r => r.sessionId == sessionId && r.idempotencyKey == idempotencyKey

/-- The row with this `prompt_id`. -/
def Queue.byId (q : Queue T) (promptId : String) : Option (Row T) :=
  q.rows.find? fun r => r.promptId == promptId

/-- `SELECT COUNT(*) … WHERE session_id = ? AND state IN ('pending', 'running')`. -/
def Queue.outstandingCount (q : Queue T) (sessionId : String) : Nat :=
  q.rows.countP fun r => r.sessionId == sessionId && r.outstanding

def priorResult (existing : Row T) (payloadSha256 : String) :
    Except PromptQueueError (EnqueueResult T P) :=
  if existing.payloadSha256 ≠ payloadSha256 then
    .error (.idempotencyConflict "Idempotency key was already used for a different prompt.")
  else do
    let item ← itemFromRow format existing
    .ok { item, created := false }

/-- The row `enqueue` inserts. -/
def newRow (sequence : Nat) (promptId sessionId idempotencyKey payloadJson payloadSha256 : String)
    (now : T) : Row T :=
  { sequence, promptId, sessionId, idempotencyKey, payloadJson, payloadSha256,
    state := .pending, createdAt := now, updatedAt := now }

/-- `enqueue`; `generatedId` is what the id factory returns. -/
def enqueue (sessionId idempotencyKey : String) (payload : P) (generatedId : String)
    (clock : Option T) (q : Queue T) :
    Except PromptQueueError (EnqueueResult T P × Queue T) := do
  let sessionId ← validateIdentifier sessionId "session" 256
  let idempotencyKey ← validateIdentifier idempotencyKey "idempotency" 256
  let (payloadJson, normalized) ← format.serializePayload payload
  let payloadSha256 := format.sha256 payloadJson
  match q.byKey sessionId idempotencyKey with
  | some existing =>
    let result ← priorResult format existing payloadSha256
    .ok (result, q)
  | none =>
    if config.maxOutstandingPerSession ≤ q.outstandingCount sessionId then
      .error (.capacity "Session prompt queue is full.")
    else do
      let promptId ← validateIdentifier generatedId "generated prompt" 256
      let now ← readClock clock
      let row := newRow (q.lastSequence + 1) promptId sessionId idempotencyKey payloadJson
        payloadSha256 now
      match Queue.write (q.rows ++ [row]) (q.lastSequence + 1) with
      | some q' => .ok ({ item := row.item normalized, created := true }, q')
      | none =>
        -- the handler looks the key up again and finds what the first lookup found
        match q.byKey sessionId idempotencyKey with
        | none => .error (.storage "Could not persist queued prompt.")
        | some existing => do
          let result ← priorResult format existing payloadSha256
          .ok (result, q)

def get (sessionId promptId : String) (q : Queue T) :
    Except PromptQueueError (Option (PromptQueueItem T P)) := do
  let sessionId ← validateIdentifier sessionId "session" 256
  let promptId ← validateIdentifier promptId "prompt" 256
  match q.rows.find? fun r => r.sessionId == sessionId && r.promptId == promptId with
  | none => .ok none
  | some row => do
    let item ← itemFromRow format row
    .ok (some item)

/-- `list`; an empty state filter selects every state. -/
def list (sessionId : String) (states : List PromptState) (limit afterSequence : Nat)
    (q : Queue T) : Except PromptQueueError (List (PromptQueueItem T P)) := do
  let sessionId ← validateIdentifier sessionId "session" 256
  if limit < 1 ∨ config.maxListLimit < limit then
    .error (.validation "Queue list limit is outside the allowed range.")
  else
    let rows := q.rows.filter fun r => r.sessionId == sessionId &&
      decide (afterSequence < r.sequence) && (states.isEmpty || states.contains r.state)
    (rows.take limit).mapM (itemFromRow format)

def isReclaimable (sessionId promptId : String) (clock : Option T) (q : Queue T) :
    Except PromptQueueError Bool := do
  let sessionId ← validateIdentifier sessionId "session" 256
  let promptId ← validateIdentifier promptId "prompt" 256
  let now ← readClock clock
  match q.rows.find? fun r => r.sessionId == sessionId && r.promptId == promptId with
  | none => .ok false
  | some row => .ok (row.claimable now)

/-- `claim_next`; `leaseToken` is the fresh `uuid4`. -/
def claimNext (sessionId ownerId : String) (leaseSeconds : T) (leaseToken : String)
    (clock : Option T) (q : Queue T) :
    Except PromptQueueError (Option (PromptLease T P) × Queue T) := do
  let sessionId ← validateIdentifier sessionId "session" 256
  let ownerId ← validateIdentifier ownerId "owner" 256
  let leaseSeconds ← validateLeaseSeconds leaseSeconds
  let now ← readClock clock
  let expiresAt := now + leaseSeconds
  if q.rows.any fun r => r.sessionId == sessionId && r.live now then .ok (none, q)
  else
    match q.rows.find? fun r => r.sessionId == sessionId && r.claimable now with
    | none => .ok (none, q)
    | some row => do
      let (item, q') ← q.updateAndLoad format row.sequence
        (Row.claim leaseToken ownerId sessionId expiresAt now)
      .ok (some { item, leaseToken, ownerId, expiresAt }, q')

def requireLiveLease (sessionId promptId leaseToken : String) (now : T) (q : Queue T) :
    Except PromptQueueError (Row T) :=
  match q.byId promptId with
  | none => .error (.notFound "Queued prompt was not found.")
  | some row =>
    if (sessionId ≠ row.sessionId ∧ row.leaseSessionId ≠ some sessionId) ∨
        row.state ≠ .running ∨ row.leaseToken ≠ some leaseToken ∨
        row.expiresAfter now = false then
      .error (.leaseLost "Prompt lease is no longer valid.")
    else .ok row

def renew (sessionId promptId leaseToken : String) (leaseSeconds : T) (clock : Option T)
    (q : Queue T) : Except PromptQueueError (PromptLease T P × Queue T) := do
  let (sessionId, promptId, leaseToken) ← validateLeaseIdentifiers sessionId promptId leaseToken
  let leaseSeconds ← validateLeaseSeconds leaseSeconds
  let now ← readClock clock
  let expiresAt := now + leaseSeconds
  let row ← requireLiveLease sessionId promptId leaseToken now q
  let (item, q') ← q.updateAndLoad format row.sequence (Row.renew expiresAt now)
  .ok ({ item, leaseToken, ownerId := row.leaseOwner.getD "", expiresAt }, q')

def markExecutionStarted (sessionId promptId leaseToken : String) (clock : Option T)
    (q : Queue T) : Except PromptQueueError (PromptQueueItem T P × Queue T) := do
  let (sessionId, promptId, leaseToken) ← validateLeaseIdentifiers sessionId promptId leaseToken
  let now ← readClock clock
  let row ← requireLiveLease sessionId promptId leaseToken now q
  if row.executionStartedAt.isSome then
    .error (.stateError "Prompt execution has already started.")
  else q.updateAndLoad format row.sequence (Row.start now)

def finish (sessionId promptId leaseToken : String) (state : PromptState)
    (errorCode : Option String) (clock : Option T) (q : Queue T) :
    Except PromptQueueError (PromptQueueItem T P × Queue T) := do
  let (sessionId, promptId, leaseToken) ← validateLeaseIdentifiers sessionId promptId leaseToken
  let now ← readClock clock
  let row ← requireLiveLease sessionId promptId leaseToken now q
  q.updateAndLoad format row.sequence (Row.finish state errorCode now)

def complete (sessionId promptId leaseToken : String) (clock : Option T) (q : Queue T) :
    Except PromptQueueError (PromptQueueItem T P × Queue T) :=
  finish format sessionId promptId leaseToken .completed none clock q

def fail (sessionId promptId leaseToken errorCode : String) (clock : Option T) (q : Queue T) :
    Except PromptQueueError (PromptQueueItem T P × Queue T) :=
  if 64 < errorCode.length || !matchesErrorCode errorCode then
    .error (.validation "Prompt failure code is invalid.")
  else finish format sessionId promptId leaseToken .failed (some errorCode) clock q

def cancelClaimed (sessionId promptId leaseToken : String) (clock : Option T) (q : Queue T) :
    Except PromptQueueError (PromptQueueItem T P × Queue T) :=
  finish format sessionId promptId leaseToken .cancelled (some "cancelled") clock q

def release (sessionId promptId leaseToken : String) (clock : Option T) (q : Queue T) :
    Except PromptQueueError (PromptQueueItem T P × Queue T) := do
  let (sessionId, promptId, leaseToken) ← validateLeaseIdentifiers sessionId promptId leaseToken
  let now ← readClock clock
  let row ← requireLiveLease sessionId promptId leaseToken now q
  q.updateAndLoad format row.sequence (Row.release now)

def deletePending (sessionId promptId : String) (clock : Option T) (q : Queue T) :
    Except PromptQueueError (PromptQueueItem T P × Queue T) := do
  let sessionId ← validateIdentifier sessionId "session" 256
  let promptId ← validateIdentifier promptId "prompt" 256
  let now ← readClock clock
  match q.rows.find? fun r => r.sessionId == sessionId && r.promptId == promptId with
  | none => .error (.notFound "Queued prompt was not found.")
  | some row =>
    if row.state ≠ .pending then .error (.stateError "Only pending prompts can be deleted.")
    else q.updateAndLoad format row.sequence (Row.cancel now)

def cancelPendingForSession (sessionId : String) (clock : Option T) (q : Queue T) :
    Except PromptQueueError (Nat × Queue T) := do
  let sessionId ← validateIdentifier sessionId "session" 256
  let now ← readClock clock
  let selected := fun r : Row T => r.sessionId == sessionId && r.state == .pending
  let q' ← Queue.execute (updateWhere selected (Row.cancel now) q.rows) q.lastSequence
  .ok (q.rows.countP selected, q')

/-- An outstanding prompt of `source` has a key that `target` already uses. -/
def Queue.rebindConflict (source target : String) (q : Queue T) : Bool :=
  q.rows.any fun s => s.sessionId == source && s.outstanding &&
    q.rows.any fun t => t.sessionId == target && t.idempotencyKey == s.idempotencyKey

def rebindRecoverable (source target : String) (clock : Option T) (q : Queue T) :
    Except PromptQueueError (Rebound × Queue T) := do
  let source ← validateIdentifier source "source session" 256
  let target ← validateIdentifier target "target session" 256
  if source = target then .ok (⟨0, 0, 0⟩, q)
  else
    let now ← readClock clock
    if q.rebindConflict source target then
      .error (.idempotencyConflict "Recoverable session contains a conflicting queued prompt.")
    else if (q.rows.any fun r => r.sessionId == target && r.state == .running) &&
        q.rows.any fun r => r.sessionId == source && r.state == .running then
      .error (.stateError "Target session already has active queued work.")
    else
      let pending := fun r : Row T => r.sessionId == source && r.state == .pending
      let expired := fun r : Row T =>
        r.sessionId == source && (r.state == .running && r.expiredBy now)
      let active := fun r : Row T => r.sessionId == source && r.live now
      let q₁ ← Queue.execute (updateWhere pending (Row.moveTo target now) q.rows) q.lastSequence
      let q₂ ← Queue.execute (updateWhere expired (Row.recoverTo target now) q₁.rows)
        q₁.lastSequence
      let q₃ ← Queue.execute (updateWhere active (Row.moveTo target now) q₂.rows) q₂.lastSequence
      .ok (⟨q.rows.countP pending, q₁.rows.countP expired, q₂.rows.countP active⟩, q₃)

end Operations

end AlysisCode.PromptQueue
