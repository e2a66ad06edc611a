/-
The change ledger: checkpoints of sessions, and the lineages that sessions share.

A session's checkpoints are rows of a database and commits under a Git ref of its own.  A
capture moves the ref first and commits the rows after, so a capture that fails in between
leaves the ref ahead; a later reconciliation reads the missing rows off the ref.  A session
may adopt the lineage of another one: it then reads and writes the rows of the session that
its lineage leads to, its owner.

Every call is two transactions: it reconciles the storage, and then does its work.  Other
processes may come in between, so the two are operations of their own here.

The tree, labels and path lists of a checkpoint are its content, which nothing here looks
into.  Reverting and redoing capture in the same way, after they have changed the workspace.
-/
import Mathlib.Data.List.Dedup
import Mathlib.Data.List.Sort
import AlysisCode.Ide.Common
import AlysisCode.Library.Runs

namespace AlysisCode.ChangeLedger

/-- What a call may raise. -/
inductive LedgerError
  /-- `ChangeLedgerError`. -/
  | changeLedger (message : String)
  /-- `sqlite3.IntegrityError`. -/
  | integrity
  deriving DecidableEq

/-- `_KINDS`. -/
inductive Kind
  | baseline
  | turn
  | step
  | revert
  | redo
  deriving DecidableEq

def Kind.ofString (value : String) : Option Kind :=
  match (strip value).toLower with
  | "baseline" => some .baseline
  | "turn" => some .turn
  | "step" => some .step
  | "revert" => some .revert
  | "redo" => some .redo
  | _ => none

/-! ### Sessions -/

/-- A later character of `_SESSION_RE`. -/
def isSessionChar (c : Char) : Bool :=
  c.isAlphanum || c == '.' || c == '_' || c == '-'

/-- `_SESSION_RE.fullmatch(value) is not None`. -/
def matchesSession (value : String) : Bool :=
  match value.toList with
  | [] => false
  | c :: rest => c.isAlphanum && rest.length ≤ 127 && rest.all isSessionChar

def validateSessionId (value : String) : Except LedgerError String :=
  if matchesSession (strip value) then .ok (strip value)
  else .error (.changeLedger "Invalid checkpoint session identifier.")

variable {value : String}

theorem matchesIdentifier_of_session (h : matchesSession value = true) :
    matchesIdentifier value = true := by
  unfold matchesSession at h
  unfold matchesIdentifier
  split at h
  · cases h
  · rename_i c rest heq
    simp only [heq, Bool.and_eq_true, List.all_eq_true] at h ⊢
    refine ⟨h.1.1, ?_⟩
    intro c' hc'
    have hchar := h.2 c' hc'
    simp only [isSessionChar, Bool.or_eq_true] at hchar
    simp only [isIdentifierChar, Bool.or_eq_true]
    tauto

theorem validateSessionId_ok {session : String} (h : validateSessionId value = .ok session) :
    validateSessionId session = .ok session := by
  unfold validateSessionId at h
  split at h
  · rename_i hmatches
    obtain rfl : strip value = session := Except.ok.inj h
    have hstrip := strip_of_matches (matchesIdentifier_of_session hmatches)
    unfold validateSessionId
    rw [hstrip, if_pos hmatches]
  · cases h

/-! ### The store -/

/-- What `_capture_locked` writes into a commit. -/
structure Commit (C : Type) where
  checkpointId : String
  sessionId : String
  kind : Kind
  content : C
  deriving DecidableEq

/-- A row of `checkpoints`.  The commit an oid stands for is given with its ancestors,
newest first. -/
structure Checkpoint (C : Type) where
  checkpointId : String
  sessionId : String
  parentId : Option String
  kind : Kind
  commit : List (Commit C)
  deriving DecidableEq

/-- The tables: `checkpoints` by sequence, `session_heads`, `session_lineages`. -/
structure Db (C : Type) where
  checkpoints : List (Checkpoint C)
  heads : String → Option String
  lineages : List (String × String)

/-- The storage directory: the tables and the sessions' refs. -/
structure Ledger (C : Type) where
  db : Db C
  refs : String → Option (List (Commit C))

variable {C : Type}

/-- Freshly initialized storage. -/
def Ledger.empty : Ledger C :=
  ⟨⟨[], fun _ => none, []⟩, fun _ => none⟩

variable (db : Db C)

/-- The alias a session is bound to. -/
def Db.parent (session : String) : Option String :=
  db.lineages.lookup session

/-- The loop of `_lineage_owner_locked`; `none` when the fuel runs out. -/
def lineageOwnerFrom (lineages : List (String × String)) :
    Nat → List String → String → Option (Except LedgerError String)
  | 0, _, _ => none
  | fuel + 1, seen, current =>
    if current ∈ seen then
      some (.error (.changeLedger "Checkpoint session lineage contains a cycle."))
    else
      match lineages.lookup current with
      | none => some (.ok current)
      | some owner =>
        match validateSessionId owner with
        | .error e => some (.error e)
        | .ok next => lineageOwnerFrom lineages fuel (current :: seen) next

/-- `_lineage_owner_locked`, of a validated session.  A round visits a session that no
earlier one did, so this many rounds are enough (`lineageOwnerFrom_isSome`). -/
def Db.lineageOwner (session : String) : Except LedgerError String :=
  (lineageOwnerFrom db.lineages (db.lineages.length + 1) [] session).getD
    (.error (.changeLedger "Checkpoint session lineage contains a cycle."))

/-- `SELECT * FROM checkpoints WHERE checkpoint_id = ?`. -/
def Db.checkpoint (checkpointId : String) : Option (Checkpoint C) :=
  db.checkpoints.find? (·.checkpointId == checkpointId)

/-- `_head_locked`. -/
def Db.head (session : String) : Option (Checkpoint C) :=
  (db.heads session).bind db.checkpoint

/-- Insert the row and make it the head of its session. -/
def Db.append (row : Checkpoint C) : Db C :=
  { db with
    checkpoints := db.checkpoints ++ [row]
    heads := Function.update db.heads row.sessionId (some row.checkpointId) }

def Db.ownRows (session : String) : List (Checkpoint C) :=
  db.checkpoints.filter (·.sessionId == session)

/-! ### Reconciliation -/

section Operations

variable [DecidableEq C]

/-- `_revision_list` of the commits after `base`: each with its ancestors, oldest first. -/
def revisionList (base : List (Commit C)) : List (Commit C) → List (Commit C × List (Commit C))
  | [] => []
  | c :: older => if c :: older = base then [] else revisionList base older ++ [(c, older)]

/-- The loop of `_recover_ref_commits_locked`: rows for the commits that have none. -/
def recoverRows (session : String) :
    List (Commit C × List (Commit C)) → Option (Checkpoint C) → List (Checkpoint C) →
      Except LedgerError (Option (Checkpoint C) × List (Checkpoint C))
  | [], previous, rows => .ok (previous, rows)
  | (c, older) :: rest, previous, rows =>
    if older ≠ (previous.map (·.commit)).getD [] then
      .error (.changeLedger
        "Checkpoint ref history is not a linear continuation of SQLite metadata.")
    else if c.sessionId ≠ session then
      .error (.changeLedger "Checkpoint ref metadata belongs to another session.")
    else
      match rows.find? fun r => r.checkpointId == c.checkpointId || r.commit == c :: older with
      | some existing =>
        if existing.commit ≠ c :: older ∨ existing.sessionId ≠ session then
          .error (.changeLedger "Checkpoint recovery found conflicting metadata.")
        else recoverRows session rest (some existing) rows
      | none =>
        let row : Checkpoint C :=
          { checkpointId := c.checkpointId, sessionId := session,
            parentId := previous.map (·.checkpointId), kind := c.kind, commit := c :: older }
        recoverRows session rest (some row) (rows ++ [row])

/-- `_recover_ref_commits_locked`. -/
def Db.recoverRefCommits (db : Db C) (session : String) (parent : Option (Checkpoint C))
    (commits : List (Commit C × List (Commit C))) : Except LedgerError (Db C) := do
  let (previous, rows) ← recoverRows session commits parent db.checkpoints
  match previous with
  | none => .ok { db with checkpoints := rows }
  | some row =>
    .ok { db with
          checkpoints := rows
          heads := Function.update db.heads session (some row.checkpointId) }

/-- `_reconcile_session_ref_locked`: the tables it leaves, and the refs. -/
def reconcileSessionRef (db : Db C) (refs : String → Option (List (Commit C)))
    (session : String) : Except LedgerError (Db C) × (String → Option (List (Commit C))) :=
  match db.head session, refs session with
  | none, none => (.ok db, refs)
  | some head, none => (.ok db, Function.update refs session (some head.commit))
  | none, some tip => (db.recoverRefCommits session none (revisionList [] tip), refs)
  | some head, some tip =>
    if tip = head.commit then (.ok db, refs)
    else if head.commit <:+ tip then
      (db.recoverRefCommits session (some head) (revisionList head.commit tip), refs)
    else if tip <:+ head.commit then
      (.ok db, Function.update refs session (some head.commit))
    else
      (.error (.changeLedger
        "Checkpoint metadata and its durable Git ref diverged; refusing unsafe recovery."), refs)

def reconcileSessions : List String → Db C → (String → Option (List (Commit C))) →
    Except LedgerError (Db C) × (String → Option (List (Commit C)))
  | [], db, refs => (.ok db, refs)
  | session :: rest, db, refs =>
    match reconcileSessionRef db refs session with
    | (.error e, refs') => (.error e, refs')
    | (.ok db', refs') => reconcileSessions rest db' refs'

variable (l : Ledger C)

/-- `_reconcile_storage` with no restore pending: on an error the tables are rolled back. -/
def Ledger.reconcileStorage (sessionId : Option String) : Except LedgerError Unit × Ledger C :=
  match sessionId.mapM validateSessionId with
  | .error e => (.error e, l)
  | .ok session =>
    let sessions := session.toList ++ l.db.checkpoints.map (·.sessionId)
    match reconcileSessions (sessions.dedup.insertionSort (· ≤ ·)) l.db l.refs with
    | (.error e, refs) => (.error e, { l with refs })
    | (.ok db, refs) => (.ok (), ⟨db, refs⟩)

/-! ### Calls -/

/-- How the part of a capture that works on the workspace and on Git goes. -/
inductive Staging (C : Type)
  /-- It raises before the ref is moved. -/
  | refused (error : LedgerError)
  /-- It raises, or the commit of the tables does, after the ref is moved. -/
  | published (checkpointId : String) (content : C) (error : LedgerError)
  | recorded (checkpointId : String) (content : C)

/-- `_capture_locked` and the commit after it. -/
def Ledger.captureLocked (session : String) (kind : Kind) (staging : Staging C) :
    Except LedgerError (Checkpoint C) × Ledger C :=
  let parent := l.db.head session
  let ancestors := (parent.map (·.commit)).getD []
  let publish (checkpointId : String) (content : C) : Checkpoint C × Ledger C :=
    let commit := ⟨checkpointId, session, kind, content⟩ :: ancestors
    ({ checkpointId, sessionId := session, parentId := parent.map (·.checkpointId), kind, commit },
      { l with refs := Function.update l.refs session (some commit) })
  -- `git update-ref` compares the ref with the parent's commit
  if l.refs session ≠ parent.map (·.commit) then
    (.error (.changeLedger "Git checkpoint operation failed."), l)
  else
    match staging with
    | .refused e => (.error e, l)
    | .published checkpointId content e => (.error e, (publish checkpointId content).2)
    | .recorded checkpointId content =>
      let (row, l) := publish checkpointId content
      if l.db.checkpoints.any fun r => r.checkpointId == checkpointId || r.commit == row.commit then
        (.error .integrity, l)
      else
        (.ok row, { l with db := l.db.append row })

def Ledger.capture (sessionId kind : String) (staging : Staging C) :
    Except LedgerError (Checkpoint C) × Ledger C :=
  match validateSessionId sessionId with
  | .error e => (.error e, l)
  | .ok session =>
    match Kind.ofString kind with
    | none => (.error (.changeLedger "Unsupported checkpoint kind."), l)
    | some kind =>
      match l.db.lineageOwner session with
      | .error e => (.error e, l)
      | .ok owner => l.captureLocked owner kind staging

def Ledger.ensureBaseline (sessionId : String) (staging : Staging C) :
    Except LedgerError (Checkpoint C) × Ledger C :=
  match validateSessionId sessionId with
  | .error e => (.error e, l)
  | .ok session =>
    match l.db.lineageOwner session with
    | .error e => (.error e, l)
    | .ok owner =>
      match l.db.head owner with
      | some current => (.ok current, l)
      | none => l.captureLocked owner .baseline staging

def adoptable : List (Checkpoint C) → Bool
  | [] => true
  | [row] => row.kind == .baseline && row.parentId.isNone
  | _ => false

end Operations

def Ledger.adoptSession (l : Ledger C) (sessionId sourceSessionId : String) :
    Except LedgerError (Option String × Ledger C) := do
  let session ← validateSessionId sessionId
  let source ← validateSessionId sourceSessionId
  let sourceOwner ← l.db.lineageOwner source
  if (l.db.head sourceOwner).isNone then
    .ok (none, l)
  else if (l.db.parent session).isSome then
    let existingOwner ← l.db.lineageOwner session
    if existingOwner ≠ sourceOwner then
      .error (.changeLedger "Session is already bound to a different checkpoint lineage.")
    else .ok (some sourceOwner, l)
  else if session = sourceOwner then
    .ok (some sourceOwner, l)
  else if adoptable (l.db.ownRows session) = false then
    .error (.changeLedger
      "Session already has checkpoint history and cannot adopt another lineage.")
  else
    .ok (some sourceOwner, { l with db.lineages := (session, sourceOwner) :: l.db.lineages })

def Ledger.getForSession (l : Ledger C) (sessionId checkpointId : String) :
    Except LedgerError (Checkpoint C) := do
  let session ← validateSessionId sessionId
  let owner ← l.db.lineageOwner session
  match l.db.checkpoints.find? fun r =>
      r.checkpointId == strip checkpointId && r.sessionId == owner with
  | none => .error (.changeLedger "Checkpoint was not found for this session.")
  | some row => .ok row

end AlysisCode.ChangeLedger
