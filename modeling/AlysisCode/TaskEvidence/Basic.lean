/-
The evidence a session keeps of the edits made for its task.

The baseline of the workspace is captured when a task begins, and every observed edit is counted
on top of it.  The count lives in memory and, after every tool, as an event of the log, which a
later process restores it from.  A workspace snapshot is any value.
-/
import AlysisCode.Library.Runs
import Mathlib.Data.Finset.Basic

namespace AlysisCode.TaskEvidence

/-! ### What is counted -/

/-- The counters and the paths of a task's edits. -/
structure Ledger where
  (materialEditCount materialEditGeneration verificationRelevantEditGeneration : Nat := 0)
  touchedRepoPaths : Finset String := ∅
  deriving DecidableEq

namespace Ledger

/-- No counter decreases and no path is forgotten. -/
instance : LE Ledger where
  le a b :=
    a.materialEditCount ≤ b.materialEditCount ∧
      a.materialEditGeneration ≤ b.materialEditGeneration ∧
      a.verificationRelevantEditGeneration ≤ b.verificationRelevantEditGeneration ∧
      a.touchedRepoPaths ⊆ b.touchedRepoPaths

instance (a b : Ledger) : Decidable (a ≤ b) :=
  inferInstanceAs (Decidable (_ ∧ _ ∧ _ ∧ _))

variable (a b : Ledger)

/-- Each counter the larger one, and the paths of both. -/
def merge : Ledger where
  materialEditCount := max a.materialEditCount b.materialEditCount
  materialEditGeneration := max a.materialEditGeneration b.materialEditGeneration
  verificationRelevantEditGeneration :=
    max a.verificationRelevantEditGeneration b.verificationRelevantEditGeneration
  touchedRepoPaths := a.touchedRepoPaths ∪ b.touchedRepoPaths

/-- `note_material_edit` with its paths, and `note_verification_relevant_edit` if it is one. -/
def noteEdit (paths : Finset String) (relevant : Bool) : Ledger where
  materialEditCount := a.materialEditCount + 1
  materialEditGeneration := a.materialEditGeneration + 1
  verificationRelevantEditGeneration :=
    a.verificationRelevantEditGeneration + if relevant then 1 else 0
  touchedRepoPaths := a.touchedRepoPaths ∪ paths

theorem le_refl (a : Ledger) : a ≤ a :=
  ⟨Nat.le_refl _, Nat.le_refl _, Nat.le_refl _, Finset.Subset.refl _⟩

theorem le_trans {a b c : Ledger} (h : a ≤ b) (h' : b ≤ c) : a ≤ c :=
  ⟨h.1.trans h'.1, h.2.1.trans h'.2.1, h.2.2.1.trans h'.2.2.1, h.2.2.2.trans h'.2.2.2⟩

theorem empty_le : {} ≤ a :=
  ⟨Nat.zero_le _, Nat.zero_le _, Nat.zero_le _, Finset.empty_subset _⟩

theorem le_merge_left : a ≤ a.merge b :=
  ⟨Nat.le_max_left _ _, Nat.le_max_left _ _, Nat.le_max_left _ _, Finset.subset_union_left⟩

theorem le_merge_right : b ≤ a.merge b :=
  ⟨Nat.le_max_right _ _, Nat.le_max_right _ _, Nat.le_max_right _ _, Finset.subset_union_right⟩

theorem le_noteEdit (paths : Finset String) (relevant : Bool) :
    a ≤ a.noteEdit paths relevant :=
  ⟨Nat.le_succ _, Nat.le_succ _, Nat.le_add_right _ _, Finset.subset_union_left⟩

end Ledger

variable {S : Type}

structure TaskEvidenceState (S : Type) where
  taskId : String
  workspaceRoot : String
  snapshot : S
  baselineAvailable : Bool
  ledger : Ledger := {}
  deriving DecidableEq

inductive Event (S : Type) where
  | evidence (payload : TaskEvidenceState S) (writer : String)
  | toolCall
  /-- A task-state event, with the task it asserts. -/
  | task (id : Option String)
  | boundary
  deriving DecidableEq

/-- What stays the same throughout a session. -/
structure Session (S : Type) where
  sessionId : String
  named : sessionId ≠ ""
  root : String
  /-- `AcceptanceWorkspaceSnapshot()` -/
  blank : S

/-- The fate of an append; a late error comes when the event is in the log. -/
inductive Fate where
  | ok
  | lost
  | late
  deriving DecidableEq

def Fate.written : Fate → Bool
  | .lost => false
  | _ => true

def Fate.raised : Fate → Bool
  | .ok => false
  | _ => true

variable (session : Session S) (fate : Fate)

def append (log : List (Event S)) (event : Event S) : List (Event S) :=
  if fate.written then log ++ [event] else log

/-! ### The process -/

/-- The execution state of a turn, as far as evidence goes. -/
structure Turn where
  ledger : Ledger
  /-- `acceptance_contract.baseline_available`, if the turn has a contract. -/
  contract : Option Bool
  /-- A tool has been called whose effect is not yet persisted. -/
  dispatched : Bool := false
  deriving DecidableEq

/-- How far a turn has come. -/
inductive Stage where
  | idle
  | accepted (newTask : Bool)
  | begun
  | turn (state : Turn)
  deriving DecidableEq

structure Process (S : Type) where
  /-- The id of the session's task, empty if there is none. -/
  taskId : String := ""
  evidence : Option (TaskEvidenceState S) := none
  stage : Stage := .idle
  deriving DecidableEq

/-- The log, and the process that has the session open, if there is one. -/
structure World (S : Type) where
  log : List (Event S) := []
  live : Option (Process S) := none
  deriving DecidableEq

/-- The append of `persist_task_evidence`: when it raises, the baseline is given up. -/
def persistState (e : TaskEvidenceState S) (log : List (Event S)) :
    TaskEvidenceState S × List (Event S) :=
  (if fate.raised then { e with baselineAvailable := false } else e,
    append fate log (.evidence e session.sessionId))

/-- `begin_task_evidence`, where `captured` is what the workspace holds. -/
def beginTaskEvidence (newTask : Bool) (captured : S) (fate : Fate) (p : Process S)
    (log : List (Event S)) : TaskEvidenceState S × List (Event S) :=
  let rebuild := persistState session fate
    { taskId := p.taskId
      workspaceRoot := session.root
      snapshot := if newTask then captured else session.blank
      baselineAvailable := newTask } log
  match p.evidence with
  | none => rebuild
  | some current =>
    if newTask || current.taskId ≠ p.taskId then rebuild else (current, log)

/-- `persist_task_evidence(session, execution_state)` -/
def persistTaskEvidence (turn : Turn) (p : Process S) (log : List (Event S)) :
    Process S × List (Event S) :=
  match p.evidence with
  | none => (p, log)
  | some baseline =>
    let persisted :=
      persistState session fate { baseline with ledger := baseline.ledger.merge turn.ledger } log
    let contract := if fate.raised then turn.contract.map fun _ => false else turn.contract
    ({ p with
        evidence := some persisted.1
        stage := .turn { turn with contract := contract, dispatched := false } }, persisted.2)

/-! ### Recovering -/

/-- The variables of `recover_task_state_from_events` that are about evidence. -/
structure Recovered (S : Type) where
  task : Option String := none
  payload : Option (TaskEvidenceState S × String) := none
  deriving DecidableEq

def Recovered.read (r : Recovered S) : Event S → Recovered S
  | .evidence payload writer => { r with payload := some (payload, writer) }
  -- what the tool did may be missing from the payload
  | .toolCall =>
    { r with payload := r.payload.map fun e => ({ e.1 with baselineAvailable := false }, e.2) }
  | .task id => { r with task := id }
  | .boundary => { task := none, payload := none }

def recover (log : List (Event S)) : Recovered S := log.foldl Recovered.read {}

/-- The state that `restore_task_evidence` installs; the payload has the fields it checks. -/
def restoredState (taskId : String) (payload : Option (TaskEvidenceState S × String))
    (expectedSessionId : String) :
    TaskEvidenceState S :=
  let unavailable : TaskEvidenceState S :=
    { taskId := taskId
      workspaceRoot := session.root
      snapshot := session.blank
      baselineAvailable := false }
  match payload with
  | none => unavailable
  | some (e, writer) =>
    if e.taskId ≠ taskId ∨ e.workspaceRoot ≠ session.root ∨ writer = "" ∨
        (expectedSessionId ≠ "" ∧ writer ≠ expectedSessionId) then unavailable
    else e

/-- `restore_task_evidence`, behind which the process is there. -/
def restoreTaskEvidence (recovered : Recovered S) (log : List (Event S)) : World S :=
  match recovered.task with
  | none => { log := log, live := some {} }
  | some taskId =>
    if taskId = "" then { log := log, live := some {} }
    else
      let restored := persistState session fate
        (restoredState session taskId recovered.payload session.sessionId) log
      { log := restored.2, live := some { taskId := taskId, evidence := some restored.1 } }

/-- `restore_session_task_state` of what the session's own log says. -/
def restoreSessionTaskState (taskFate fate : Fate) (log : List (Event S)) : World S :=
  let recovered := recover log
  let log := append taskFate log (.task recovered.task)
  if taskFate.raised then { log := log, live := none }
  else restoreTaskEvidence session fate recovered log

/-! ### Runs of a session -/

inductive Op (S : Type) where
  /-- A turn starts for the task there is. -/
  | proceed
  /-- A turn starts with a new task. -/
  | accept (id : String) (fate : Fate)
  | begin (captured : S) (fate : Fate)
  /-- The turn's execution state is seeded, with an acceptance contract if `guarded`. -/
  | install (guarded : Bool) (fate : Fate)
  | toolCall (fate : Fate)
  /-- An edit of the called tool is observed. -/
  | effect (paths : Finset String) (relevant : Bool)
  | persist (fate : Fate)
  /-- The task is retired, and the conversation cleared if `clears`. -/
  | clear (fate : Fate) (clears : Bool)
  /-- The process ends, wherever it was, and another one resumes the session. -/
  | restart (taskFate fate : Fate)
  deriving DecidableEq

def fresh (id : String) (log : List (Event S)) : Bool :=
  id ≠ "" && log.all fun
    | .task (some id') => id' ≠ id
    | _ => true

def execLive (op : Op S) (log : List (Event S)) (p : Process S) :
    Option (World S) :=
  match op with
  | .proceed => some ⟨log, some { p with stage := .accepted false }⟩
  | .accept id fate =>
    if fresh id log then
      some ⟨append fate log (.task (some id)), some (
        if fate.raised then { p with stage := .idle }
        else { p with taskId := id, stage := .accepted true })⟩
    else none
  | .begin captured fate =>
    match p.stage with
    | .accepted newTask =>
      let begun := beginTaskEvidence session newTask captured fate p log
      some ⟨begun.2, some { p with evidence := some begun.1, stage := .begun }⟩
    | _ => none
  | .install guarded fate =>
    match p.stage, p.evidence with
    | .begun, some e =>
      if guarded then
        let current := beginTaskEvidence session false session.blank fate p log
        some ⟨current.2, some { p with
          evidence := some current.1
          stage := .turn { ledger := e.ledger, contract := some current.1.baselineAvailable } }⟩
      else some ⟨log, some { p with stage := .turn { ledger := e.ledger, contract := none } }⟩
    | _, _ => none
  | .toolCall fate =>
    match p.stage with
    | .turn t =>
      -- an error of the append ends the turn before the tool is run
      some ⟨append fate log .toolCall, some { p with
        stage := if fate.raised then .idle else .turn { t with dispatched := true } }⟩
    | _ => none
  | .effect paths relevant =>
    match p.stage with
    | .turn t =>
      if t.dispatched then
        some ⟨log, some { p with
          stage := .turn { t with ledger := t.ledger.noteEdit paths relevant } }⟩
      else none
    | _ => none
  | .persist fate =>
    match p.stage with
    | .turn t =>
      if t.dispatched then
        let persisted := persistTaskEvidence session fate t p log
        some ⟨persisted.2, some persisted.1⟩
      else none
    | _ => none
  | .clear fate clears =>
    let log := append fate log (.task none)
    if fate.raised then some ⟨log, some p⟩
    else some ⟨if clears then log ++ [.boundary] else log, some {}⟩
  | .restart _ _ => none

def exec (w : World S) (op : Op S) : Option (World S) :=
  match op, w.live with
  | .restart taskFate fate, _ => some (restoreSessionTaskState session taskFate fate w.log)
  | op, some p => execLive session op w.log p
  | _, none => none

def Step (w : World S) (op : Op S) (w' : World S) : Prop :=
  exec session w op = some w'

/-- A new session. -/
def World.start : World S where
  live := some {}

end AlysisCode.TaskEvidence
