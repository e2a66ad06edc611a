/-
Replaying a session's events for its task.

The newest task-state event behind the last boundary is authoritative; it asserts a task, no
task, or that the task is unknown, and what contradicts itself asserts the last.  A log from
before task state existed has its first request as its task.
-/
import AlysisCode.Task.Basic

namespace AlysisCode.Task

variable {F : Type}

/-- What is read of a record of the log. -/
structure Event (F : Type) where
  type : String
  sessionId : Json F := .null
  eventId : Json F := .null
  payload : Json F

def taskStateEvent : String := "session_task_state"

def uncommittedBoundaryEvent : String := "session_store_uncommitted"

def taskBoundaryTriggers : List String := ["user_command"]

def activeStateTransitions : List String := ["accepted", "replaced", "amended", "restored"]

def noTaskTransitions : List String := ["cleared", "restore_none", "rolled_back"]

def unrecoveredTransitions : List String := ["restore_unrecoverable", "restore_refused"]

def knownTransitions : List String :=
  activeStateTransitions ++ noTaskTransitions ++ unrecoveredTransitions

def transitionRelations : List String := ["auto", "new_task", "continuation", "amendment", "host"]

variable (python : Python F) (event : Event F)

def eventSession : Option String :=
  match event.sessionId with
  | .null => none
  | v => stripped (python.text v)

/-! ### One task-state event -/

inductive Outcome where
  | valid
  | none
  | unrecoverable
  deriving DecidableEq

structure LatestTaskRecord where
  seen : Bool := false
  outcome : Outcome := .none
  state : Option SessionTaskState := none
  reason : String := ""
  sessionId : Option String := none
  unidentifiedUncommitted : Bool := false
  deriving DecidableEq

def LatestTaskRecord.markUnidentifiedUncommitted (record : LatestTaskRecord) :
    LatestTaskRecord where
  seen := true
  outcome := .unrecoverable
  state := none
  reason := "uncommitted_record_unidentified"
  sessionId := (eventSession python event).or record.sessionId
  unidentifiedUncommitted := true

def validRelation : Json F → Bool
  | .null => true
  | .str s => transitionRelations.contains (strip s)
  | _ => false

def transitionOf (members : List (String × Json F)) : String :=
  match Json.get members "transition" with
  | .str s => strip s
  | _ => ""

def readNullState (transition : String) (reason : Json F) :
    Outcome × Option SessionTaskState × String :=
  if noTaskTransitions.contains transition then (.none, none, "task_state_cleared")
  else if unrecoveredTransitions.contains transition then
    let saved := strip (python.text (python.orElse reason (.str "")))
    (.unrecoverable, none, transition ++ "_persisted" ++ if saved = "" then "" else ":" ++ saved)
  else (.unrecoverable, none, "latest_task_state_missing_active_state")

def readActiveState (transition : String) (statePayload : Json F) :
    Outcome × Option SessionTaskState × String :=
  if ¬activeStateTransitions.contains transition then
    (.unrecoverable, none, "latest_task_state_transition_incompatible:" ++ transition)
  else
    match validateTaskStatePayload statePayload with
    | .ok state => (.valid, some state, "")
    | .error reason =>
      (.unrecoverable, none,
        if reason = "unsupported_task_state_schema" then reason
        else "latest_task_state_event_invalid:" ++ reason)

/-- What a payload asserts: the outcome, the state and the reason. -/
def readTransition (members : List (String × Json F)) :
    Outcome × Option SessionTaskState × String :=
  let transition := transitionOf members
  if ¬knownTransitions.contains transition then
    (.unrecoverable, none, "latest_task_state_transition_unknown")
  else if ¬validRelation (Json.get members "relation") then
    (.unrecoverable, none, "latest_task_state_relation_invalid")
  else
    match Json.get members "state" with
    | .null => readNullState python transition (Json.get members "reason")
    | statePayload => readActiveState transition statePayload

def readPayload : Json F → Outcome × Option SessionTaskState × String
  | .obj members =>
    if members.any (·.1 == "state") then readTransition python members
    else (.unrecoverable, none, "latest_task_state_missing_state")
  | _ => (.unrecoverable, none, "latest_task_state_payload_invalid")

def readTaskStateEvent (record : LatestTaskRecord) : LatestTaskRecord :=
  if record.unidentifiedUncommitted then record
  else
    let read := readPayload python event.payload
    { seen := true, outcome := read.1, state := read.2.1, reason := read.2.2,
      sessionId := eventSession python event }

/-! ### The whole log -/

/-- The variables of the loop over the events. -/
structure Replay where
  latest : LatestTaskRecord := {}
  (firstUserInstruction firstUserEventId firstUserEventSession : Option String := none)
  userEventsSeen : Nat := 0
  modernLog : Bool := false

/-- `payload.get(key)` of an object, and `None` of what is none. -/
def payloadGet (payload : Json F) (key : String) : Json F :=
  match payload with
  | .obj members => Json.get members key
  | _ => .null

/-- Whether a `conversation_cleared` event ends the task. -/
def isTaskBoundary (payload : Json F) : Bool :=
  let trigger := python.text (python.orElse (payloadGet payload "trigger") (.str ""))
  trigger = "" || taskBoundaryTriggers.contains trigger

/-- The text of a user message. -/
def messageContent (payload : Json F) : Option String :=
  match payloadGet payload "content" with
  | .str s => some s
  | _ =>
    match payloadGet payload "display_content" with
    | .str s => some s
    | _ => none

def isObject : Json F → Bool
  | .obj _ => true
  | _ => false

/-- The identity of the event behind a legacy task. -/
def legacyEventId : Option String :=
  if python.truthy event.eventId then some (strip (python.text event.eventId)) else none

/-- A user message: the first candidate of a legacy log is kept. -/
def Replay.userMessage (r : Replay) (event : Event F) : Replay :=
  let r := { r with userEventsSeen := r.userEventsSeen + 1 }
  if ¬isObject event.payload then r
  else if isObject (payloadGet event.payload "provenance") || r.modernLog then
    { r with modernLog := true }
  else if r.firstUserInstruction.isSome then r
  else
    match messageContent event.payload with
    | none => r
    | some content =>
      if instructionIsTaskCandidate content .legacyLog then
        { r with
          firstUserInstruction := some content
          firstUserEventId := legacyEventId python event
          firstUserEventSession := eventSession python event }
      else r

def Replay.step (python : Python F) (r : Replay) (event : Event F) : Replay :=
  if event.type = "session_start" then
    match payloadGet event.payload "task_state_schema" with
    | .null => r
    | _ => { r with modernLog := true }
  else if event.type = "task_identity_resolved" then { r with modernLog := true }
  else if event.type = "conversation_cleared" then
    if isTaskBoundary python event.payload then
      { r with
        latest := {}
        firstUserInstruction := none
        firstUserEventId := none
        firstUserEventSession := none }
    else r
  else if event.type = taskStateEvent then
    { r with modernLog := true, latest := readTaskStateEvent python event r.latest }
  else if event.type = uncommittedBoundaryEvent then
    if python.truthy (payloadGet event.payload "unidentified") then
      { r with
        modernLog := true
        latest := r.latest.markUnidentifiedUncommitted python event }
    else r
  else if event.type = "user_message" then r.userMessage python event
  else r

def replay (events : List (Event F)) : Replay :=
  events.foldl (Replay.step python) {}

inductive Recovery where
  | event
  | legacyUserEvents
  | none
  | unrecoverable
  deriving DecidableEq

def Recovery.text : Recovery → String
  | .event => "event"
  | .legacyUserEvents => "legacy_user_events"
  | .none => "none"
  | .unrecoverable => "unrecoverable"

structure RecoveredTaskState where
  state : Option SessionTaskState
  recovery : Recovery
  reason : String := ""
  userMessageEventsSeen : Nat := 0
  eventSessionId : Option String := none
  modernLog : Bool := false
  deriving DecidableEq

def legacyState (r : Replay) (instruction : String) (sessionId : Option String) :
    SessionTaskState :=
  let owner := ((sessionId.bind stripped).getD "legacy-session")
  { taskId := makeTaskId owner 1
    objective := (acceptedObjective instruction).1
    sessionId := owner
    sequence := 1
    origin := "recovered_legacy_user_events"
    originEventId := r.firstUserEventId
    acceptedAt := ""
    objectiveTruncated := (acceptedObjective instruction).2 }

def Replay.recovered (r : Replay) (sessionId : Option String) : RecoveredTaskState :=
  if r.latest.seen then
    match r.latest.outcome with
    | .unrecoverable =>
      { state := none
        recovery := .unrecoverable
        reason := r.latest.reason
        userMessageEventsSeen := r.userEventsSeen
        eventSessionId := r.latest.sessionId
        modernLog := r.modernLog }
    | .none =>
      { state := none
        recovery := .none
        reason := if r.latest.reason = "" then "task_state_cleared" else r.latest.reason
        userMessageEventsSeen := r.userEventsSeen
        eventSessionId := r.latest.sessionId
        modernLog := r.modernLog }
    | .valid =>
      { state := r.latest.state
        recovery := .event
        userMessageEventsSeen := r.userEventsSeen
        eventSessionId := r.latest.sessionId
        modernLog := r.modernLog }
  else
    match r.firstUserInstruction with
    | some instruction =>
      { state := some (legacyState r instruction sessionId)
        recovery := .legacyUserEvents
        userMessageEventsSeen := r.userEventsSeen
        eventSessionId := r.firstUserEventSession
        modernLog := r.modernLog }
    | none =>
      { state := none
        recovery := .none
        reason := if r.modernLog then "no_task_accepted" else "no_task_events"
        userMessageEventsSeen := r.userEventsSeen
        modernLog := r.modernLog }

def recoverTaskStateFromEvents (events : List (Event F)) (sessionId : Option String) :
    RecoveredTaskState :=
  (replay python events).recovered sessionId

end AlysisCode.Task

/-! ### The operations of the host

The host's operations on the task of a session.

A transition is appended to the log first and installed in memory when the log has accepted
it.  Every append may fail; it then leaves the log as it was.  A session is restarted by
opening its log again, in a process that knows nothing, and restoring what the log says.
-/

namespace AlysisCode.Task

variable {F : Type}

structure Session where
  storeSessionId : String
  named : isBlank storeSessionId = false
  taskParentSessionId : String := ""
  subagentDepth : Nat := 0

variable (python : Python F) (session : Session)

/-- `_session_id_of(session)` -/
def Session.id : String := (stripped session.storeSessionId).getD "session"

/-- What the process holds of the task. -/
structure Memory where
  taskState : Option SessionTaskState := none
  taskStateUnrecovered : Bool := false
  taskSequenceHighWater : Nat := 0

inductive TaskError where
  | relation
  | persistence
  deriving DecidableEq

/-- The answer of an operation, and what it left behind. -/
structure Result (F α : Type) where
  answer : Except TaskError α
  log : List (Event F)
  memory : Memory

/-- `store.append(type, payload)`, unless it fails. -/
def Session.append (log : List (Event F)) (type : String) (payload : List (String × Json F)) :
    List (Event F) :=
  log ++ [{
    type := type
    sessionId := .str session.storeSessionId
    eventId := .str (session.storeSessionId ++ ":" ++ toString (log.length + 1))
    payload := .obj payload }]

def transitionPayload (transition relation : String) (state : Option SessionTaskState)
    (reason : String) (extra : List (String × Json F)) : List (String × Json F) :=
  [("transition", .str transition), ("relation", .str relation), ("state", match state with
      | some s => .obj s.toPayload
      | none => .null)] ++
    (if reason = "" then [] else [("reason", .str reason)]) ++ extra

/-! ### Sequences -/

/-- The sequence a task-state event records for the session's own identity. -/
def ownSequence (own : String) (event : Event F) : Nat :=
  if event.type ≠ taskStateEvent then 0
  else
    match payloadGet event.payload "state" with
    | .obj state =>
      if strip (python.text (python.orElse (Json.get state "session_id") (.str ""))) ≠ own then 0
      else
        match Json.get state "sequence" with
        | .int n => n.toNat
        | _ => 0
    | _ => 0

/-- `_persisted_task_sequence_high_water` -/
def persistedHighWater (own : String) (log : List (Event F)) : Nat :=
  (log.map (ownSequence python own)).foldl max 0

/-- `_remember_task_sequence` -/
def Memory.remember (memory : Memory) (state : Option SessionTaskState) : Memory :=
  match state with
  | some s =>
    if s.sessionId ≠ session.id then memory
    else { memory with taskSequenceHighWater := max memory.taskSequenceHighWater s.sequence }
  | none => memory

def nextTaskSequence (log : List (Event F)) (memory : Memory) : Nat :=
  let highest := max (persistedHighWater python session.id log) memory.taskSequenceHighWater
  let highest :=
    match memory.taskState with
    | some current =>
      if current.sessionId = session.id then max highest current.sequence else highest
    | none => highest
  highest + 1

/-! ### Accepting an instruction -/

structure AcceptCall where
  instruction : String
  (relation originEventId requestId : Option String := none)
  /-- The clock, when the call is made. -/
  now : String := ""

def AcceptCall.offer (log : List (Event F)) (memory : Memory) (call : AcceptCall)
    (relation : TaskRelation) : Offer where
  instruction := call.instruction
  relation := relation
  sessionId := session.id
  originEventId := call.originEventId
  origin := if session.subagentDepth > 0 then "delegated" else "user_instruction"
  now := call.now
  requestId := call.requestId
  parentSessionId := stripped session.taskParentSessionId
  nextSequence :=
    if memory.taskState.isNone ∨ relation = .newTask then
      some (nextTaskSequence python session log memory)
    else none
  provenance := .acceptedTurn
  unrecovered := memory.taskStateUnrecovered

def acceptSessionTask (call : AcceptCall) (persists : Bool) (log : List (Event F)) (memory : Memory) :
    Result F TaskTransition :=
  match validateTaskRelation call.relation with
  | none => { answer := .error .relation, log := log, memory := memory }
  | some relation =>
    let transition :=
      transitionTaskState memory.taskState (call.offer python session log memory relation)
    if ¬transition.changed then { answer := .ok transition, log := log, memory := memory }
    else if ¬persists then { answer := .error .persistence, log := log, memory := memory }
    else
      { answer := .ok transition
        log := session.append log taskStateEvent
          (transitionPayload transition.kind.text transition.relation.text transition.state "" [])
        memory :=
          { Memory.remember session { memory with taskState := transition.state }
              transition.state with
            taskStateUnrecovered := false } }

/-! ### Clearing -/

/-- `clear_session_task`; the answer is whether there was a task. -/
def clearSessionTask (reason : String) (persists : Bool) (log : List (Event F)) (memory : Memory) :
    Result F Bool :=
  match memory.taskState with
  | some current =>
    let remembered := memory.remember session (some current)
    if ¬persists then { answer := .error .persistence, log := log, memory := remembered }
    else
      { answer := .ok true
        log := session.append log taskStateEvent (transitionPayload "cleared" "host" none reason [])
        memory := { remembered with taskState := none, taskStateUnrecovered := false } }
  | none =>
    { answer := .ok false
      log := log
      memory := { memory with taskState := none, taskStateUnrecovered := false } }

/-- The host's `/clear`: the task, and then the conversation. -/
def resetConversation (persists clears : Bool) (log : List (Event F)) (memory : Memory) :
    Result F Bool :=
  let cleared := clearSessionTask session "conversation_reset:user_command" persists log memory
  match cleared.answer with
  | .error _ => cleared
  | .ok _ =>
    if ¬clears then { cleared with answer := .error .persistence }
    else
      { cleared with
        log := session.append cleared.log "conversation_cleared"
          [("trigger", .str "user_command")] }

/-! ### Restoring -/

structure RestoreCall where
  recovered : RecoveredTaskState
  (sourceSessionId expectedSessionId expectedParentSessionId : Option String := none)

/-- Whether `value` is a text that is not empty: `bool(value)` of an optional text. -/
def given (value : Option String) : Bool := value.any (· != "")

variable (call : RestoreCall)

/-- Why the saved state is not this session's; `""` when nothing speaks against it. -/
def RestoreCall.refusal : String :=
  match call.recovered.state with
  | none => ""
  | some state =>
    if given call.expectedSessionId && given call.recovered.eventSessionId &&
        call.recovered.eventSessionId != call.expectedSessionId then "session_id_mismatch"
    else if given call.expectedParentSessionId && given state.parentSessionId &&
        state.parentSessionId != call.expectedParentSessionId then "parent_session_id_mismatch"
    else ""

def RestoreCall.installed : Option SessionTaskState :=
  call.recovered.state.map fun state =>
    if given call.sourceSessionId && call.sourceSessionId != some session.id then
      { state with origin := "resumed", resumedFromSessionId := call.sourceSessionId }
    else state

def RestoreCall.refusedExtra : List (String × Json F) :=
  [("recovery", .str call.recovered.recovery.text),
    ("source_session_id", optionalText call.sourceSessionId),
    ("expected_session_id", optionalText call.expectedSessionId),
    ("expected_parent_session_id", optionalText call.expectedParentSessionId),
    ("saved_session_id", optionalText call.recovered.eventSessionId),
    ("saved_task_id", optionalText (call.recovered.state.map (·.taskId))),
    ("saved_parent_session_id", optionalText (call.recovered.state.bind (·.parentSessionId)))]

def RestoreCall.restoredExtra : List (String × Json F) :=
  [("recovery", .str call.recovered.recovery.text),
    ("source_session_id", optionalText call.sourceSessionId)]

def restoreSessionTaskState (persists : Bool) (log : List (Event F)) (memory : Memory) :
    Result F (Option SessionTaskState) :=
  if ¬persists then { answer := .error .persistence, log := log, memory := memory }
  else if call.refusal ≠ "" then
    { answer := .ok none
      log := session.append log taskStateEvent
        (transitionPayload "restore_refused" "host" none call.refusal call.refusedExtra)
      memory := { memory with taskState := none, taskStateUnrecovered := true } }
  else
    let state := call.installed session
    let transition :=
      if state.isSome then "restored" else "restore_" ++ call.recovered.recovery.text
    { answer := .ok state
      log := session.append log taskStateEvent
        (transitionPayload transition "host" state call.recovered.reason call.restoredExtra)
      memory :=
        { Memory.remember session { memory with taskState := state } state with
          taskStateUnrecovered := call.recovered.recovery = .unrecoverable } }

/-! ### Runs of a session -/

/-- A session's log, and the process that has it open, if there is one. -/
structure World (F : Type) where
  log : List (Event F)
  live : Option Memory

/-- An event that says nothing about the task. -/
structure Note (F : Type) where
  event : Event F
  notTaskState : event.type ≠ taskStateEvent
  notUncommitted : event.type ≠ uncommittedBoundaryEvent
  notBoundary : event.type = "conversation_cleared" →
    ∃ trigger, payloadGet event.payload "trigger" = .str trigger ∧ trigger ≠ "" ∧
      trigger ∉ taskBoundaryTriggers

/-- What the host hands to a restore, beside the log that it reads the task off. -/
structure RestoreSource where
  (sessionId sourceSessionId expectedSessionId expectedParentSessionId : Option String := none)

/-- An operation of the host, with what becomes of its appends. -/
inductive Op (F : Type) where
  | accept (call : AcceptCall) (persists : Bool)
  | clear (persists clears : Bool)
  /-- The task of some log is restored into the session. -/
  | restore (events : List (Event F)) (source : RestoreSource) (persists : Bool)
  /-- The log is opened again by another process, which appends its `session_start` and
  restores the task. -/
  | restart (starts persists : Bool)
  | note (note : Note F)

def startPayload : List (String × Json F) := [("task_state_schema", .int taskStateSchemaVersion)]

/-- A new session. -/
def World.start : World F where
  log := session.append [] "session_start" startPayload
  live := some {}

def restoreCall (events : List (Event F)) (source : RestoreSource) : RestoreCall where
  recovered := recoverTaskStateFromEvents python events source.sessionId
  sourceSessionId := source.sourceSessionId
  expectedSessionId := source.expectedSessionId
  expectedParentSessionId := source.expectedParentSessionId

/-- A restarted process restores what its own log says. -/
def Session.ownSource : RestoreSource where
  sessionId := some session.storeSessionId
  sourceSessionId := some session.storeSessionId
  expectedSessionId := some session.storeSessionId

def restart (starts persists : Bool) (w : World F) : World F :=
  if ¬starts then { w with live := none }
  else
    let log := session.append w.log "session_start" startPayload
    let restored := restoreSessionTaskState session (restoreCall python log session.ownSource)
      persists log {}
    { log := restored.log, live := if persists then some restored.memory else none }

/-- An operation needs a process that has the session open, a restart does not. -/
def exec : Op F → World F → World F
  | .accept call persists, ⟨log, some memory⟩ =>
    let r := acceptSessionTask python session call persists log memory
    ⟨r.log, some r.memory⟩
  | .clear persists clears, ⟨log, some memory⟩ =>
    let r := resetConversation session persists clears log memory
    ⟨r.log, some r.memory⟩
  | .restore events source persists, ⟨log, some memory⟩ =>
    let r := restoreSessionTaskState session (restoreCall python events source) persists log memory
    ⟨r.log, some r.memory⟩
  | .restart starts persists, w => restart python session starts persists w
  | .note note, w => { w with log := w.log ++ [note.event] }
  | _, w => w

def Step (w : World F) (op : Op F) (w' : World F) : Prop :=
  w' = exec python session op w

/-- A run of the operations on a new session. -/
abbrev History (ops : List (Op F)) (w : World F) : Prop :=
  Runs.Run (Step python session) (World.start session) ops w

end AlysisCode.Task
