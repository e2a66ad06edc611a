/-
Task identity: the record of the task a session works on, and what an accepted instruction
does to it.

A state is persisted as a JSON object.  `validateTaskStatePayload` reads one back, strictly:
every field has its type, no text is blank, and the id is the one that the session and the
sequence make.
-/
import AlysisCode.Ide.Python
import AlysisCode.Library.Runs

namespace AlysisCode.Task

def taskObjectiveMaxChars : Nat := 200000

def taskPriorObjectivesMax : Nat := 3

def taskStateSchemaVersion : Int := 1

def taskOrigins : List String :=
  ["user_instruction", "delegated", "resumed", "recovered_legacy_user_events"]

structure SessionTaskState where
  (taskId objective sessionId : String)
  sequence : Nat
  origin : String := "user_instruction"
  originEventId : Option String := none
  acceptedAt : String := ""
  amendments : List String := []
  priorObjectives : List String := []
  (resumedFromSessionId requestId parentSessionId : Option String := none)
  objectiveTruncated : Bool := false
  deriving DecidableEq

def makeTaskId (sessionId : String) (sequence : Nat) : String :=
  sessionId ++ ":task:" ++ toString sequence

variable {F : Type}

def optionalText : Option String → Json F
  | none => .null
  | some s => .str s

def texts (items : List String) : Json F := .arr (items.map .str)

def SessionTaskState.toPayload (s : SessionTaskState) : List (String × Json F) :=
  [("schema_version", .int taskStateSchemaVersion), ("task_id", .str s.taskId),
    ("objective", .str s.objective), ("session_id", .str s.sessionId),
    ("sequence", .int s.sequence), ("origin", .str s.origin),
    ("origin_event_id", optionalText s.originEventId), ("accepted_at", .str s.acceptedAt),
    ("amendments", texts s.amendments), ("prior_objectives", texts s.priorObjectives),
    ("resumed_from_session_id", optionalText s.resumedFromSessionId),
    ("request_id", optionalText s.requestId),
    ("parent_session_id", optionalText s.parentSessionId),
    ("objective_truncated", .bool s.objectiveTruncated)]

/-! ### Reading a payload -/

/-- `not text.strip()` -/
def isBlank (text : String) : Bool := strip text == ""

/-- `_STATE_REQUIRED_KEYS`, in the order of their names. -/
def stateRequiredKeys : List String := ["objective", "sequence", "session_id", "task_id"]

def stateOptionalKeys : List String :=
  ["schema_version", "origin", "origin_event_id", "accepted_at", "amendments",
    "prior_objectives", "resumed_from_session_id", "request_id", "parent_session_id",
    "objective_truncated"]

/-- `payload.get(key, default)` -/
def getD (members : List (String × Json F)) (key : String) (default : Json F) : Json F :=
  (members.lookup key).getD default

/-- The keys a payload should not have, or lacks. -/
def unknownKeys (members : List (String × Json F)) : List String :=
  ((members.map (·.1)).filter fun key =>
    !(stateRequiredKeys ++ stateOptionalKeys).contains key).insertionSort (· ≤ ·)

def missingKeys (members : List (String × Json F)) : List String :=
  stateRequiredKeys.filter fun key => !(members.map (·.1)).contains key

def requiredText (members : List (String × Json F)) (key reason : String) :
    Except String String :=
  match Json.get members key with
  | .str s => if isBlank s then .error reason else .ok s
  | _ => .error reason

def optionalStr (members : List (String × Json F)) (key reason : String) :
    Except String (Option String) :=
  match Json.get members key with
  | .null => .ok none
  | .str s => if isBlank s then .error reason else .ok (some s)
  | _ => .error reason

def readSequence (members : List (String × Json F)) : Except String Nat :=
  match Json.get members "sequence" with
  | .int n => if n < 1 then .error "state_sequence_invalid" else .ok n.toNat
  | _ => .error "state_sequence_invalid"

def readOrigin (members : List (String × Json F)) : Except String String :=
  match getD members "origin" (.str "user_instruction") with
  | .str s => if taskOrigins.contains s then .ok s else .error "state_origin_invalid"
  | _ => .error "state_origin_invalid"

def readAcceptedAt (members : List (String × Json F)) : Except String String :=
  match getD members "accepted_at" (.str "") with
  | .str s => .ok s
  | _ => .error "state_accepted_at_invalid"

def listText : Json F → Option String
  | .str s => if isBlank s then none else some s
  | _ => none

/-- `_string_list`; an absent list is empty. -/
def stringList (members : List (String × Json F)) (key reason : String) (limit : Option Nat) :
    Except String (List String) :=
  match getD members key (.arr []) with
  | .arr items =>
    if limit.any (· < items.length) then .error reason
    else (items.mapM listText).elim (.error reason) .ok
  | _ => .error reason

def readObjectiveTruncated (members : List (String × Json F)) : Except String Bool :=
  match getD members "objective_truncated" (.bool false) with
  | .bool b => .ok b
  | _ => .error "state_objective_truncated_invalid"

def checkSchema (members : List (String × Json F)) : Except String Unit :=
  if unknownKeys members ≠ [] then
    .error ("state_unknown_fields:" ++ ",".intercalate (unknownKeys members))
  else if missingKeys members ≠ [] then
    .error ("state_missing_fields:" ++ ",".intercalate (missingKeys members))
  else
    match getD members "schema_version" (.int taskStateSchemaVersion) with
    | .int n =>
      if n = taskStateSchemaVersion then .ok () else .error "unsupported_task_state_schema"
    | _ => .error "unsupported_task_state_schema"

def checkTaskId (taskId sessionId : String) (sequence : Nat) : Except String Unit :=
  if taskId = makeTaskId sessionId sequence then .ok ()
  else .error "state_task_id_inconsistent"

def validateTaskStatePayload : Json F → Except String SessionTaskState
  | .obj members => do
    checkSchema members
    let taskId ← requiredText members "task_id" "state_task_id_invalid"
    let objective ← requiredText members "objective" "state_objective_invalid"
    let sessionId ← requiredText members "session_id" "state_session_id_invalid"
    let sequence ← readSequence members
    checkTaskId taskId sessionId sequence
    let origin ← readOrigin members
    let acceptedAt ← readAcceptedAt members
    let originEventId ← optionalStr members "origin_event_id" "state_origin_event_id_invalid"
    let resumedFromSessionId ←
      optionalStr members "resumed_from_session_id" "state_resumed_from_session_id_invalid"
    let requestId ← optionalStr members "request_id" "state_request_id_invalid"
    let parentSessionId ← optionalStr members "parent_session_id" "state_parent_session_id_invalid"
    let amendments ← stringList members "amendments" "state_amendments_invalid" none
    let priorObjectives ←
      stringList members "prior_objectives" "state_prior_objectives_invalid"
        (some taskPriorObjectivesMax)
    let objectiveTruncated ← readObjectiveTruncated members
    .ok
      { taskId, objective, sessionId, sequence, origin, originEventId, acceptedAt, amendments,
        priorObjectives, resumedFromSessionId, requestId, parentSessionId, objectiveTruncated }
  | _ => .error "state_not_an_object"

/-! ### Transitions -/

inductive TaskRelation where
  | auto
  | newTask
  | continuation
  | amendment
  deriving DecidableEq

def TaskRelation.text : TaskRelation → String
  | .auto => "auto"
  | .newTask => "new_task"
  | .continuation => "continuation"
  | .amendment => "amendment"

/-- `validate_task_relation`; `none` is its `ValueError`. -/
def validateTaskRelation (value : Option String) : Option TaskRelation :=
  let text := lower (strip (value.getD ""))
  if text = "" then some .auto
  else [TaskRelation.auto, .newTask, .continuation, .amendment].find? (·.text == text)

inductive Provenance where
  | acceptedTurn
  | legacyLog
  deriving DecidableEq

/-- What the host puts in front of its own messages. -/
def hostMarkers : List String :=
  ["<<<ALYSIS_CONVERSATION_MEMORY_JSON>>>", "<<<ALYSIS_CONVERSATION_PINS_JSON>>>",
    "Repo summary", "Repository conventions context", "<skill_context>",
    "<matched_skill_context>", "<explicit_skill_context>", "<repo_conventions>",
    "<resume_context>", "<workspace_binding_context>", "<scoped_prompt_prelude>",
    "<task_brief>", "<task_requirements>", "<subagent_context>", "<environment_context>"]

def isHostManagedUserContextMessage (clean : String) : Bool :=
  hostMarkers.any fun marker => marker.toList.isPrefixOf clean.toList

def instructionIsTaskCandidate (instruction : String) (provenance : Provenance) : Bool :=
  let clean := strip instruction
  if clean = "" then false
  else if isHostManagedUserContextMessage clean then false
  else if provenance = .legacyLog && ['/', ':'].any (clean.toList.head? == some ·) &&
      !clean.toList.contains '\n' then false
  else true

/-- `_accepted_objective`: the text, and whether it was cut. -/
def acceptedObjective (instruction : String) : String × Bool :=
  if instruction.toList.length ≤ taskObjectiveMaxChars then (instruction, false)
  else (String.ofList (instruction.toList.take taskObjectiveMaxChars), true)

inductive TransitionKind where
  | accepted
  | replaced
  | amended
  | kept
  | ignored
  | deferred
  deriving DecidableEq

def TransitionKind.text : TransitionKind → String
  | .accepted => "accepted"
  | .replaced => "replaced"
  | .amended => "amended"
  | .kept => "kept"
  | .ignored => "ignored"
  | .deferred => "deferred"

structure TaskTransition where
  kind : TransitionKind
  relation : TaskRelation
  state : Option SessionTaskState
  reason : String := ""

def TaskTransition.changed (t : TaskTransition) : Bool :=
  t.kind = .accepted || t.kind = .replaced || t.kind = .amended

/-- What `transition_task_state` is given about the instruction and the session. -/
structure Offer where
  instruction : String
  relation : TaskRelation
  sessionId : String
  originEventId : Option String
  origin : String
  now : String
  requestId : Option String
  parentSessionId : Option String
  nextSequence : Option Nat
  provenance : Provenance
  unrecovered : Bool

/-- `str(request_id or "").strip() or None` -/
def Offer.cleanRequestId (offer : Offer) : Option String := offer.requestId.bind stripped

/-- The task that an instruction becomes. -/
def Offer.newTask (offer : Offer) (sequence : Nat) (priorObjectives : List String) :
    SessionTaskState where
  taskId := makeTaskId offer.sessionId sequence
  objective := (acceptedObjective offer.instruction).1
  sessionId := offer.sessionId
  sequence := sequence
  origin := offer.origin
  originEventId := offer.originEventId
  acceptedAt := offer.now
  priorObjectives := priorObjectives
  requestId := offer.cleanRequestId
  parentSessionId := offer.parentSessionId
  objectiveTruncated := (acceptedObjective offer.instruction).2

/-- The part of `transition_task_state` behind the checks on the request: what an instruction
does where a task is active. -/
def replaceOrAmend (current : SessionTaskState) (offer : Offer) : TaskTransition :=
  match offer.relation with
  | .newTask =>
    let sequence := max (current.sequence + 1) (offer.nextSequence.getD 0)
    let prior := (current.objective :: current.priorObjectives).take taskPriorObjectivesMax
    { kind := .replaced, relation := .newTask, state := some (offer.newTask sequence prior) }
  | .amendment =>
    if offer.instruction = current.objective ∨ offer.instruction ∈ current.amendments then
      { kind := .kept, relation := .amendment, state := some current,
        reason := "no_new_constraint" }
    else
      { kind := .amended, relation := .amendment,
        state := some { current with amendments := offer.instruction :: current.amendments } }
  | relation =>
    { kind := .kept, relation := relation, state := some current, reason := "objective_kept" }

def transitionTaskState (current : Option SessionTaskState) (offer : Offer) : TaskTransition :=
  if ¬instructionIsTaskCandidate offer.instruction offer.provenance then
    { kind := .ignored, relation := offer.relation, state := current, reason := "not_a_task" }
  else
    match current with
    | some current =>
      if offer.cleanRequestId.isSome ∧ current.requestId = offer.cleanRequestId then
        { kind := .kept, relation := offer.relation, state := some current,
          reason := "same_request" }
      else replaceOrAmend current offer
    | none =>
      if offer.unrecovered ∧ offer.relation ≠ .newTask then
        { kind := .deferred, relation := offer.relation, state := none,
          reason := "task_unrecovered_explicit_new_task_required" }
      else
        { kind := .accepted, relation := offer.relation,
          state := some (offer.newTask (max 1 (offer.nextSequence.getD 1)) []) }

end AlysisCode.Task
