/-
A round of the compactor: the summary it asks for, the pins it keeps, and the commit.

The chunk, the summary and the pins are published one after another, each in one step.  Where
one fails the others are put back, which can fail in its turn, and the process can die at any
step.  The summary and the pins a compactor starts with are read from what was published, as
long as the log does not say that the history was cut behind them.
-/
import AlysisCode.Compaction.Turns

namespace AlysisCode.Compaction

variable {F S : Type}

/-! ### Artifacts -/

inductive File (α : Type) where
  | absent
  | damaged
  | holds (value : α)

/-- What `strip_provider_metadata_from_message` takes out. -/
def metadataKeys : List String :=
  ["_alysis_provider_metadata", "alysis_internal_artifact", "_alysis_resume_context",
    "reasoning_content", "reasoning", "reasoning_details"]

/-- A line of a history chunk. -/
structure HistoryEntry (F : Type) where
  idx : Nat
  message : Message F
  internalMessage : Option (Message F)

def historyChunkPayload (idx : Nat) (message : Message F) : HistoryEntry F where
  idx := idx
  message := message.filter fun member => member.1 ∉ metadataKeys
  internalMessage :=
    if message.any fun member => member.1 == "_alysis_provider_metadata" then some message else none

/-- `_serialize_history_chunk` -/
def historyChunk (messages : List (Message F)) (firstIdx : Nat) : List (HistoryEntry F) :=
  messages.mapIdx fun offset message => historyChunkPayload (firstIdx + offset) message

/-- The files of a session that the compactor writes. -/
structure Artifacts (F : Type) where
  history : List (Nat × List (HistoryEntry F))
  summary : File (Members F)
  pins : File (List PublicPin)

def Artifacts.unlinkHistory (a : Artifacts F) (index : Nat) : Artifacts F :=
  { a with history := a.history.filter fun chunk => chunk.1 ≠ index }

def Artifacts.publishHistory (a : Artifacts F) (index : Nat) (entries : List (HistoryEntry F)) :
    Artifacts F :=
  { a with history := (a.unlinkHistory index).history ++ [(index, entries)] }

/-! ### The commit -/

/-- What becomes of a step; the process may die before it. -/
inductive Fate where
  | done
  | fails
  | dies
  deriving DecidableEq

/-- What a rollback leaves of a file: what it held, what was published, or part of a text. -/
inductive Rollback where
  | done
  | kept
  | damaged
  deriving DecidableEq

structure CommitFates where
  /-- The files are staged, and what they held is read. -/
  staged : Fate := .done
  (history summary pins : Fate := .done)
  /-- The chunk is unlinked again. -/
  unlinked : Fate := .done
  restored : Rollback := .done
  /-- The process outlives the rollback of the summary. -/
  survives : Bool := true
  /-- The event of the round is appended. -/
  appended : Fate := .done

/-- `_restore_execution_artifact`; a file that did not exist is unlinked. -/
def restoreExecutionArtifact {α : Type} (fate : Rollback) (previous published : File α) : File α :=
  match fate, previous with
  | .done, _ => previous
  | .kept, _ => published
  | .damaged, .absent => published
  | .damaged, _ => .damaged

/-- `_commit_execution_artifacts`: the artifacts, and whether they were committed if the process
is still alive. -/
def commitExecutionArtifacts (fates : CommitFates) (index : Nat) (entries : List (HistoryEntry F))
    (summary : Members F) (pins : List (Pin S)) (a : Artifacts F) : Artifacts F × Option Bool :=
  match fates.staged, fates.history, fates.summary with
  | .dies, _, _ => (a, none)
  | .fails, _, _ => (a, some false)
  | .done, .dies, _ => (a, none)
  | .done, .fails, _ => (a, some false)
  | .done, .done, .dies => (a.publishHistory index entries, none)
  | .done, .done, .fails =>
    match fates.unlinked with
    | .dies => (a.publishHistory index entries, none)
    | .fails => (a.publishHistory index entries, some false)
    | .done => ((a.publishHistory index entries).unlinkHistory index, some false)
  | .done, .done, .done =>
    let published := { a.publishHistory index entries with summary := .holds summary }
    if pins = [] then (published, some true)
    else
      match fates.pins, fates.unlinked with
      | .done, _ => ({ published with pins := .holds (pins.map publicPin) }, some true)
      | .dies, _ => (published, none)
      | .fails, .dies => (published, none)
      | .fails, unlinked =>
        let left := if unlinked = .done then published.unlinkHistory index else published
        ({ left with summary := restoreExecutionArtifact fates.restored a.summary published.summary },
          if fates.survives then some false else none)

/-! ### The log -/

inductive LogEvent where
  | conversationCleared
  | subagentHistoryRolloverArmed
  | conversationSummaryUpdated
  | other (type : String)
  deriving DecidableEq

def LogEvent.isBoundary : LogEvent → Bool
  | .conversationCleared => true
  | .subagentHistoryRolloverArmed => true
  | _ => false

/-- The indices of the latest boundary and of the latest summary among the events from `index`
on. -/
def latestIndices (boundary summary : Int) (index : Nat) : List LogEvent → Int × Int
  | [] => (boundary, summary)
  | event :: rest =>
    if event.isBoundary then latestIndices index summary (index + 1) rest
    else if event = .conversationSummaryUpdated then latestIndices boundary index (index + 1) rest
    else latestIndices boundary summary (index + 1) rest

/-- `_history_boundary_is_newer_than_summary` -/
def historyBoundaryIsNewer (events : List LogEvent) : Bool :=
  let latest := latestIndices (-1) (-1) 0 events
  latest.2 < latest.1

/-! ### The state -/

/-- `CompactionState` -/
structure State (F S : Type) where
  summary : Members F
  historyChunkIndex : Nat
  memoryMessageIndex : Option Nat
  pinnedPrefixLen : Nat
  pins : List (Pin S)
  pinsMessageIndex : Option Nat

section Restore

variable [Json.Floats F] [LinearOrder S] [Zero S]

variable (host : Host F S) (python : Python F) (settings : Settings S) (state : State F S)

def restoredSummary (a : Artifacts F) : Members F :=
  match a.summary with
  | .holds summary => (normalizeSummary python (.obj summary) []).getD []
  | _ => []

def restoredPins (a : Artifacts F) : List (Pin S) :=
  match a.pins with
  | .holds pins => boundedPins F settings (pins.map restoredPin)
  | _ => []

/-- `_restore_state_from_artifacts`, of a new compactor. -/
def restoreState (pinnedPrefixLen : Nat) (events : List LogEvent) (a : Artifacts F) : State F S :=
  let suppressed := historyBoundaryIsNewer events
  { summary := if suppressed then [] else restoredSummary python a
    historyChunkIndex := (a.history.map (·.1)).foldl max 0
    memoryMessageIndex := none
    pinnedPrefixLen := pinnedPrefixLen
    pins := if suppressed then [] else restoredPins settings a
    pinsMessageIndex := none }

/-- `reset_for_model_history_boundary` -/
def State.reset : State F S where
  summary := []
  historyChunkIndex := state.historyChunkIndex
  memoryMessageIndex := none
  pinnedPrefixLen := state.pinnedPrefixLen
  pins := []
  pinsMessageIndex := none

/-! ### A round -/

/-- What becomes of the attempt to compact a chunk: the JSON values of the summariser's replies,
where they are JSON, and whether the request gets smaller. -/
structure Call (F : Type) where
  reply : Option (Json F)
  retry : Option (Json F)
  shrinks : Bool

def callCompactor (previous : Members F) (reply : Option (Json F)) :
    Option (Members F) :=
  reply.bind fun value => normalizeSummary python value previous

/-- `_ExecutionCompactionPreview`, and the pins that were extracted for it. -/
structure Preview (F S : Type) where
  updated : Upserted F
  summary : Members F
  extracted : List (Pin S)
  pins : List (Pin S)

/-- `messages[:start] + messages[stop:]` -/
def without (messages : List (Message F)) (start stop : Nat) : List (Message F) :=
  messages.take start ++ messages.drop stop

/-- `_stage_execution_compaction_preview`, and what a chat does instead of it. -/
def stagePreview (working : List (Message F)) (plan : ChunkPlan S) (call : Call F) :
    Option (Preview F S) :=
  let first := callCompactor host.python state.summary call.reply
  let newSummary := first.orElse fun _ => callCompactor host.python state.summary call.retry
  newSummary.bind fun summary =>
    let extracted :=
      extractPinsForChunk settings (host.historyPath (state.historyChunkIndex + 1)) plan.scoredTurns
    let pins :=
      if extracted = [] then state.pins else boundedPins F settings (state.pins ++ extracted)
    if call.shrinks then
      some
        { updated := upsertContextMessages host.python state.pinnedPrefixLen
            (without working plan.start plan.stop) summary pins
          summary := summary
          extracted := extracted
          pins := pins }
    else none

structure Live (F S : Type) where
  state : State F S
  artifacts : Artifacts F
  events : List LogEvent

inductive RoundEnd (F S : Type) where
  | committed (preview : Preview F S)
  | refused
  /-- The event could not be appended, behind the commit. -/
  | raised (preview : Preview F S)
  /-- The process died; behind the commit if there is a preview. -/
  | died (preview : Option (Preview F S))

def selectPreview (working : List (Message F)) (plans : List (ChunkPlan S))
    (calls : ChunkPlan S → Call F) :
    Option (ChunkPlan S × Preview F S) :=
  plans.findSome? fun plan =>
    (stagePreview host settings state working plan (calls plan)).map (plan, ·)

def State.commit (preview : Preview F S) : State F S where
  summary := preview.summary
  historyChunkIndex := state.historyChunkIndex + 1
  memoryMessageIndex := some preview.updated.memoryMessageIndex
  pinnedPrefixLen := state.pinnedPrefixLen
  pins := preview.pins
  pinsMessageIndex := preview.updated.pinsMessageIndex

def compactRound (working : List (Message F)) (plans : List (ChunkPlan S))
    (calls : ChunkPlan S → Call F) (fates : CommitFates) (live : Live F S) :
    Live F S × RoundEnd F S :=
  match selectPreview host settings live.state working plans calls with
  | none => (live, .refused)
  | some (plan, preview) =>
    let (a, committed) :=
      commitExecutionArtifacts fates (live.state.historyChunkIndex + 1)
        (historyChunk (slice working plan.start plan.stop) plan.start) preview.summary preview.pins
        live.artifacts
    match committed with
    | none => ({ live with artifacts := a }, .died none)
    | some false => ({ live with artifacts := a }, .refused)
    | some true =>
      let state := live.state.commit preview
      match fates.appended with
      | .done =>
        ({ state := state
           artifacts := a
           events := live.events ++ [.conversationSummaryUpdated] }, .committed preview)
      | .fails => ({ live with state := state, artifacts := a }, .raised preview)
      | .dies => ({ live with state := state, artifacts := a }, .died (some preview))

end Restore

end AlysisCode.Compaction
