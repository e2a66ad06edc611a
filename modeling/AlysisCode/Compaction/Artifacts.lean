/-
The artifacts of an execution compaction, and how they are committed.

A history chunk, the summary and the pins are staged in temporary files and then moved over the
artifacts one after the other.  At most one step of a call fails, by an exception that the
environment chooses; a text with a surrogate does not encode, and that is an exception of its
own.  The writes of the rollback and the removal of temporary files succeed.
-/
import AlysisCode.Ide.Python
import AlysisCode.PromptQueue.Payload

namespace AlysisCode.Compaction.Artifacts

open Json PromptQueue

/-! ### Files -/

inductive Artifact where
  | history (index : Nat)
  | summary
  | pins
  deriving DecidableEq

/-- An artifact, or a temporary file beside it. -/
inductive FilePath where
  | artifact (a : Artifact)
  | staged (a : Artifact) (tag : String)
  deriving DecidableEq

abbrev Bytes := List UInt8

abbrev Files := FilePath → Option Bytes

/-- The names that `NamedTemporaryFile` finds: no file has them. -/
structure TempNames (files : Files) where
  tag : Artifact → String
  fresh : ∀ a, files (.staged a (tag a)) = none

def TempNames.path {files : Files} (temp : TempNames files) (a : Artifact) : FilePath :=
  .staged a (temp.tag a)

/-! ### What is written -/

section Texts

variable {F : Type}

/-- A dict whose keys and values may hold any code point. -/
abbrev Dict (F : Type) := List (PyStr × JsonValue F)

def literal (text : String) : PyStr := PyStr.ofString text

/-- `dict.pop(key, None)` -/
def popKey (key : String) (d : Dict F) : Dict F := d.filter fun m => m.1 ≠ literal key

def providerMetadataKey : String := "_alysis_provider_metadata"

/-- The keys that `strip_provider_metadata_from_message` takes out. -/
def strippedKeys : List String :=
  [providerMetadataKey, "alysis_internal_artifact", "_alysis_resume_context",
    "reasoning_content", "reasoning", "reasoning_details"]

/-- `strip_provider_metadata_from_message` -/
def stripProviderMetadata (message : Dict F) : Dict F :=
  strippedKeys.foldl (fun d key => popKey key d) message

def historyChunkPayload (idx : Nat) (message : Dict F) : JsonValue F :=
  let payload := [(literal "idx", .int idx),
    (literal "message", .obj (stripProviderMetadata message))]
  if message.any fun m => m.1 = literal providerMetadataKey then
    .obj (payload ++ [(literal "internal_message", .obj message)])
  else .obj payload

structure PinRecord (F : Type) where
  kind : PyStr
  text : PyStr
  reasons : List PyStr
  source : Dict F

/-- `reason.strip()` is not empty. -/
def notBlank (reason : PyStr) : Bool :=
  reason.any fun
    | .scalar c => !isSpace c
    | .surrogate _ => true

def publicPin (pin : PinRecord F) : JsonValue F :=
  .obj [(literal "kind", .str (if pin.kind = [] then literal "context" else pin.kind)),
    (literal "text", .str pin.text),
    (literal "reasons", .arr ((pin.reasons.filter notBlank).map .str)),
    (literal "source", .obj pin.source)]

structure Call (F : Type) where
  chunkMessages : List (Dict F)
  firstIdx : Nat
  summary : Dict F
  pins : List (PinRecord F)

variable (call : Call F)

def Call.historyRows : List (JsonValue F) :=
  call.chunkMessages.zipIdx.map fun m => historyChunkPayload (call.firstIdx + m.2) m.1

def Call.pinsPayload : JsonValue F :=
  .obj [(literal "pins", .arr (call.pins.map publicPin))]

variable [Floats F]

/-- `json.dumps(…, ensure_ascii=False)` -/
def lineStyle : Style where
  ascii := false
  spaced := true
  sortKeys := false

/-- A new line, indented by two blanks a level. -/
def newline (depth : Nat) : List Char := '\n' :: List.replicate (2 * depth) ' '

mutual
/-- `json.dumps(…, indent=2)`, at a depth. -/
def renderIndented (depth : Nat) : Json F → List Char
  | .arr [] => ['[', ']']
  | .arr (v :: rest) =>
    '[' :: newline (depth + 1) ++ renderIndented (depth + 1) v ++
      renderIndentedItems (depth + 1) rest ++ newline depth ++ [']']
  | .obj [] => ['{', '}']
  | .obj ((key, v) :: rest) =>
    '{' :: newline (depth + 1) ++ quote false key ++ ':' :: ' ' :: renderIndented (depth + 1) v ++
      renderIndentedMembers (depth + 1) rest ++ newline depth ++ ['}']
  | v => render lineStyle v
def renderIndentedItems (depth : Nat) : List (Json F) → List Char
  | [] => []
  | v :: rest =>
    ',' :: newline depth ++ renderIndented depth v ++ renderIndentedItems depth rest
/-- The members behind the first. -/
def renderIndentedMembers (depth : Nat) : List (String × Json F) → List Char
  | [] => []
  | (key, v) :: rest =>
    ',' :: newline depth ++ quote false key ++ ':' :: ' ' :: renderIndented depth v ++
      renderIndentedMembers depth rest
end

/-- A document on its own; `none`: the text does not encode. -/
def document (v : JsonValue F) : Option String :=
  v.encode.map fun w => String.ofList (renderIndented 0 w ++ ['\n'])

def serializeHistoryChunk (rows : List (JsonValue F)) : Option String :=
  (JsonValue.encodeItems rows).map fun rows =>
    String.ofList (rows.flatMap fun row => render lineStyle row ++ ['\n'])

def Call.text : Artifact → Option String
  | .history _ => serializeHistoryChunk call.historyRows
  | .summary => document (.obj call.summary)
  | .pins => document call.pinsPayload

/-- The strings of what an artifact will hold have no surrogate. -/
def Call.Encodes : Artifact → Prop
  | .history _ => ∀ row ∈ call.historyRows, row.hasSurrogate = false
  | .summary => (JsonValue.obj call.summary).hasSurrogate = false
  | .pins => ∀ pin ∈ call.pins, (publicPin pin).hasSurrogate = false

def Call.artifacts (index : Nat) : List Artifact :=
  [.history index, .summary] ++ if call.pins = [] then [] else [.pins]

end Texts

/-! ### Failures -/

inductive StageStep where
  | mkdir
  | create
  | write
  | close
  deriving DecidableEq

/-- What may fail. -/
inductive Step where
  | stage (a : Artifact) (step : StageStep)
  | existence (a : Artifact)
  | read (a : Artifact)
  | publish (a : Artifact)
  deriving DecidableEq

/-- `OSError`, the `UnicodeEncodeError` of a text, or any other exception. -/
inductive Raised where
  | osError (text : String)
  | unicodeEncodeError
  | other (text : String)
  deriving DecidableEq

def Raised.isOSError : Raised → Bool
  | .osError _ => true
  | _ => false

/-- A step that fails, and what the file it was writing then holds. -/
structure Failure where
  step : Step
  raised : Raised
  leaves : Bytes

/-- Where the call is interrupted, if it is. -/
abbrev Fault := Option Failure

def Fault.at (fault : Fault) (step : Step) : Option Raised :=
  (fault.filter (·.step = step)).map (·.raised)

def Fault.leaves (fault : Fault) : Bytes := (fault.map (·.leaves)).getD []

/-! ### Committing -/

inductive Event where
  | compactionWarning (warning error : String) (path : FilePath) (chunk : Option (Nat × Nat))
  | historyChunkWritten (path : FilePath) (count firstIdx lastIdx index : Nat)

structure World where
  files : Files
  events : List Event
  historyChunkIndex : Nat

abbrev Outcome (α : Type) := Except Raised α × World

/-- `except OSError`: a warning, and the value that says so. -/
def World.handle {α : Type} (w : World) (raised : Raised) (warning : String) (a : Artifact)
    (chunk : Option (Nat × Nat)) (value : α) : Outcome α :=
  match raised with
  | .osError error =>
    (.ok value, { w with
      events := w.events ++ [.compactionWarning warning error (.artifact a) chunk] })
  | raised => (.error raised, w)

def World.put (w : World) (path : FilePath) (bytes : Option Bytes) : World :=
  { w with files := Function.update w.files path bytes }

def bytesOf (text : String) : Bytes := text.toUTF8.toList

section Commit

variable (fault : Fault) {files : Files} (temp : TempNames files)

variable (a : Artifact)

/-- What the body of `_stage_artifact_text` raises, and what is then in the temporary file. -/
def writeStaged (contents : Option String) : Option Raised × Option Bytes :=
  match fault.at (.stage a .mkdir), fault.at (.stage a .create) with
  | some raised, _ => (some raised, none)
  | none, some raised => (some raised, none)
  | none, none =>
    match contents with
    | none =>
      -- the file is closed on the way out, and what that raises takes the place of the first
      ((fault.at (.stage a .close)).or (some .unicodeEncodeError), some [])
    | some text =>
      match (fault.at (.stage a .write)).or (fault.at (.stage a .close)) with
      | some raised => (some raised, some fault.leaves)
      | none => (none, some (bytesOf text))

def stageArtifactText (contents : Option String) (warning : String) (chunk : Option (Nat × Nat))
    (w : World) : Outcome (Option FilePath) :=
  let (raised, bytes) := writeStaged fault a contents
  let w := if bytes.isSome then w.put (temp.path a) bytes else w
  match raised with
  | some raised => w.handle raised warning a chunk none
  | none => (.ok (some (temp.path a)), w)

def readExistingArtifactBytes (warning : String) (w : World) : Outcome (Bool × Option Bytes) :=
  match fault.at (.existence a) with
  | some raised => w.handle raised warning a none (false, none)
  | none =>
    match w.files (.artifact a) with
    | none => (.ok (true, none), w)
    | some bytes =>
      match fault.at (.read a) with
      | some raised => w.handle raised warning a none (false, none)
      | none => (.ok (true, some bytes), w)

def publishStagedArtifact (staged : FilePath) (a : Artifact) (warning : String) (w : World) :
    Outcome Bool :=
  match fault.at (.publish a) with
  | some raised => w.handle raised warning a none false
  | none => (.ok true, (w.put (.artifact a) (w.files staged)).put staged none)

/-- `_restore_execution_artifact` -/
def World.restore (w : World) (a : Artifact) (previousBytes : Option Bytes) : World :=
  w.put (.artifact a) previousBytes

/-- `_cleanup_staged_artifact`, of each. -/
def World.cleanup (w : World) (staged : List FilePath) : World :=
  staged.foldl (fun w path => w.put path none) w

structure Staged where
  history : FilePath
  summary : FilePath
  pins : Option FilePath

variable {F : Type} [Floats F]

/-- The staging of `_commit_execution_artifacts`; `none`: it returned. -/
def stageAll (call : Call F) (index : Nat) (w : World) : Outcome (Option Staged) :=
  match stageArtifactText fault temp (.history index) (call.text (.history index))
      "history_chunk_write_failed" (some (call.firstIdx, call.chunkMessages.length)) w with
  | (.error raised, w) => (.error raised, w)
  | (.ok none, w) => (.ok none, w)
  | (.ok (some history), w) =>
    match stageArtifactText fault temp .summary (call.text .summary) "summary_write_failed" none
        w with
    | (.error raised, w) => (.error raised, w)
    | (.ok none, w) => (.ok none, w.cleanup [history])
    | (.ok (some summary), w) =>
      if call.pins = [] then (.ok (some ⟨history, summary, none⟩), w)
      else
        match stageArtifactText fault temp .pins (call.text .pins) "pins_write_failed" none w with
        | (.error raised, w) => (.error raised, w)
        | (.ok none, w) => (.ok none, w.cleanup [history, summary])
        | (.ok (some pins), w) => (.ok (some ⟨history, summary, some pins⟩), w)

def Staged.all (staged : Staged) : List FilePath :=
  [staged.history, staged.summary] ++ staged.pins.toList

/-- The reading of what the artifacts held; `none`: it returned. -/
def readPrevious (staged : Staged) (w : World) : Outcome (Option (Option Bytes)) :=
  match readExistingArtifactBytes fault .summary "summary_write_failed" w with
  | (.error raised, w) => (.error raised, w)
  | (.ok (false, _), w) => (.ok none, w.cleanup staged.all)
  | (.ok (true, previousSummary), w) =>
    match readExistingArtifactBytes fault .pins "pins_write_failed" w with
    | (.error raised, w) => (.error raised, w)
    | (.ok (false, _), w) => (.ok none, w.cleanup staged.all)
    | (.ok (true, _), w) => (.ok (some previousSummary), w)

/-- The publishing, with its rollback and its `finally`; `false`: it returned. -/
def publishAll (index : Nat) (staged : Staged) (previousSummary : Option Bytes) (w : World) :
    Outcome Bool :=
  match publishStagedArtifact fault staged.history (.history index) "history_chunk_write_failed"
      w with
  | (.error raised, w) => (.error raised, w.cleanup staged.all)
  | (.ok false, w) => (.ok false, w.cleanup staged.all)
  | (.ok true, w) =>
    match publishStagedArtifact fault staged.summary .summary "summary_write_failed" w with
    | (.error raised, w) => (.error raised, w.cleanup (staged.summary :: staged.pins.toList))
    | (.ok false, w) =>
      (.ok false, (w.restore (.history index) none).cleanup (staged.summary :: staged.pins.toList))
    | (.ok true, w) =>
      match staged.pins with
      | none => (.ok true, w)
      | some pins =>
        match publishStagedArtifact fault pins .pins "pins_write_failed" w with
        | (.error raised, w) => (.error raised, w.cleanup [pins])
        | (.ok false, w) =>
          (.ok false, ((w.restore (.history index) none).restore .summary previousSummary).cleanup
            [pins])
        | (.ok true, w) => (.ok true, w)

structure ExecutionArtifactCommit where
  historyPath : FilePath
  historyChunkIndex : Nat

/-- `_commit_execution_artifacts`.  All that its flags record has been published when the check
of them is reached. -/
def commitExecutionArtifacts (call : Call F) (w : World) :
    Outcome (Option ExecutionArtifactCommit) :=
  let index := w.historyChunkIndex + 1
  match stageAll fault temp call index w with
  | (.error raised, w) => (.error raised, w)
  | (.ok none, w) => (.ok none, w)
  | (.ok (some staged), w) =>
    match readPrevious fault staged w with
    | (.error raised, w) => (.error raised, w)
    | (.ok none, w) => (.ok none, w)
    | (.ok (some previousSummary), w) =>
      match publishAll fault index staged previousSummary w with
      | (.error raised, w) => (.error raised, w)
      | (.ok false, w) => (.ok none, w)
      | (.ok true, w) =>
        (.ok (some ⟨.artifact (.history index), index⟩), { w with
          events := w.events ++ [.historyChunkWritten (.artifact (.history index))
            call.chunkMessages.length call.firstIdx
            (call.firstIdx + (call.chunkMessages.length - 1)) index] })

end Commit

end AlysisCode.Compaction.Artifacts
