/-
The log of a session, and how it is read.

A record is a JSON object on a line of its own.  What a failed append left behind is disowned
by a boundary, which names the bytes; it stands in the log as a marker, or beside it in the
sidecar as long as the marker could not be written.  The writer leaves nothing outside ASCII,
so a character is a byte.
-/
import AlysisCode.Ide.Python
import AlysisCode.Library.JsonPrefix
import AlysisCode.Library.LineLog

namespace AlysisCode.SessionStore

abbrev Members (F : Type) := List (String × Json F)

variable {F : Type} [Json.Floats F]

/-- `json.dumps(…, ensure_ascii=True)` -/
def asciiStyle : Json.Style where
  ascii := true
  spaced := true
  sortKeys := false

def dumps (record : Members F) : List Char := (Json.dumps asciiStyle (.obj record)).toList

/-- `json.loads`, of which only objects are kept. -/
def loadsDict (text : String) : Option (Members F) :=
  match Json.loads text with
  | some (.obj members) => some members
  | _ => none

def readLine (raw : List Char) : Option (Members F) :=
  let line := strip (String.ofList raw)
  if line = "" then none else loadsDict line

/-- What a session has on disk. -/
structure Disk where
  log : List Char
  sidecar : Option (List Char)

def iterLogLines (log : List Char) : List (Nat × Members F) := LineLog.records readLine log

variable (python : Python F) (disk : Disk)

def readUncommittedSidecar : Option (Members F) :=
  disk.sidecar.bind fun text => loadsDict (String.ofList text)

/-! ### Boundaries -/

def sessionStoreUncommittedEvent : String := "session_store_uncommitted"

def offsetOrNone : Json F → Option Nat
  | .int n => if n < 0 then none else some n.toNat
  | _ => none

inductive Source where
  | marker
  | sidecar
  deriving DecidableEq

structure UncommittedRange where
  start : Option Nat
  stop : Nat
  source : Source
  deriving DecidableEq

def isMarker (record : Members F) : Bool :=
  python.text (python.orElse (Json.get record "type") (.str "")) == sessionStoreUncommittedEvent

def boundaryOf (record : Members F) : Members F :=
  match Json.get record "payload" with
  | .obj boundary => boundary
  | _ => []

def markerRange (offset : Nat) (record : Members F) : UncommittedRange where
  start := offsetOrNone (Json.get (boundaryOf record) "from_offset")
  stop :=
    match offsetOrNone (Json.get (boundaryOf record) "to_offset") with
    | none => offset
    | some stop => min stop offset
  source := .marker

def markerRanges (records : List (Nat × Members F)) : List UncommittedRange :=
  (records.filter fun x => isMarker python x.2).map fun x => markerRange x.1 x.2

def sidecarRange (starts : List (Option Nat)) (disk : Disk) (boundary : Members F) :
    List UncommittedRange :=
  let start := offsetOrNone (Json.get boundary "from_offset")
  if start ∈ starts then []
  else
    [{ start := start
       stop := (offsetOrNone (Json.get boundary "to_offset")).getD disk.log.length
       source := .sidecar }]

def uncommittedRanges : List UncommittedRange :=
  let markers := markerRanges python (iterLogLines disk.log)
  markers ++
    match readUncommittedSidecar (F := F) disk with
    | none => []
    | some boundary => sidecarRange (markers.map (·.start)) disk boundary

/-! ### Reading the log -/

/-- A range that says where it begins. -/
def UncommittedRange.identified (range : UncommittedRange) : Option (Nat × Nat) :=
  range.start.map (·, range.stop)

def hides (ranges : List (Nat × Nat)) (offset : Nat) : Bool :=
  ranges.any fun range => range.1 ≤ offset && offset < range.2

def yielded (identified : List (Nat × Nat)) (x : Nat × Members F) : List (Members F) :=
  if isMarker python x.2 then
    match Json.get x.2 "payload" with
    | .obj payload =>
      if offsetOrNone (Json.get payload "from_offset") = none then
        [Json.assign x.2 "payload" (.obj (Json.assign payload "unidentified" (.bool true)))]
      else []
    | _ => []
  else if hides identified x.1 then []
  else [x.2]

/-- What is yielded for a sidecar that does not say where it begins. -/
def unidentifiedSidecar (range : UncommittedRange) : List (Members F) :=
  if range.start = none ∧ range.source = .sidecar then
    [[("type", .str sessionStoreUncommittedEvent),
      ("payload", .obj [("from_offset", .null), ("to_offset", .int range.stop),
        ("source", .str "sidecar"), ("unidentified", .bool true)])]]
  else []

def readSessionEvents : List (Members F) :=
  let ranges := uncommittedRanges python disk
  (iterLogLines disk.log).flatMap (yielded python (ranges.filterMap (·.identified))) ++
    ranges.flatMap unidentifiedSidecar

end AlysisCode.SessionStore

/-! ### Writing the log

Writing the log of a session.

Any write may fail or be cut off by the death of the process, with any part of its text on
disk.  An append that failed is undone: the log is truncated, or what the attempt left is
disowned by a marker, or by a sidecar until the marker can be written; where not even the
sidecar was written the store owes the boundary and refuses every further record.
-/

namespace AlysisCode.SessionStore

variable {F : Type} [Json.Floats F]

/-! ### Writes -/

/-- What becomes of a write, with how much of the text reaches the disk. -/
inductive Fate where
  | done
  /-- The file cannot be opened. -/
  | unopened
  | fails (n : Nat)
  | dies (n : Nat)
  deriving DecidableEq

/-- What reaches the disk. -/
def Fate.written (fate : Fate) (text : List Char) : List Char :=
  match fate with
  | .done => text
  | .unopened => []
  | .fails n => text.take n
  | .dies n => text.take n

/-- Whether the write returned; nothing when the process died. -/
def Fate.answer : Fate → Option Bool
  | .done => some true
  | .unopened => some false
  | .fails _ => some false
  | .dies _ => none

def Disk.append (disk : Disk) (text : List Char) : Disk := { disk with log := disk.log ++ text }

/-- `_uncommitted_marker_line`, its record. -/
def uncommittedMarker (sessionId ts : String) (boundary : Members F) : Members F :=
  [("type", .str sessionStoreUncommittedEvent), ("ts", .str ts), ("session_id", .str sessionId),
    ("payload", .obj boundary)]

def uncommittedMarkerLine (sessionId ts : String) (boundary : Members F) : List Char :=
  '\n' :: dumps (uncommittedMarker sessionId ts boundary) ++ ['\n']

/-- `_write_uncommitted_marker`; the sidecar is removed behind a marker. -/
def writeUncommittedMarker (sessionId ts : String) (boundary : Members F) (fate : Fate)
    (disk : Disk) : Disk × Option Bool :=
  let disk := disk.append (fate.written (uncommittedMarkerLine sessionId ts boundary))
  (if fate = .done then { disk with sidecar := none } else disk, fate.answer)

/-- `_write_uncommitted_sidecar`; what the file held is gone once it is open. -/
def writeUncommittedSidecar (boundary : Members F) (fate : Fate) (disk : Disk) :
    Disk × Option Bool :=
  (if fate = .unopened then disk else { disk with sidecar := some (fate.written (dumps boundary)) },
    fate.answer)

/-- The fates of a boundary's two writes. -/
structure BoundaryFates where
  marker : Fate := .done
  sidecar : Fate := .done
  /-- The clock, when the marker is written. -/
  ts : String := ""

/-- `_record_uncommitted_boundary` -/
inductive Recorded where
  | marker
  | sidecar
  | none
  deriving DecidableEq

def recordUncommittedBoundary (sessionId : String) (boundary : Members F) (fates : BoundaryFates)
    (disk : Disk) : Disk × Option Recorded :=
  match writeUncommittedMarker sessionId fates.ts boundary fates.marker disk with
  | (disk, none) => (disk, none)
  | (disk, some true) => (disk, some .marker)
  | (disk, some false) =>
    match writeUncommittedSidecar boundary fates.sidecar disk with
    | (disk, none) => (disk, none)
    | (disk, some true) => (disk, some .sidecar)
    | (disk, some false) => (disk, some .none)

/-- `reconcile`, where a boundary is pending. -/
def reconcile (sessionId : String) (boundary : Members F) (fates : BoundaryFates) (disk : Disk) :
    Disk × Option Bool :=
  match recordUncommittedBoundary sessionId boundary fates disk with
  | (disk, none) => (disk, none)
  | (disk, some recorded) => (disk, some (recorded = .marker))

/-! ### Events -/

/-- What a store puts into every event, as it stands when the event is built. -/
structure Attributes where
  ts : String := ""
  cwd : String := ""
  repoRoot : Option String := none
  pid : Int := 0
  (workspaceRoot owner focusDir gitRoot workspaceKind bindingSource bindingRequestedPath
    bindingRiskLevel : Option String := none)
  bindingCreatedPath : Option Bool := none
  (runtimeKind activeWorkdir activeWorkdirRelpath : Option String := none)

def optionalMember (key : String) (value : Option (Json F)) : Members F :=
  value.toList.map (key, ·)

/-- The members that an event has only where the store has the value. -/
def Attributes.optional (a : Attributes) : Members F :=
  optionalMember "workspace_root" (a.workspaceRoot.map .str) ++
  optionalMember "owner" (a.owner.map .str) ++
  optionalMember "focus_dir" (a.focusDir.map .str) ++
  optionalMember "git_root" (a.gitRoot.map .str) ++
  optionalMember "workspace_kind" (a.workspaceKind.map .str) ++
  optionalMember "binding_source" (a.bindingSource.map .str) ++
  optionalMember "binding_requested_path" (a.bindingRequestedPath.map .str) ++
  optionalMember "binding_risk_level" (a.bindingRiskLevel.map .str) ++
  optionalMember "binding_created_path" (a.bindingCreatedPath.map .bool) ++
  optionalMember "runtime_kind" (a.runtimeKind.map .str) ++
  optionalMember "active_workdir" (a.activeWorkdir.map .str) ++
  optionalMember "active_workdir_relpath" (a.activeWorkdirRelpath.map .str)

/-- What an append is given.  A dict names no key twice, and the type of a marker is the
store's own. -/
structure AppendCall (F : Type) where
  eventType : String
  payload : Members F
  attributes : Attributes := {}
  distinct : (Json.obj payload).Distinct
  notMarker : eventType ≠ sessionStoreUncommittedEvent

/-- `f"{session_id}:{n}"` -/
def eventId (sessionId : String) (n : Nat) : String := sessionId ++ ":" ++ toString n

/-- `_build_event`, and the id that `append` puts into the event. -/
def AppendCall.event (call : AppendCall F) (sessionId : String) (n : Nat) : Members F :=
  [("type", .str call.eventType), ("ts", .str call.attributes.ts),
    ("session_id", .str sessionId), ("cwd", .str call.attributes.cwd),
    ("repo_root", (call.attributes.repoRoot.map Json.str).getD .null),
    ("pid", .int call.attributes.pid), ("payload", .obj call.payload)] ++
  call.attributes.optional ++ [("event_id", .str (eventId sessionId n))]

/-! ### Appending -/

structure Store (F : Type) where
  events : List (Members F)
  pendingUncommitted : Option (Members F) := none
  handle : Bool := true

inductive Outcome where
  | returned
  | refused
  | indeterminate
  /-- The process died. -/
  | inFlight
  deriving DecidableEq

structure AppendFates where
  pending : BoundaryFates := {}
  reopens : Bool := true
  write : Fate := .done
  truncates : Bool := true
  boundary : BoundaryFates := {}
  /-- The clock, when the boundary is made. -/
  ts : String := ""

/-- What an operation leaves: the disk, and the store unless its process died. -/
structure Left (F : Type) where
  disk : Disk
  store : Option (Store F)

/-- The boundary of a failed attempt. -/
def boundary (start stop : Nat) (eventType ts : String) : Members F :=
  [("from_offset", .int start), ("to_offset", .int stop), ("event_type", .str eventType),
    ("ts", .str ts)]

/-- `_discard_partial_record`, of an attempt that began at `start`. -/
def discardPartialRecord (sessionId : String) (call : AppendCall F) (fates : AppendFates)
    (start : Nat) (store : Store F) (disk : Disk) : Left F × Outcome :=
  let store := { store with handle := false }
  if disk.log.length ≤ start then (⟨disk, some store⟩, .refused)
  else if fates.truncates then
    (⟨{ disk with log := disk.log.take start }, some store⟩, .refused)
  else
    let owed := boundary start disk.log.length call.eventType fates.ts
    match recordUncommittedBoundary sessionId owed fates.boundary disk with
    | (disk, none) => (⟨disk, none⟩, .inFlight)
    | (disk, some .marker) => (⟨disk, some store⟩, .refused)
    | (disk, some .sidecar) =>
      (⟨disk, some { store with pendingUncommitted := some owed }⟩, .refused)
    | (disk, some .none) =>
      (⟨disk, some { store with pendingUncommitted := some owed }⟩, .indeterminate)

/-- `_write_record`, and the publication of the event. -/
def writeRecord (sessionId : String) (call : AppendCall F) (fates : AppendFates)
    (store : Store F) (disk : Disk) : Left F × Outcome :=
  let event := call.event sessionId (store.events.length + 1)
  if ¬(store.handle ∨ fates.reopens) then (⟨disk, some store⟩, .refused)
  else
    let written := disk.append (fates.write.written (dumps event ++ ['\n']))
    match fates.write.answer with
    | none => (⟨written, none⟩, .inFlight)
    | some true =>
      (⟨written, some { store with events := store.events ++ [event], handle := true }⟩, .returned)
    | some false => discardPartialRecord sessionId call fates disk.log.length store written

def append (sessionId : String) (call : AppendCall F) (fates : AppendFates) (store : Store F)
    (disk : Disk) : Left F × Outcome :=
  match store.pendingUncommitted with
  | none => writeRecord sessionId call fates store disk
  | some owed =>
    match reconcile sessionId owed fates.pending disk with
    | (disk, none) => (⟨disk, none⟩, .inFlight)
    | (disk, some false) => (⟨disk, some store⟩, .indeterminate)
    | (disk, some true) =>
      writeRecord sessionId call fates { store with pendingUncommitted := none } disk

/-! ### Opening and closing -/

def close (sessionId : String) (fates : BoundaryFates) (store : Store F) (disk : Disk) : Disk :=
  match store.pendingUncommitted with
  | none => disk
  | some owed => (reconcile sessionId owed fates disk).1

/-- What becomes of the writes of an open. -/
structure OpenFates where
  opens : Bool := true
  marker : Fate := .done
  ts : String := ""
  /-- The close of a log whose sidecar could not be adopted. -/
  closing : BoundaryFates := {}

variable (python : Python F)

/-- The constructor of a durable store. -/
def openStore (sessionId : String) (fates : OpenFates) (disk : Disk) : Left F :=
  let store : Store F := { events := readSessionEvents python disk }
  if ¬fates.opens then ⟨disk, none⟩
  else
    match readUncommittedSidecar disk with
    | none => ⟨disk, some store⟩
    | some owed =>
      match writeUncommittedMarker sessionId fates.ts owed fates.marker disk with
      | (disk, none) => ⟨disk, none⟩
      | (disk, some true) => ⟨disk, some store⟩
      | (disk, some false) =>
        ⟨close sessionId fates.closing { store with pendingUncommitted := some owed } disk, none⟩

/-! ### Runs -/

/-- A log, and the process that has it open, if there is one. -/
structure World (F : Type) where
  disk : Disk
  store : Option (Store F)

inductive Op (F : Type) where
  | opened (fates : OpenFates)
  | append (call : AppendCall F) (fates : AppendFates)
  | reconcile (fates : BoundaryFates)
  | close (fates : BoundaryFates)
  /-- The process dies between two operations. -/
  | dies

/-- An append and how it ended. -/
structure Attempt (F : Type) where
  event : Members F
  outcome : Outcome

def reconcileStore (sessionId : String) (fates : BoundaryFates) (store : Store F) (disk : Disk) :
    World F :=
  match store.pendingUncommitted with
  | none => ⟨disk, some store⟩
  | some owed =>
    match reconcile sessionId owed fates disk with
    | (disk, none) => ⟨disk, none⟩
    | (disk, some true) => ⟨disk, some { store with pendingUncommitted := none }⟩
    | (disk, some false) => ⟨disk, some store⟩

/-- One operation of the process that has the log open; there is at most one. -/
def exec (sessionId : String) : Op F → World F → World F × Option (Attempt F)
  | .opened fates, ⟨disk, none⟩ =>
    let left := openStore python sessionId fates disk
    (⟨left.disk, left.store⟩, none)
  | .append call fates, ⟨disk, some store⟩ =>
    let (left, outcome) := append sessionId call fates store disk
    (⟨left.disk, left.store⟩,
      some { event := call.event sessionId (store.events.length + 1), outcome := outcome })
  | .reconcile fates, ⟨disk, some store⟩ => (reconcileStore sessionId fates store disk, none)
  | .close fates, ⟨disk, some store⟩ => (⟨close sessionId fates store disk, none⟩, none)
  | .dies, ⟨disk, _⟩ => (⟨disk, none⟩, none)
  | _, w => (w, none)

/-- A step of a run: an operation, and the append that it was, if it was one. -/
def Step (sessionId : String) (w : World F) (l : Op F × Option (Attempt F)) (w' : World F) : Prop :=
  exec python sessionId l.1 w = (w', l.2)

/-- A log that nobody has opened yet. -/
def World.start : World F where
  disk := { log := [], sidecar := none }
  store := none

/-- The appends of a run, in order. -/
def attempts (trace : List (Op F × Option (Attempt F))) : List (Attempt F) :=
  trace.filterMap (·.2)

end AlysisCode.SessionStore
