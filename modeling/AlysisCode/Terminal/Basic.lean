/-
Scavenging the terminal processes that an earlier process left behind.

Between any two system calls the world may change: processes exit and their numbers are given
again, inspections fail, other processes track and release.  So the world is a function of the
clock that counts the calls, and a scavenger is told by the calls it made and what they answered.
-/
import Mathlib.Data.List.Sort
import Mathlib.Data.String.Basic

namespace AlysisCode.Terminal

/-! ### Processes -/

/-- A process, told from every other by its number and its start. -/
structure Ident where
  pid : Int
  /-- The start token that `/proc` gives, or the process API of Windows. -/
  statToken : String
  /-- The start token that `ps` gives. -/
  psToken : String
  deriving DecidableEq

def Ident.is (i : Ident) (token : String) : Prop := token = i.statToken ∨ token = i.psToken

structure Proc where
  ident : Ident
  /-- Who made the process group. -/
  group : Ident
  led : group.pid = ident.pid → group = ident
  deriving DecidableEq

/-! ### Records -/

structure Payload where
  schemaVersion : Int
  recordId : String
  ownerPid : Int
  ownerStartToken : String
  childPid : Int
  childStartToken : String
  terminationMode : String
  posixPgid : Option Int
  cleanupKind : Option String
  cleanupId : Option String
  deriving DecidableEq

/-- A file is a JSON object with the fields of a record, or not. -/
inductive File where
  | payload (p : Payload)
  | other
  deriving DecidableEq

def isHexDigit (c : Char) : Bool := ('0' ≤ c && c ≤ '9') || ('a' ≤ c && c ≤ 'f')

/-- `re.fullmatch(r"[0-9a-f]{n}", text)` -/
def isHex (n : Nat) (text : List Char) : Bool := text.length = n && text.all isHexDigit

def validCleanupId (id : String) : Bool :=
  "alysis-bgsbx-".toList.isPrefixOf id.toList && isHex 12 (id.toList.drop 13)

def validToken (token : String) : Bool := token ≠ "" && token.length ≤ 256

def validCleanup (kind id : Option String) : Bool :=
  match kind with
  | none => id.isNone
  | some kind => kind = "docker-container" && id.any validCleanupId

/-- The checks of `_read_record` on the fields. -/
def Payload.valid (p : Payload) (name : String) : Bool :=
  p.schemaVersion = 1 && isHex 32 p.recordId.toList && name = p.recordId ++ ".json" &&
    1 < p.ownerPid && 1 < p.childPid && validToken p.ownerStartToken &&
    validToken p.childStartToken &&
    ["process_group", "direct"].contains p.terminationMode && p.posixPgid.all (1 < ·) &&
    validCleanup p.cleanupKind p.cleanupId

/-! ### The world -/

structure World where
  procs : List Proc
  nodup : (procs.map (·.ident.pid)).Nodup
  containers : List String
  files : List (String × File)
  /-- The state directory cannot be made or listed. -/
  unlistable : Bool := false
  unreadable : String → Bool := fun _ => false
  /-- Faults of the inspections: of the existence, of `/proc`, of `ps`. -/
  existsFails : Int → Bool := fun _ => false
  statFails : Int → Bool := fun _ => false
  psFails : Int → Bool := fun _ => false
  /-- Signals to the process are not permitted. -/
  denied : Proc → Bool := fun _ => false
  /-- A signal to the number raises another error. -/
  signalFails : Int → Bool := fun _ => false
  /-- `os.getpgrp()` -/
  ownGroup : Int := 0
  /-- How often a wait looks before its deadline. -/
  polls : Nat := 0

namespace World

def holder (w : World) (pid : Int) : Option Proc := w.procs.find? (·.ident.pid = pid)

def members (w : World) (pgid : Int) : List Proc := w.procs.filter (·.group.pid = pgid)

def pidExists (w : World) (pid : Int) : Option Bool :=
  if w.existsFails pid then none else some (w.holder pid).isSome

def pidStartToken (w : World) (pid : Int) : Option String :=
  match w.holder pid with
  | none => none
  | some p =>
    if ¬w.statFails pid then some p.ident.statToken
    else if ¬w.psFails pid then some p.ident.psToken
    else none

def readRecord (w : World) (name : String) : Option Payload :=
  if w.unreadable name then none
  else
    match w.files.lookup name with
    | some (.payload p) => if p.valid name then some p else none
    | _ => none

inductive Reply where
  | done
  /-- `ProcessLookupError` -/
  | noProcess
  /-- Another `OSError`. -/
  | failed
  deriving DecidableEq

/-- `os.kill(pid, …)` -/
def kill (w : World) (pid : Int) : Reply :=
  if w.signalFails pid then .failed
  else
    match w.holder pid with
    | none => .noProcess
    | some p => if w.denied p then .failed else .done

/-- `os.killpg(pgid, …)` -/
def killpg (w : World) (pgid : Int) : Reply :=
  if w.signalFails pgid then .failed
  else if (w.members pgid).isEmpty then .noProcess
  else if (w.members pgid).all w.denied then .failed
  else .done

end World

/-! ### Calls -/

inductive ProcessState where
  | matching
  | dead
  | reused
  | unknown
  deriving DecidableEq

/-- Why a process is inspected. -/
inductive Reason where
  | owner
  | child
  /-- Again, before signalling. -/
  | recheck
  /-- After `taskkill`. -/
  | confirm
  deriving DecidableEq

inductive Target where
  | process
  | group
  deriving DecidableEq

inductive Sig where
  | term
  | kill
  deriving DecidableEq

/-- A call, with the clock it was made at. -/
inductive Event where
  | read (n : Nat) (name : String)
  /-- The existence at `n` and the token behind it came to a state. -/
  | inspect (n : Nat) (reason : Reason) (r : Payload) (state : ProcessState)
  | docker (n : Nat) (id : String)
  /-- The group of the child, whose token matched at `since`. -/
  | getpgid (n since : Nat) (r : Payload)
  /-- A signal to who had been identified at `since`. -/
  | signal (n since : Nat) (r : Payload) (target : Target) (sig : Sig)
  /-- `killpg(pgid, 0)` -/
  | poll (n : Nat) (r : Payload)
  | unlink (n : Nat) (name : String)
  deriving DecidableEq

structure State where
  clock : Nat := 0
  events : List Event := []

/-- A call takes a tick. -/
def State.call (s : State) (e : Event) : State where
  clock := s.clock + 1
  events := s.events ++ [e]

/-- The platform and the world at every tick. -/
structure Host where
  nt : Bool := false
  world : Nat → World

/-- `_process_state`, and the clock behind it. -/
def processState (host : Host) (pid : Int) (expectedToken : String) (clock : Nat) :
    ProcessState × Nat :=
  match (host.world clock).pidExists pid with
  | some false => (.dead, clock + 1)
  | _ =>
    match (host.world (clock + 1)).pidStartToken pid with
    | some token => (if token = expectedToken then .matching else .reused, clock + 2)
    | none => (.unknown, clock + 2)

def Reason.pid (reason : Reason) (r : Payload) : Int :=
  match reason with
  | .owner => r.ownerPid
  | _ => r.childPid

def Reason.token (reason : Reason) (r : Payload) : String :=
  match reason with
  | .owner => r.ownerStartToken
  | _ => r.childStartToken

def inspect (host : Host) (reason : Reason) (r : Payload) (s : State) : ProcessState × State :=
  let seen := processState host (reason.pid r) (reason.token r) s.clock
  (seen.1, { clock := seen.2, events := s.events ++ [.inspect s.clock reason r seen.1] })

def cleanupOwnedResource (r : Payload) (s : State) : State :=
  match r.cleanupKind, r.cleanupId with
  | some kind, some id =>
    if kind = "docker-container" && validCleanupId id then s.call (.docker s.clock id) else s
  | _, _ => s

/-! ### Terminating -/

/-- What comes of a termination. -/
inductive Outcome where
  | terminated
  | refused
  /-- An error that nothing catches. -/
  | raised
  deriving DecidableEq

/-- The wait of `_terminate_posix_group`: whether the group was seen to be gone. -/
def awaitGroup (host : Host) (r : Payload) : Nat → State → Bool × State
  | 0, s => (false, s)
  | n + 1, s =>
    match (host.world s.clock).killpg r.childPid with
    | .noProcess => (true, s.call (.poll s.clock r))
    | .failed => (false, s.call (.poll s.clock r))
    | .done => awaitGroup host r n (s.call (.poll s.clock r))

/-- `_terminate_posix_group` of the group that was the child's at `since`. -/
def terminatePosixGroup (host : Host) (r : Payload) (since : Nat) (s : State) : Outcome × State :=
  let termed := s.call (.signal s.clock since r .group .term)
  match (host.world s.clock).killpg r.childPid with
  | .noProcess => (.terminated, termed)
  | .failed => (.refused, termed)
  | .done =>
    let waited := awaitGroup host r (host.world termed.clock).polls termed
    if waited.1 then (.terminated, waited.2)
    else
      let killed := waited.2.call (.signal waited.2.clock since r .group .kill)
      match (host.world waited.2.clock).killpg r.childPid with
      | .failed => (.raised, killed)
      | _ => (.terminated, killed)

/-- The wait of `_terminate_windows_process_tree`. -/
def awaitExit (host : Host) (r : Payload) : Nat → State → Bool × State
  | n, s =>
    match inspect host .confirm r s with
    | (.dead, s) | (.reused, s) => (true, s)
    | (_, s) =>
      match n with
      | 0 => (false, s)
      | n + 1 => awaitExit host r n s

def terminateWindowsProcessTree (host : Host) (r : Payload) (since : Nat) (s : State) :
    Outcome × State :=
  let killed := s.call (.signal s.clock since r .process .kill)
  let confirmed := awaitExit host r (host.world killed.clock).polls killed
  (if confirmed.1 then .terminated else .refused, confirmed.2)

/-- The part of `_terminate_owned_process` that signals the child, identified at `since`. -/
def signalOwnedProcess (host : Host) (r : Payload) (since : Nat) (s : State) : Outcome × State :=
  if host.nt then terminateWindowsProcessTree host r since s
  else if r.terminationMode = "process_group" then
    if r.posixPgid ≠ some r.childPid ∨ r.childPid = (host.world s.clock).ownGroup then
      (.refused, s)
    else
      let asked := s.call (.getpgid s.clock since r)
      match (host.world s.clock).holder r.childPid with
      | none => (.terminated, asked)
      | some p =>
        if p.group.pid ≠ r.childPid then (.refused, asked)
        else terminatePosixGroup host r s.clock asked
  else
    let termed := s.call (.signal s.clock since r .process .term)
    match (host.world s.clock).kill r.childPid with
    | .failed => (.refused, termed)
    | _ => (.terminated, termed)

def terminateOwnedProcess (host : Host) (r : Payload) (s : State) : Outcome × State :=
  match inspect host .recheck r s with
  | (.matching, checked) =>
    signalOwnedProcess host r (s.clock + 1) (cleanupOwnedResource r checked)
  | (_, checked) => (.refused, checked)

/-! ### Tracking -/

/-- What a caller of `track` gives, and the fresh identifier of the record. -/
structure Tracked where
  ownerPid : Int
  childPid : Int
  terminationMode : String
  posixPgid : Option Int
  cleanupKind : Option String
  cleanupId : Option String
  recordId : String

/-- The record that `track` publishes, with the tokens read at two ticks. -/
def track (host : Host) (t : Tracked) (clock : Nat) : Option Payload :=
  let grouped := t.terminationMode = "process_group" ∧ host.nt = false
  match (host.world clock).pidStartToken t.ownerPid,
    (host.world (clock + 1)).pidStartToken t.childPid with
  | some ownerToken, some childToken =>
    if t.ownerPid ≤ 1 ∨ t.childPid ≤ 1 then none
    else if ["process_group", "direct"].contains t.terminationMode = false then none
    else if grouped ∧ t.posixPgid.any (1 < ·) = false then none
    else if t.cleanupKind.isSome ∧ validCleanup t.cleanupKind t.cleanupId = false then none
    else some {
      schemaVersion := 1
      recordId := t.recordId
      ownerPid := t.ownerPid
      ownerStartToken := ownerToken
      childPid := t.childPid
      childStartToken := childToken
      terminationMode := t.terminationMode
      posixPgid := if grouped then t.posixPgid else none
      cleanupKind := t.cleanupKind
      cleanupId := t.cleanupId }
  | _, _ => none

/-! ### Scavenging -/

inductive Action where
  | preserved
  | terminated
  | absent
  | refused
  | invalid
  deriving DecidableEq

def unlinkRecord (name : String) (s : State) : State := s.call (.unlink s.clock name)

/-- A record whose owner is gone; no action when an error ends the scavenge. -/
def scavengeOrphan (host : Host) (name : String) (r : Payload) (s : State) :
    Option Action × State :=
  match inspect host .child r s with
  | (.matching, s) =>
    match terminateOwnedProcess host r s with
    | (.terminated, s) => (some .terminated, unlinkRecord name s)
    | (.refused, s) => (some .refused, s)
    | (.raised, s) => (none, s)
  | (.dead, s) => (some .absent, unlinkRecord name (cleanupOwnedResource r s))
  | (.reused, s) => (some .refused, unlinkRecord name s)
  | (.unknown, s) => (some .refused, s)

/-- The body of the loop of `scavenge_stale`. -/
def scavengeRecord (host : Host) (name : String) (s : State) : Option Action × State :=
  let asked := s.call (.read s.clock name)
  match (host.world s.clock).readRecord name with
  | none => (some .invalid, unlinkRecord name asked)
  | some r =>
    match inspect host .owner r asked with
    | (.matching, s) | (.unknown, s) => (some .preserved, s)
    | (_, s) => scavengeOrphan host name r s

def scavengeRecords (host : Host) : List String → State → List (String × Action) × State
  | [], s => ([], s)
  | name :: rest, s =>
    match scavengeRecord host name s with
    | (none, s) => ([], s)
    | (some action, s) =>
      let scavenged := scavengeRecords host rest s
      ((name, action) :: scavenged.1, scavenged.2)

/-- `sorted(self.state_dir.glob("*.json"))[:_MAX_RECORDS]` -/
def candidates (w : World) : List String :=
  if w.unlistable then []
  else
    (((w.files.map (·.1)).filter fun name => ".json".toList.isSuffixOf name.toList).insertionSort
      (· ≤ ·)).take 256

/-- `scavenge_stale`, begun at a clock. -/
def scavengeStale (host : Host) (clock : Nat) : List (String × Action) × State :=
  scavengeRecords host (candidates (host.world clock)) { clock := clock + 1 }

end AlysisCode.Terminal
