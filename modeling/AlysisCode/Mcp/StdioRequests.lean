/-
Requests in flight on a stdio transport.

Any number of calls of `request` run at once, and one reader thread handles what the
server writes.  They meet in three tables that a lock guards: the pending requests, the
state of each request that is remembered, and the order in which requests were retired.
Between two uses of the lock a thread may be overtaken, so a step of the system is one
use of it, or of a call's own queue.  The draw of an id is three steps, for nothing guards
the counter.

Time is left open: a deadline may have passed whenever the code looks at the clock, and
the reader may find the output quiet or not.
-/
import AlysisCode.Library.Runs
import Mathlib.Data.List.AList

namespace AlysisCode.Mcp.Stdio

variable {β : Type}

/-- A dictionary of Python. -/
abbrev Dict (κ ν : Type) := AList fun _ : κ => ν

/-- `JsonRpcId`; a number and a text never compare equal. -/
inductive JsonRpcId
  | int (n : Int)
  | str (s : String)
  deriving DecidableEq, Repr

/-- `JsonRpcResponse`, with the result or the error it carries. -/
structure JsonRpcResponse (β : Type) where
  id : JsonRpcId
  body : β
  deriving DecidableEq, Repr

/-! ### The request states -/

/-- `_REQUEST_STATE_*` -/
inductive RequestState
  | awaitingResponse
  | awaitingFollowUp
  | completed
  | responseTimedOut
  | followUpTimedOut
  | cancelled
  deriving DecidableEq, Repr

/-- `_REQUEST_STATES_DISCARD_LATE_RESPONSES` -/
def RequestState.discardsLateResponses : RequestState → Bool
  | .responseTimedOut | .followUpTimedOut | .cancelled => true
  | _ => false

/-- `_RETIRED_REQUEST_STATE_RETENTION_LIMIT` -/
def retentionLimit : Nat := 1024

/-- What `_pending_lock` guards.  A pending request is the call whose queue it names. -/
structure Requests where
  pending : Dict JsonRpcId Nat
  states : Dict JsonRpcId RequestState
  retired : List JsonRpcId
  deriving DecidableEq

namespace Requests

variable (r : Requests) (id : JsonRpcId)

/-- The state of a request is one whose late responses are discarded. -/
def discards : Bool :=
  (r.states.lookup id).any RequestState.discardsLateResponses

/-- `self._pending.pop(request_id, None)` -/
def popPending : Requests :=
  { r with pending := r.pending.erase id }

/-- The oldest retired ids are forgotten until the limit is met. -/
def trim : List JsonRpcId → Dict JsonRpcId RequestState →
    List JsonRpcId × Dict JsonRpcId RequestState
  | [], states => ([], states)
  | id :: rest, states =>
    if retentionLimit < (id :: rest).length then
      if (states.lookup id).any RequestState.discardsLateResponses then
        trim rest (states.erase id)
      else
        trim rest states
    else
      (id :: rest, states)

/-- `_set_request_state_locked` -/
def setRequestState (state : RequestState) : Requests :=
  if state = .completed then
    { r with states := r.states.erase id }
  else if state.discardsLateResponses then
    let kept := trim (r.retired ++ [id]) (r.states.insert id state)
    { r with retired := kept.1, states := kept.2 }
  else
    { r with states := r.states.insert id state }

/-- `_retire_request_on_timeout` -/
def retireOnTimeout (r : Requests) (id : JsonRpcId) (observedResponse : Bool) : Requests :=
  let popped := r.popPending id
  if r.pending.lookup id = none ∧ r.states.lookup id = some .completed then
    popped
  else if observedResponse ∨ r.states.lookup id = some .awaitingFollowUp then
    popped.setRequestState id .followUpTimedOut
  else
    popped.setRequestState id .responseTimedOut

end Requests

/-! ### Calls -/

/-- A response as it came in.  The number tells it from every other one; the code
compares none. -/
structure Arrival (β : Type) where
  serial : Nat
  response : JsonRpcResponse β
  deriving DecidableEq, Repr

/-- What a call's `response_queue` carries. -/
inductive Item (β : Type)
  | observed
  | followUpTimeout
  | fatal
  | response (a : Arrival β)
  deriving DecidableEq, Repr

/-- How `request` ends. -/
inductive Outcome (β : Type)
  | returned (a : Arrival β)
  | timedOut
  | fatal
  | sendFailed
  | refused
  deriving DecidableEq, Repr

/-- Where a call of `request` is. -/
inductive Phase (β : Type)
  | idle
  | checked
  | fetched
  | loaded (tmp : Int)
  | named
  | sending
  | waiting (observedResponse : Bool)
  | expiring (observedResponse : Bool)
  | holding (a : Arrival β)
  | done (outcome : Outcome β)
  deriving DecidableEq, Repr

/-- One call of `request`: its `request_id`, once it has one, and its queue. -/
structure Call (β : Type) where
  requestId : Int := 0
  phase : Phase β := .idle
  queue : List (Item β) := []
  deriving DecidableEq, Repr

/-- The call has put itself among the pending requests and not yet learned its end. -/
def Phase.active : Phase β → Bool
  | .sending | .waiting _ | .expiring _ => true
  | _ => false

/-! ### The transport -/

/-- `_FatalTransportState`, by what it says. -/
inductive FatalState
  | duplicateResponse (id : JsonRpcId)
  | unknownResponse (id : JsonRpcId)
  | failed (message : String)
  deriving DecidableEq, Repr

/-- What the reader thread is at: about to declare the transport fatal, or telling the
calls that were pending. -/
inductive Reader
  | idle
  | declaring (why : FatalState)
  | notifying (calls : List Nat)
  deriving DecidableEq, Repr

/-- `McpStdioTransport`, the calls on it, and the reader's own `deferred_responses`. -/
structure Transport (β : Type) where
  nextId : Int
  calls : Nat → Call β
  requests : Requests
  deferred : Dict JsonRpcId (Arrival β)
  fatalState : Option FatalState
  reader : Reader
  arrived : Nat

/-- A transport that has just been started, with the calls that will be made. -/
def Transport.start : Transport β where
  nextId := 1
  calls := fun _ => {}
  requests := ⟨∅, ∅, []⟩
  deferred := ∅
  fatalState := none
  reader := .idle
  arrived := 0

namespace Transport

variable (s : Transport β)

/-- The call `c` goes on as `call`. -/
def put (c : Nat) (call : Call β) : Transport β :=
  { s with calls := Function.update s.calls c call }

/-- `response_queue.put` -/
def enqueue (c : Nat) (item : Item β) : Transport β :=
  s.put c { s.calls c with queue := (s.calls c).queue ++ [item] }

/-! ### Steps of a call -/

/-- An item has come out of the queue. -/
def takeItem (call : Call β) (rest : List (Item β)) : Item β → Call β
  | .observed => { call with phase := .waiting true, queue := rest }
  | .followUpTimeout => { call with phase := .done .timedOut, queue := rest }
  | .fatal => { call with phase := .done .fatal, queue := rest }
  | .response a => { call with phase := .holding a, queue := rest }

/-- What a call does next.  It may be refused before it draws an id, its message may not
be sent, and it may find that its deadline has passed. -/
inductive Move
  | refuse
  | check
  | fetch
  | load
  | store
  | register
  | send
  | cancel
  | take
  | expire
  | retire
  | finish
  deriving DecidableEq, Repr

/-- A step of the call `c` of `request`, if it is at that point. -/
def move (c : Nat) (m : Move) : Option (Transport β) :=
  let call := s.calls c
  let id := JsonRpcId.int call.requestId
  match m, call.phase with
  | .refuse, .idle => some (s.put c { call with phase := .done .refused })
  | .check, .idle =>
    if s.fatalState.isSome then
      some (s.put c { call with phase := .done .fatal })
    else
      some (s.put c { call with phase := .checked })
  -- `JsonRpcIdGenerator.next`: the id is read, and then the counter read again and written
  | .fetch, .checked => some (s.put c { call with requestId := s.nextId, phase := .fetched })
  | .load, .fetched => some (s.put c { call with phase := .loaded s.nextId })
  | .store, .loaded tmp =>
    some ({ s with nextId := tmp + 1 }.put c { call with phase := .named })
  | .register, .named =>
    let added := { s.requests with pending := s.requests.pending.insert id c }
    some ({ s with requests := added.setRequestState id .awaitingResponse }.put c
      { call with phase := .sending })
  | .send, .sending => some (s.put c { call with phase := .waiting false })
  | .cancel, .sending =>
    some ({ s with requests := (s.requests.popPending id).setRequestState id .cancelled }.put c
      { call with phase := .done .sendFailed })
  | .take, .waiting _ =>
    match call.queue with
    | [] => none
    | item :: rest => some (s.put c (takeItem call rest item))
  | .expire, .waiting observedResponse =>
    if call.queue = [] then
      some (s.put c { call with phase := .expiring observedResponse })
    else
      none
  | .retire, .expiring observedResponse =>
    some ({ s with requests := s.requests.retireOnTimeout id observedResponse }.put c
      { call with phase := .done .timedOut })
  | .finish, .holding a =>
    if s.fatalState.isSome then
      some (s.put c { call with phase := .done .fatal })
    else
      some (s.put c { call with phase := .done (.returned a) })
  | _, _ => none

/-! ### Steps of the reader -/

def handleResponseMessage (message : JsonRpcResponse β) : Transport β :=
  let arrival := ⟨s.arrived, message⟩
  let s := { s with arrived := s.arrived + 1 }
  if message.id ∈ s.deferred then
    { s with reader := .declaring (.duplicateResponse message.id) }
  else
    match s.requests.pending.lookup message.id, s.requests.states.lookup message.id with
    | none, state =>
      if state.any RequestState.discardsLateResponses then
        s
      else if state = some .completed then
        { s with reader := .declaring (.duplicateResponse message.id) }
      else
        { s with reader := .declaring (.unknownResponse message.id) }
    | some c, some .awaitingResponse =>
      { s.enqueue c .observed with
        requests := s.requests.setRequestState message.id .awaitingFollowUp
        deferred := s.deferred.insert message.id arrival }
    | some _, some .awaitingFollowUp =>
      { s with reader := .declaring (.duplicateResponse message.id) }
    | some _, state =>
      if state.any RequestState.discardsLateResponses then
        { s with requests := s.requests.popPending message.id }
      else
        { s with reader := .declaring (.unknownResponse message.id) }

/-- One id of `expiring_ids` or `releasable_ids`, or what is wrong with it: the call is
sent `item`, and the request goes to `state`. -/
def flushOne (id : JsonRpcId) (item : Item β) (state : RequestState) :
    Except FatalState (Transport β) :=
  match s.requests.pending.lookup id, s.requests.states.lookup id with
  | none, found =>
    if found.any RequestState.discardsLateResponses then
      .ok s
    else if found = some .completed then
      .error (.duplicateResponse id)
    else
      .error (.unknownResponse id)
  | some c, some .awaitingFollowUp =>
    .ok { s.enqueue c item with requests := (s.requests.popPending id).setRequestState id state }
  | some _, found =>
    if found.any RequestState.discardsLateResponses then
      .ok { s with requests := s.requests.popPending id }
    else
      .error (.unknownResponse id)

/-- A deferred response whose budget has run out, or one that is released. -/
def flushEntry (released : Bool) (entry : Sigma fun _ : JsonRpcId => Arrival β) :
    Except FatalState (Transport β) :=
  if released then
    s.flushOne entry.1 (.response entry.2) .completed
  else
    s.flushOne entry.1 .followUpTimeout .followUpTimedOut

/-- The two loops of `_flush_deferred_responses`; what they did before they broke off
stays done. -/
def flushEntries : List (Bool × Sigma fun _ : JsonRpcId => Arrival β) → Transport β →
    Transport β × Option FatalState
  | [], s => (s, none)
  | (released, entry) :: rest, s =>
    match s.flushEntry released entry with
    | .error why => (s, some why)
    | .ok s' => flushEntries rest s'

/-- `_flush_deferred_responses`, where the budget of the ids `late` has run out and the
output has been `quiet` or not. -/
def flushDeferredResponses (late : List JsonRpcId) (quiet : Bool) : Transport β :=
  if s.deferred.entries = [] ∨ s.fatalState.isSome then
    { s with deferred := ∅ }
  else
    -- the entries in the order in which they came
    let entries := s.deferred.entries.reverse
    let expiring := entries.filter fun entry => entry.1 ∈ late
    let releasable := if quiet then entries.filter fun entry => entry.1 ∉ late else []
    match flushEntries (expiring.map (false, ·) ++ releasable.map (true, ·)) s with
    | (s', some why) => { s' with reader := .declaring why }
    | (s', none) =>
      { s' with
        deferred := (expiring ++ releasable).foldl (fun d entry => d.erase entry.1) s'.deferred }

/-- The first part of `_set_fatal_error`, under the lock. -/
def setFatalError (why : FatalState) : Transport β :=
  if s.fatalState.isSome then
    { s with reader := .idle }
  else
    { s with
      fatalState := some why
      requests := { s.requests with pending := ∅ }
      reader := .notifying (s.requests.pending.entries.map (·.2)) }

end Transport

/-! ### Runs -/

/-- Which thread takes the next step, and what it finds. -/
inductive Event (β : Type)
  | register (c : Nat) (id : Int)
  /-- any other step of a call -/
  | move (c : Nat) (m : Transport.Move)
  /-- the reader handles a response -/
  | receive (message : JsonRpcResponse β)
  /-- the reader looks at what it held back -/
  | flush (late : List JsonRpcId) (quiet : Bool)
  /-- the output ends or cannot be read, or asks what the host does not answer -/
  | fail (message : String)
  /-- the reader, having found the transport to be broken, says so -/
  | declare
  /-- and tells the next of the calls that were pending -/
  | notify
  deriving DecidableEq, Repr

/-- The step an event names, if it can be taken. -/
def exec (s : Transport β) : Event β → Option (Transport β)
  | .register c id => if (s.calls c).requestId = id then s.move c .register else none
  | .move c m => if m = .register then none else s.move c m
  | .receive message => if s.reader = .idle then some (s.handleResponseMessage message) else none
  | .flush late quiet =>
    if s.reader = .idle then some (s.flushDeferredResponses late quiet) else none
  | .fail message =>
    if s.reader = .idle then some { s with reader := .declaring (.failed message) } else none
  | .declare =>
    match s.reader with
    | .declaring why => some (s.setFatalError why)
    | _ => none
  | .notify =>
    match s.reader with
    | .notifying (c :: rest) => some { s.enqueue c .fatal with reader := .notifying rest }
    | .notifying [] => some { s with reader := .idle }
    | _ => none

/-- One step of the calls and the reader. -/
def Step (s : Transport β) (e : Event β) (s' : Transport β) : Prop := exec s e = some s'

end AlysisCode.Mcp.Stdio
