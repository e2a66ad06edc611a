/-
The events a browser connection has received and nobody has read yet.

One queue holds the events of all pages.  It is bounded twice, by their number and by their
bytes, and the oldest go where a new one would not fit; how many went is told to the next page
that reads.  A page drains its own events.  A navigation that is guarded takes the first
lifecycle event of its page, wherever in the queue it is.
-/
import Mathlib.Algebra.Group.Int.Defs
import Mathlib.Algebra.GroupWithZero.Nat
import AlysisCode.Library.Json
import AlysisCode.Library.Queue

namespace AlysisCode.Cdp

variable {F : Type}

/-- A message, as it was parsed. -/
abbrev Payload (F : Type) := List (String × Json F)

def maxMessageBytes : Nat := 8 * 1024 * 1024

def maxEventBytesLimit : Nat := 16 * 1024 * 1024

def maxEventCountLimit : Nat := 512

def maxSessionIdChars : Nat := 256

def maxResponseId : Int := 2 ^ 53 - 1

/-- The bounds a transport was made with. -/
structure Limits where
  maxEventCount : Nat
  maxEventBytes : Nat
  count_pos : 1 ≤ maxEventCount
  count_le : maxEventCount ≤ maxEventCountLimit
  bytes_ge : maxMessageBytes ≤ maxEventBytes
  bytes_le : maxEventBytes ≤ maxEventBytesLimit

structure QueuedEvent (F : Type) where
  payload : Payload F
  sizeBytes : Nat
  sessionId : Option String

/-- The events of all sessions that wait for a reader. -/
structure EventBuffer (F : Type) where
  events : List (QueuedEvent F) := []
  eventBytes : Int := 0
  droppedEvents : Nat := 0
  dropGeneration : Nat := 0

namespace EventBuffer

variable (limits : Limits)

/-- The oldest event has to go. -/
def Overfull (sizeBytes : Nat) (b : EventBuffer F) : Prop :=
  limits.maxEventCount ≤ b.events.length ∨ (limits.maxEventBytes : Int) < b.eventBytes + sizeBytes

instance (limits : Limits) (sizeBytes : Nat) (b : EventBuffer F) :
    Decidable (b.Overfull limits sizeBytes) :=
  inferInstanceAs (Decidable (_ ∨ _))

def evict (b : EventBuffer F) (removed : QueuedEvent F) (rest : List (QueuedEvent F)) :
    EventBuffer F where
  events := rest
  eventBytes := b.eventBytes - removed.sizeBytes
  droppedEvents := b.droppedEvents + 1
  dropGeneration := b.dropGeneration + 1

/-- The loop that throws out the oldest events until the new one fits or none is left. -/
def makeRoomFrom (limits : Limits) (sizeBytes : Nat) (b : EventBuffer F) :
    List (QueuedEvent F) → EventBuffer F
  | [] => { b with events := [] }
  | removed :: rest =>
    if { b with events := removed :: rest }.Overfull limits sizeBytes then
      makeRoomFrom limits sizeBytes (b.evict removed rest) rest
    else { b with events := removed :: rest }

def makeRoom (sizeBytes : Nat) (b : EventBuffer F) : EventBuffer F :=
  makeRoomFrom limits sizeBytes b b.events

/-- The end of `_route_message`, for an event that nobody intercepts. -/
def add (b : EventBuffer F) (queued : QueuedEvent F) : EventBuffer F :=
  let roomy := b.makeRoom limits queued.sizeBytes
  if limits.maxEventBytes < queued.sizeBytes then
    { roomy with
      droppedEvents := roomy.droppedEvents + 1
      dropGeneration := roomy.dropGeneration + 1 }
  else
    { roomy with
      events := roomy.events ++ [queued]
      eventBytes := roomy.eventBytes + queued.sizeBytes }

/-- What one look of `drain_events` finds. -/
structure Drained (F : Type) where
  /-- How many events were dropped since that was last told. -/
  report : Option Nat
  events : List (QueuedEvent F)

def ofSession (session : String) (item : QueuedEvent F) : Bool := item.sessionId = some session

/-- One look of `drain_events`; it looks again while it finds nothing. -/
def drain (session : String) (maxEvents : Nat) (b : EventBuffer F) : EventBuffer F × Drained F :=
  let report := if 0 < b.droppedEvents ∧ 0 < maxEvents then some b.droppedEvents else none
  let room := maxEvents - report.toList.length
  let (taken, retained) := Queue.takeWhere (ofSession session) room b.events
  ({ b with
      events := retained
      eventBytes := b.eventBytes - (taken.map QueuedEvent.sizeBytes).sum
      droppedEvents := if report.isSome then 0 else b.droppedEvents }, ⟨report, taken⟩)

def eventsDropped (session : String) (count : Nat) : Payload F :=
  [("method", .str "Alysis.eventsDropped"), ("params", .obj [("count", .int count)]),
    ("sessionId", .str session)]

/-- What `drain_events` returns. -/
def Drained.output (session : String) (found : Drained F) : List (Payload F) :=
  found.report.toList.map (eventsDropped session) ++ found.events.map QueuedEvent.payload

/-- An event that navigations wait for. -/
def wanted (item : QueuedEvent F) : Bool :=
  match item.payload.lookup "method" with
  | some (.str method) => method = "Page.lifecycleEvent"
  | _ => false

/-- One look of `_take_navigation_event`. -/
def takeNavigationEvent (session : String) (b : EventBuffer F) :
    EventBuffer F × Option (QueuedEvent F) :=
  match Queue.takeWhere (fun item => ofSession session item && wanted item) 1 b.events with
  | ([], _) => (b, none)
  | (item :: _, rest) =>
    ({ b with events := rest, eventBytes := b.eventBytes - item.sizeBytes }, some item)

end EventBuffer

/-! ### Messages -/

/-- The part of a transport that messages change. -/
structure Transport (F : Type) where
  limits : Limits
  buffer : EventBuffer F := {}
  /-- The commands whose response is waited for. -/
  pending : List Int := []
  responses : List (Int × Payload F) := []
  /-- The sessions whose requests are intercepted. -/
  interceptionPolicies : List String := []
  interceptionEvents : List (QueuedEvent F) := []
  interceptionEventBytes : Int := 0

/-- `_METHOD_RE` -/
def isMethodStart (c : Char) : Bool := c.isAlpha

def isMethodChar (c : Char) : Bool := c.isAlphanum || c = '_' || c = '.'

/-- `_METHOD_RE.fullmatch(method)` -/
def matchesMethod (method : String) : Bool :=
  match method.toList with
  | [] => false
  | c :: rest => isMethodStart c && rest.all isMethodChar && rest.length ≤ 255

inductive Message (F : Type) where
  | response (requestId : Int)
  | event (method : String) (params : Payload F) (sessionId : Option String)

def readSessionId (payload : Payload F) : Except String (Option String) :=
  match payload.lookup "sessionId" with
  | none | some .null => .ok none
  | some (.str s) =>
    if s = "" ∨ maxSessionIdChars < s.length ∨ s.toList.any (fun c => c.toNat < 0x20) then
      .error "Browser CDP event session id was invalid."
    else .ok (some s)
  | some _ => .error "Browser CDP event session id was invalid."

/-- The checks of `_route_message`. -/
def readMessage (payload : Payload F) : Except String (Message F) :=
  match payload.lookup "id" with
  | some requestId =>
    if (payload.lookup "method").isSome then
      .error "Browser CDP response shape was invalid."
    else
      match requestId with
      | .int n =>
        if 1 ≤ n ∧ n ≤ maxResponseId then .ok (.response n)
        else .error "Browser CDP response id was invalid."
      | _ => .error "Browser CDP response id was invalid."
  | none =>
    match payload.lookup "method" with
    | some (.str method) =>
      if !matchesMethod method then .error "Browser CDP event method was invalid."
      else
        match (payload.lookup "params").getD (.obj []) with
        | .obj params => do
          let sessionId ← readSessionId payload
          return .event method params sessionId
        | _ => .error "Browser CDP event params were invalid."
    | _ => .error "Browser CDP event method was invalid."

def interceptedMethods : List String :=
  ["Fetch.authRequired", "Fetch.requestPaused", "Target.attachedToTarget",
    "Target.detachedFromTarget"]

namespace Transport

/-- Somebody waits to decide about the event. -/
def guarded (t : Transport F) (method : String) (params : Payload F)
    (sessionId : Option String) : Bool :=
  interceptedMethods.contains method && (sessionId.any t.interceptionPolicies.contains ||
      (method = "Target.detachedFromTarget" &&
        match params.lookup "sessionId" with
        | some (.str detached) => t.interceptionPolicies.contains detached
        | _ => false))

/-- `_route_message`, with the event that was accepted and not intercepted. -/
def routeMessage (t : Transport F) (payload : Payload F) (sizeBytes : Nat) :
    Except String (Transport F × Option (QueuedEvent F)) := do
  match ← readMessage payload with
  | .response requestId =>
    if t.pending.contains requestId then
      return ({ t with
        pending := t.pending.filter (· ≠ requestId)
        responses := (requestId, payload) :: t.responses }, none)
    else throw "Browser CDP response id was unknown or duplicated."
  | .event method params sessionId =>
    let queued := { payload := payload, sizeBytes := sizeBytes, sessionId := sessionId }
    if t.guarded method params sessionId then
      if t.limits.maxEventBytes < sizeBytes ∨
          (t.limits.maxEventBytes : Int) < t.interceptionEventBytes + sizeBytes then
        throw "Browser request interception byte budget overflowed."
      else if t.limits.maxEventCount ≤ t.interceptionEvents.length then
        throw "Browser request interception queue overflowed."
      else
        return ({ t with
          interceptionEvents := t.interceptionEvents ++ [queued]
          interceptionEventBytes := t.interceptionEventBytes + sizeBytes }, none)
    else return ({ t with buffer := t.buffer.add t.limits queued }, some queued)

theorem buffer_of_routeMessage {t t' : Transport F} {payload : Payload F} {sizeBytes : Nat}
    {accepted : Option (QueuedEvent F)}
    (h : t.routeMessage payload sizeBytes = .ok (t', accepted)) :
    t'.limits = t.limits ∧
      t'.buffer = accepted.elim t.buffer fun queued => t.buffer.add t.limits queued := by
  unfold routeMessage at h
  cases hread : readMessage payload with
  | error text =>
    rw [hread] at h
    cases h
  | ok message =>
    rw [hread] at h
    cases message with
    | response requestId =>
      simp only [bind, Except.bind, pure, Except.pure, throw, throwThe, MonadExceptOf.throw] at h
      split at h
      · cases h
        exact ⟨rfl, rfl⟩
      · cases h
    | event method params sessionId =>
      simp only [bind, Except.bind, pure, Except.pure, throw, throwThe, MonadExceptOf.throw] at h
      split at h
      · split at h
        · cases h
        · split at h
          · cases h
          · cases h
            exact ⟨rfl, rfl⟩
      · cases h
        exact ⟨rfl, rfl⟩

end Transport

end AlysisCode.Cdp
