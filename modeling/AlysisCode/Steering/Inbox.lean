/-
The mailbox of a running turn: messages of the user that the worker takes at its next step.

The messages and the signals that wake a waiting parent are two queues, and each throws out its
oldest entries when it has more than sixteen.  Every operation holds the lock from beginning to
end, so a run is a list of operations.
-/
import AlysisCode.Ide.Python

namespace AlysisCode.Steering

def maxSteerMessageChars : Nat := 4000

def maxPendingSteerMessages : Nat := 16

def truncationMarker : String := " [truncated]"

def rstrip (t : List Char) : List Char := (t.reverse.dropWhile isSpace).reverse

def normalizeSteerMessage (message : String) : String :=
  let normalized := strip message
  if maxSteerMessageChars < normalized.length then
    String.ofList (rstrip (normalized.toList.take
      (maxSteerMessageChars - truncationMarker.length)) ++ truncationMarker.toList)
  else normalized

/-- A reason to wake a parent that waits. -/
structure WakeSignal where
  reason : String
  /-- Left out of the signal where it is empty. -/
  runId : String := ""
  deriving DecidableEq

structure SteerInbox where
  messages : List String := []
  wakeSignals : List WakeSignal := []
  wakeEvent : Bool := false
  dropped : Nat := 0

/-- What stays of a queue when its oldest entries are thrown out. -/
def newest {α : Type} (queue : List α) : List α :=
  queue.drop (queue.length - maxPendingSteerMessages)

def evicted {α : Type} (queue : List α) : List α :=
  queue.take (queue.length - maxPendingSteerMessages)

namespace SteerInbox

variable (inbox : SteerInbox)

def signalLocked (reason runId : String) : SteerInbox :=
  let label := strip (if reason = "" then "parent_wake" else reason)
  let signal := { reason := if label = "" then "parent_wake" else label, runId := runId }
  { inbox with wakeSignals := newest (inbox.wakeSignals ++ [signal]), wakeEvent := true }

def signalWaiters (reason runId : String) : SteerInbox :=
  inbox.signalLocked reason runId

def consumeWaitSignal (inbox : SteerInbox) : SteerInbox × Option WakeSignal :=
  match inbox.wakeSignals with
  | [] => ({ inbox with wakeEvent := false }, none)
  | signal :: rest =>
    ({ inbox with
        wakeSignals := rest
        wakeEvent := if rest = [] then false else inbox.wakeEvent }, some signal)

def consumeWaitSignals : SteerInbox × List WakeSignal :=
  ({ inbox with wakeSignals := [], wakeEvent := false }, inbox.wakeSignals)

/-- The messages with others put in, of which the oldest may have to go. -/
def put (messages : List String) : SteerInbox :=
  { inbox with
    messages := newest messages
    dropped := inbox.dropped + (evicted messages).length }

/-- `send`: the text that was queued; none if it is empty. -/
def send (message : String) : SteerInbox × String :=
  let normalized := normalizeSteerMessage message
  if normalized = "" then (inbox, "")
  else ((inbox.put (inbox.messages ++ [normalized])).signalLocked "parent_steer" "", normalized)

def restoreFront (messages : List String) : SteerInbox :=
  let normalized := (messages.map normalizeSteerMessage).filter (· ≠ "")
  if normalized = [] then inbox
  else (inbox.put (normalized ++ inbox.messages)).signalLocked "parent_steer" ""

def drain (inbox : SteerInbox) : SteerInbox × List String :=
  if inbox.messages = [] then (inbox, [])
  else
    let rest := inbox.wakeSignals.filter fun signal => signal.reason ≠ "parent_steer"
    ({ inbox with
        messages := []
        wakeSignals := rest
        wakeEvent := if rest = [] then false else inbox.wakeEvent }, inbox.messages)

end SteerInbox

/-! ### Queues that throw out their oldest entries -/

section Queue

variable {α : Type}

theorem evicted_append_newest (queue : List α) : evicted queue ++ newest queue = queue :=
  List.take_append_drop _ queue

theorem length_newest (queue : List α) : (newest queue).length ≤ maxPendingSteerMessages := by
  unfold newest
  rw [List.length_drop]
  omega

theorem length_newest_of_evicted {queue : List α} (h : evicted queue ≠ []) :
    (newest queue).length = maxPendingSteerMessages := by
  have hlength := List.length_pos_iff.mpr h
  unfold evicted at hlength
  unfold newest
  rw [List.length_take] at hlength
  rw [List.length_drop]
  omega

theorem newest_map {β : Type} (f : α → β) (queue : List α) :
    newest (queue.map f) = (newest queue).map f := by
  unfold newest
  rw [List.length_map, List.map_drop]

theorem evicted_map {β : Type} (f : α → β) (queue : List α) :
    evicted (queue.map f) = (evicted queue).map f := by
  unfold evicted
  rw [List.length_map, List.map_take]

theorem newest_ne_nil {queue : List α} (h : queue ≠ []) : newest queue ≠ [] := by
  have hlength := List.length_pos_iff.mpr h
  rw [← List.length_pos_iff]
  unfold newest maxPendingSteerMessages
  rw [List.length_drop]
  omega

end Queue

/-! ### Messages that were queued -/

open Text

theorem length_rstrip (t : List Char) : (rstrip t).length ≤ t.length := by
  have hle := (List.dropWhile_suffix (l := t.reverse) isSpace).length_le
  simpa [rstrip] using hle

theorem normalizeSteerMessage_of_bare {t : String} (hbare : Bare isSpace t.toList)
    (hshort : t.length ≤ maxSteerMessageChars) : normalizeSteerMessage t = t := by
  have hsame : strip t = t := by
    show String.ofList (stripWhere isSpace t.toList) = t
    rw [hbare.stripWhere_eq, String.ofList_toList]
  unfold normalizeSteerMessage
  rw [hsame, if_neg (Nat.not_lt.mpr hshort)]

theorem bare_truncated {c : Char} (hfirst : isSpace c = false) (rest : List Char) (n : Nat) :
    Bare isSpace (rstrip ((c :: rest).take (n + 1)) ++ truncationMarker.toList) := by
  have hfront : rstrip ((c :: rest).take (n + 1)) = c :: rstrip (rest.take n) := by
    have hstrip := stripWhere_cons hfirst (rest.take n)
    unfold stripWhere at hstrip
    rwa [List.dropWhile_cons_of_neg (by simp [hfirst])] at hstrip
  have hlast : truncationMarker.toList.getLast? = some ']' := by decide
  constructor
  · intro d hd
    rw [hfront] at hd
    obtain rfl : c = d := Option.some.inj hd
    exact hfirst
  · intro d hd
    rw [List.getLast?_append, hlast] at hd
    obtain rfl : ']' = d := Option.some.inj hd
    decide

/-- What is queued has nothing to strip and is short enough. -/
theorem queued_bare (message : String) : Bare isSpace (normalizeSteerMessage message).toList ∧
    (normalizeSteerMessage message).length ≤ maxSteerMessageChars := by
  have hbare : Bare isSpace (strip message).toList := by
    have hlist : (strip message).toList = stripWhere isSpace message.toList :=
      String.toList_ofList
    rw [hlist]
    exact bare_stripWhere isSpace _
  unfold normalizeSteerMessage
  generalize strip message = t at hbare
  by_cases hlong : maxSteerMessageChars < t.length
  · rw [if_pos hlong, String.toList_ofList, String.length_ofList, List.length_append]
    have hlimit : maxSteerMessageChars - truncationMarker.length = 3987 + 1 := by decide
    have hmarker : truncationMarker.toList.length = 12 := by decide
    refine ⟨?_, ?_⟩
    · cases ht : t.toList with
      | nil =>
        have hlength := congrArg List.length ht
        rw [String.length_toList, List.length_nil] at hlength
        omega
      | cons c rest =>
        rw [hlimit]
        exact bare_truncated (hbare.first c (by rw [ht]; rfl)) rest 3987
    · have hle := length_rstrip (t.toList.take (3987 + 1))
      rw [List.length_take] at hle
      rw [hlimit, hmarker]
      unfold maxSteerMessageChars
      omega
  · rw [if_neg hlong]
    exact ⟨hbare, Nat.le_of_not_lt hlong⟩

/-- **A message that was queued is queued again as it is.** -/
theorem normalizeSteerMessage_twice (message : String) :
    normalizeSteerMessage (normalizeSteerMessage message) = normalizeSteerMessage message :=
  normalizeSteerMessage_of_bare (queued_bare message).1 (queued_bare message).2

end AlysisCode.Steering
