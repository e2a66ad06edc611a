/-
The messages of a conversation.

Two kinds of them are the compactor's own: the memory and the pins, told by how their content
begins.  They are taken out and put in again in every round, and nothing else that is said of
a list of messages depends on them.
-/
import AlysisCode.Compaction.Summary
import AlysisCode.Compaction.Pins

namespace AlysisCode.Compaction

abbrev Message (F : Type) := Members F

def memoryMarker : String := "<<<ALYSIS_CONVERSATION_MEMORY_JSON>>>"

def pinsMarker : String := "<<<ALYSIS_CONVERSATION_PINS_JSON>>>"

variable {F S : Type}

/-- `str.startswith` -/
def startsWith (text begins : String) : Bool := begins.toList.isPrefixOf text.toList

section Reading

variable (python : Python F)

/-- `str(msg.get("role") or "")` -/
def role (msg : Message F) : String := python.text (python.orElse (Json.get msg "role") (.str ""))

/-- A message of the user whose content begins with the marker. -/
def isMarked (marker : String) (msg : Message F) : Bool :=
  role python msg == "user" &&
    match Json.get msg "content" with
    | .str content => startsWith content marker
    | _ => false

variable (msg : Message F)

def isMemoryMessage : Bool := isMarked python memoryMarker msg

def isPinsMessage : Bool := isMarked python pinsMarker msg

/-- A message of the compactor's own. -/
def isContext : Bool := isMemoryMessage python msg || isPinsMessage python msg

/-- A message of the user, and not one of the compactor's own. -/
def isUser : Bool := !isContext python msg && role python msg == "user"

/-- The messages that are not the compactor's own. -/
def bare (messages : List (Message F)) : List (Message F) :=
  messages.filter fun msg => !isContext python msg

/-! ### Memory and pins -/

section Context

variable [Json.Floats F]

def memoryMessage (summary : Members F) : Message F :=
  [("role", .str "user"),
    ("content", .str (memoryMarker ++ "\n" ++ Json.dumps compactStyle (.obj summary)))]

def pinsMessage (pins : List (Pin S)) : Message F :=
  [("role", .str "user"),
    ("content", .str (pinsMarker ++ "\n" ++ Json.dumps compactStyle (pinsPayload pins : Json F)))]

/-- `messages.insert(at, msg)` -/
def insertAt (messages : List (Message F)) (position : Nat) (msg : Message F) : List (Message F) :=
  messages.take position ++ msg :: messages.drop position

structure Upserted (F : Type) where
  messages : List (Message F)
  memoryMessageIndex : Nat
  pinsMessageIndex : Option Nat

def upsertContextMessages (pinnedPrefixLen : Nat) (messages : List (Message F))
    (summary : Members F) (pins : List (Pin S)) : Upserted F :=
  let filtered := bare python messages
  let at' := min pinnedPrefixLen filtered.length
  if pins = [] then
    { messages := insertAt filtered at' (memoryMessage summary)
      memoryMessageIndex := at'
      pinsMessageIndex := none }
  else
    { messages := insertAt (insertAt filtered at' (pinsMessage pins)) (at' + 1)
        (memoryMessage summary)
      memoryMessageIndex := at' + 1
      pinsMessageIndex := some at' }

end Context

/-! ### Tool calls -/

def assistantHasToolCalls : Bool :=
  match Json.get msg "tool_calls" with
  | .arr items => !items.isEmpty
  | _ => false

/-- The ids behind `ids`; none if one is missing or given twice. -/
def toolCallIdsFrom (ids : List String) : List (Json F) → List String
  | [] => ids
  | .obj call :: rest =>
    let callId := strippedText python (Json.get call "id")
    if callId = "" ∨ callId ∈ ids then [] else toolCallIdsFrom (ids ++ [callId]) rest
  | _ :: _ => []

def assistantToolCallIds : List String :=
  match Json.get msg "tool_calls" with
  | .arr items => toolCallIdsFrom python [] items
  | _ => []

/-- `str(msg.get("tool_call_id") or "").strip()` -/
def toolCallId : String := strippedText python (Json.get msg "tool_call_id")

/-- What one message makes of the calls that wait for a result; nothing if it must not stand
there. -/
def scanMessage (waiting : List String) (msg : Message F) : Option (List String) :=
  if isContext python msg then some waiting
  else if role python msg = "assistant" then
    if assistantHasToolCalls msg then
      let ids := assistantToolCallIds python msg
      if waiting ≠ [] ∨ ids = [] then none else some ids
    else if waiting ≠ [] then none
    else some []
  else if role python msg = "tool" then
    let callId := toolCallId python msg
    if callId = "" ∨ callId ∉ waiting then none else some (waiting.erase callId)
  else if waiting ≠ [] then none
  else some []

def scanTranscript (waiting : List String) (messages : List (Message F)) : Option (List String) :=
  messages.foldlM (scanMessage python) waiting

def hasValidToolTranscript (messages : List (Message F)) : Bool :=
  scanTranscript python [] messages == some []

end Reading

/-! ### The compactor's own messages -/

variable {python : Python F}

theorem bare_append (first rest : List (Message F)) :
    bare python (first ++ rest) = bare python first ++ bare python rest := List.filter_append ..

theorem bare_bare (messages : List (Message F)) :
    bare python (bare python messages) = bare python messages := by
  unfold bare
  rw [List.filter_filter]
  simp

theorem bare_eq_self {messages : List (Message F)}
    (h : ∀ msg ∈ messages, isContext python msg = false) : bare python messages = messages :=
  List.filter_eq_self.mpr fun msg hmsg => by rw [h msg hmsg]; rfl

theorem isMarked_mk (marker text : String) :
    isMarked python marker [("role", .str "user"), ("content", .str (marker ++ "\n" ++ text))] =
      true := by
  have hbegins : startsWith (marker ++ "\n" ++ text) marker = true := by
    unfold startsWith
    rw [List.isPrefixOf_iff_prefix, String.toList_append, String.toList_append, List.append_assoc]
    exact List.prefix_append _ _
  show ("user" == "user" && startsWith (marker ++ "\n" ++ text) marker) = true
  rw [hbegins]
  rfl

section Context

variable [Json.Floats F]

theorem isContext_memoryMessage (summary : Members F) :
    isContext python (memoryMessage summary) = true := by
  have hmarked : isMemoryMessage python (memoryMessage summary) = true := isMarked_mk memoryMarker _
  rw [isContext, hmarked, Bool.true_or]

theorem isContext_pinsMessage (pins : List (Pin S)) :
    isContext python (pinsMessage pins : Message F) = true := by
  have hmarked : isPinsMessage python (pinsMessage pins : Message F) = true :=
    isMarked_mk pinsMarker _
  rw [isContext, hmarked, Bool.or_true]

omit [Json.Floats F] in
theorem bare_insertAt (messages : List (Message F)) (position : Nat) {msg : Message F}
    (h : isContext python msg = true) :
    bare python (insertAt messages position msg) = bare python messages := by
  have hmsg : bare python (msg :: messages.drop position) =
      bare python (messages.drop position) := by
    unfold bare
    rw [List.filter_cons_of_neg (by simp [h])]
  rw [insertAt, bare_append, hmsg, ← bare_append, List.take_append_drop]

/-- **The memory and the pins are all that is changed.** -/
theorem bare_upsert (pinnedPrefixLen : Nat) (messages : List (Message F)) (summary : Members F)
    (pins : List (Pin S)) :
    bare python (upsertContextMessages python pinnedPrefixLen messages summary pins).messages =
      bare python messages := by
  unfold upsertContextMessages
  by_cases hpins : pins = []
  · rw [if_pos hpins, bare_insertAt _ _ (isContext_memoryMessage summary), bare_bare]
  · rw [if_neg hpins, bare_insertAt _ _ (isContext_memoryMessage summary),
      bare_insertAt _ _ (isContext_pinsMessage pins), bare_bare]

end Context

/-! ### Valid transcripts -/

variable (waiting : List String)

theorem scanTranscript_cons (msg : Message F) (rest : List (Message F)) :
    scanTranscript python waiting (msg :: rest) =
      (scanMessage python waiting msg).bind fun waiting => scanTranscript python waiting rest :=
  rfl

theorem scanTranscript_append (first rest : List (Message F)) :
    scanTranscript python waiting (first ++ rest) =
      (scanTranscript python waiting first).bind fun waiting =>
        scanTranscript python waiting rest := List.foldlM_append

theorem scanTranscript_bare (messages : List (Message F)) :
    scanTranscript python waiting (bare python messages) =
      scanTranscript python waiting messages := by
  induction messages generalizing waiting with
  | nil => rfl
  | cons msg rest ih =>
    by_cases hcontext : isContext python msg = true
    · have hskip : scanMessage python waiting msg = some waiting := by
        rw [scanMessage, if_pos hcontext]
      have hbare : bare python (msg :: rest) = bare python rest :=
        List.filter_cons_of_neg (by simp [hcontext])
      rw [hbare, ih, scanTranscript_cons, hskip, Option.bind_some]
    · have hbare : bare python (msg :: rest) = msg :: bare python rest :=
        List.filter_cons_of_pos (by simp [hcontext])
      rw [hbare, scanTranscript_cons, scanTranscript_cons]
      exact congrArg _ (funext fun waiting => ih waiting)

theorem waiting_of_user {waiting waiting' : List String} {msg : Message F}
    (hmsg : isUser python msg = true) (h : scanMessage python waiting msg = some waiting') :
    waiting = [] := by
  obtain ⟨hcontext, hrole⟩ := Bool.and_eq_true_iff.mp hmsg
  have hrole := beq_iff_eq.mp hrole
  rw [scanMessage, if_neg (by simpa using hcontext), hrole, if_neg (by decide),
    if_neg (by decide)] at h
  by_contra hne
  rw [if_pos hne] at h
  cases h

/-- **A chunk from one user message to another can be left out.** -/
theorem scanTranscript_remove {first chunk rest : List (Message F)} {waiting : List String}
    (hchunk : ∀ msg ∈ chunk.head?, isUser python msg = true) (hne : chunk ≠ [])
    (hrest : ∀ msg ∈ rest.head?, isUser python msg = true) (hne' : rest ≠ [])
    (h : scanTranscript python [] (first ++ (chunk ++ rest)) = some waiting) :
    scanTranscript python [] (first ++ rest) = some waiting := by
  have hquiet (before : List (Message F)) {after : List (Message F)} {waiting : List String}
      (hafter : ∀ msg ∈ after.head?, isUser python msg = true) (hne : after ≠ [])
      (h : scanTranscript python [] (before ++ after) = some waiting) :
      scanTranscript python [] before = some [] := by
    rw [scanTranscript_append] at h
    obtain ⟨waiting', hbefore, h⟩ := Option.bind_eq_some_iff.mp h
    obtain ⟨msg, after, rfl⟩ := List.exists_cons_of_ne_nil hne
    rw [scanTranscript_cons] at h
    obtain ⟨_, hmsg, -⟩ := Option.bind_eq_some_iff.mp h
    rwa [waiting_of_user (hafter msg rfl) hmsg] at hbefore
  have hfirst : scanTranscript python [] first = some [] :=
    hquiet first (by
      intro msg hmsg
      obtain ⟨c, chunk, rfl⟩ := List.exists_cons_of_ne_nil hne
      exact hchunk msg hmsg) (by simp [hne]) h
  have hboth : scanTranscript python [] (first ++ chunk) = some [] :=
    hquiet (first ++ chunk) hrest hne' (by rwa [List.append_assoc])
  rw [← List.append_assoc, scanTranscript_append, hboth] at h
  rw [scanTranscript_append, hfirst]
  exact h

end AlysisCode.Compaction
