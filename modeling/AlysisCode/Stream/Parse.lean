/-
Reading a Chat Completions answer, streamed and whole.

A streamed answer arrives as data lines; each holds one event, which carries a fragment of
the text, fragments of the arguments of tool calls, or both.  `json.loads` is a parameter:
`loads` on an event's data and `loadsObject` on a call's arguments.
-/
import Mathlib.Data.List.Sort
import AlysisCode.Library.Runs
import AlysisCode.Stream.Suffix

namespace AlysisCode.Stream

open Text Runs

abbrev Str := List Char

/-- The errors raised while reading an answer. -/
inductive LLMError where
  /-- `_StreamProtocolError`. -/
  | protocol (message : String)
  | error (message : String)
  deriving DecidableEq

/-- The value of a message's `content`, by what is read of it. -/
inductive Content where
  | null
  | text (s : Str)
  | parts (items : List Content)
  | part (kind text : Option Str)
  | other

mutual

/-- `_normalize_assistant_content_to_text`. -/
def normalizeContent : Content → Str
  | .null | .other => []
  | .text s => s
  | .parts items => normalizeParts items
  | .part kind text =>
    match text with
    | some text =>
      if kind = none ∨ kind = some "text".toList ∨ kind = some "output_text".toList then text
      else []
    | none => []

def normalizeParts : List Content → Str
  | [] => []
  | item :: rest => normalizeContent item ++ normalizeParts rest

end

structure Function where
  name : Option Str
  arguments : Option Str

/-- A tool call as it stands in a message; fields that are missing or of another type are
`none`. -/
structure RawToolCall where
  index : Option Int := none
  id : Option Str
  function : Option Function

structure Delta where
  content : Content
  toolCalls : List RawToolCall

/-- An event: whether its `error` is set, and `choices[0].delta`. -/
structure Event where
  error : Bool := false
  delta : Option Delta

/-- What `json.loads` makes of an event's data. -/
inductive Loaded where
  | notJson
  | notObject
  | event (e : Event)

/-! ### From lines to events -/

def malformedEvent : LLMError := .protocol "LLM stream returned a malformed JSON event"

/-- `line[5:].removeprefix(" ")`. -/
def dataOf (line : Str) : Str :=
  let data := line.drop 5
  if " ".toList.isPrefixOf data then data.drop 1 else data

/-- `_stream_events`: what the generator yields, `none` for `[DONE]`, and what it raises. -/
def streamEvents (loads : Str → Loaded) :
    List Str → List Str → List (Except LLMError (Option Event))
  | _, [] => []
  | pending, line :: lines =>
    if line = [] then
      if pending ≠ [] then [.error malformedEvent] else streamEvents loads pending lines
    else if ¬ "data:".toList.isPrefixOf line then streamEvents loads pending lines
    else
      let data := dataOf line
      if stripWhere isSpace data = [] ∧ pending = [] then streamEvents loads pending lines
      else if stripWhere isSpace data = "[DONE]".toList then
        if pending ≠ [] then [.error malformedEvent] else [.ok none]
      else
        match loads (['\n'].intercalate (pending ++ [data])) with
        | .notJson => streamEvents loads (pending ++ [data]) lines
        | .notObject => [.error malformedEvent]
        | .event e => .ok (some e) :: streamEvents loads [] lines

/-! ### From events to the answer -/

/-- An entry of `tool_chunks`. -/
structure Entry where
  (id name arguments : Str := [])
  deriving DecidableEq

/-- A non-empty value replaces the entry's. -/
def replaceBy (old : Str) (new : Option Str) : Str :=
  match new with
  | some v => if v ≠ [] ∧ v ≠ old then v else old
  | none => old

def Entry.update (entry : Entry) (rawTc : RawToolCall) : Entry :=
  let entry := { entry with id := replaceBy entry.id rawTc.id }
  match rawTc.function with
  | none => entry
  | some fn =>
    let entry := { entry with name := replaceBy entry.name fn.name }
    match fn.arguments with
    | none => entry
    | some piece =>
      { entry with arguments := entry.arguments ++ streamDeltaSuffix entry.arguments piece }

/-- `tool_chunks.setdefault(idx, …)`, and an update of the entry there. -/
def upsert (idx : Int) (f : Entry → Entry) : List (Int × Entry) → List (Int × Entry)
  | [] => [(idx, f {})]
  | (k, entry) :: rest =>
    if k = idx then (k, f entry) :: rest else (k, entry) :: upsert idx f rest

def applyToolCall (chunks : List (Int × Entry)) (rawTc : RawToolCall) : List (Int × Entry) :=
  match rawTc.index with
  | none => chunks
  | some idx => upsert idx (·.update rawTc) chunks

/-- What `_parse_stream_response_body` keeps between events, and the pieces it passed to
`on_text_delta`. -/
structure StreamState where
  contentParts : List Str := []
  accumulatedContent : Str := []
  toolChunks : List (Int × Entry) := []
  eventCount : Nat := 0
  textDeltas : List Str := []

variable (s : StreamState) {pieces : List Str}

def StreamState.addContent (raw : Content) : StreamState :=
  let contentDelta := normalizeContent raw
  if contentDelta = [] then s
  else
    let contentSuffix := streamDeltaSuffix s.accumulatedContent contentDelta
    if contentSuffix = [] then s
    else
      { s with
        contentParts := s.contentParts ++ [contentSuffix]
        accumulatedContent := s.accumulatedContent ++ contentSuffix
        textDeltas := s.textDeltas ++ [contentSuffix] }

/-- The body of the loop over events, after the check for an error. -/
def StreamState.addEvent (event : Event) : StreamState :=
  let s := { s with eventCount := s.eventCount + 1 }
  match event.delta with
  | none => s
  | some delta =>
    let s := s.addContent delta.content
    { s with toolChunks := delta.toolCalls.foldl applyToolCall s.toolChunks }

/-- The loop; it must end with `[DONE]`. -/
def runEvents : List (Except LLMError (Option Event)) → StreamState → Except LLMError StreamState
  | [], _ => .error (.error "LLM stream truncated before [DONE]")
  | .error e :: _, _ => .error e
  | .ok none :: _, s => .ok s
  | .ok (some event) :: rest, s =>
    if event.error = true then .error (.protocol "LLM stream returned an error event")
    else runEvents rest (s.addEvent event)

/-- A call's arguments: the object they are, or the text that is none. -/
inductive Arguments (A : Type) where
  | object (a : A)
  | rawArguments (text : Str)
  deriving DecidableEq

structure ToolCall (A : Type) where
  id : Str
  name : Str
  arguments : Arguments A
  deriving DecidableEq

structure LLMResponse (A : Type) where
  content : Str
  toolCalls : List (ToolCall A)
  deriving DecidableEq

section Parse

variable {A : Type} (loadsObject : Str → Option A)

/-- `_parse_arguments`, of `arguments or "{}"`. -/
def parseArguments (arguments : Str) : Arguments A :=
  let argsS := if arguments = [] then "\x7b\x7d".toList else arguments
  match loadsObject argsS with
  | some a => .object a
  | none => .rawArguments argsS

def entryOf (chunks : List (Int × Entry)) (idx : Int) : Entry := (chunks.lookup idx).getD {}

def parseStreamToolCalls (toolChunks : List (Int × Entry)) : List (ToolCall A) :=
  ((toolChunks.map (·.1)).insertionSort (· ≤ ·)).filterMap fun idx =>
    let chunk := entryOf toolChunks idx
    if chunk.name = [] then none
    else
      some
        { id := if chunk.id = [] then ("call_" ++ toString idx).toList else chunk.id
          name := chunk.name
          arguments := parseArguments loadsObject chunk.arguments }

/-- `_parse_stream_response_body`: the response, with the state at the end. -/
def parseStreamResponseBody (loads : Str → Loaded) (lines : List Str) :
    Except LLMError (LLMResponse A × StreamState) := do
  let s ← runEvents (streamEvents loads [] lines) {}
  .ok ({ content := s.contentParts.flatten,
         toolCalls := parseStreamToolCalls loadsObject s.toolChunks }, s)

/-- `_parse_tool_calls`; a call without an id or a name is left out. -/
def parseToolCalls (toolCallsRaw : List RawToolCall) : List (ToolCall A) :=
  toolCallsRaw.filterMap fun tc =>
    match tc.id, tc.function with
    | some id, some fn =>
      fn.name.map fun name =>
        { id, name, arguments := parseArguments loadsObject (fn.arguments.getD []) }
    | _, _ => none

structure Message where
  content : Content
  toolCalls : List RawToolCall

/-- The body of an answer that is not streamed, by what is read of it. -/
inductive ResponseBody where
  | notJson
  | notObject
  | noChoices
  | noMessage
  | message (msg : Message)

def parseNonStreamResponse : ResponseBody → Except LLMError (LLMResponse A)
  | .notJson => .error (.error "LLM returned non-JSON response")
  | .notObject => .error (.error "Unexpected LLM response shape: expected a JSON object")
  | .noChoices => .error (.error "Unexpected LLM response shape: missing choices[0]")
  | .noMessage => .error (.error "Unexpected LLM response shape: missing choices[0].message")
  | .message msg =>
    .ok { content := normalizeContent msg.content
          toolCalls := parseToolCalls loadsObject msg.toolCalls }

end Parse

/-! ### The loop, read as two -/

variable (deltas : List RawToolCall) (e : Event)

/-- The text fragment of an event. -/
def Event.contentPiece : Str :=
  match e.delta with
  | none => []
  | some delta => normalizeContent delta.content

def Event.callDeltas : List RawToolCall :=
  match e.delta with
  | none => []
  | some delta => delta.toolCalls

/-- The fragments that are not empty. -/
def contentPieces (events : List Event) : List Str :=
  (events.map (·.contentPiece)).filter (!·.isEmpty)

/-- The text kept so far is what was passed on, and what the fragments are received as. -/
structure StreamState.Received (s : StreamState) (pieces : List Str) : Prop where
  parts : s.contentParts.flatten = s.accumulatedContent
  deltas : s.textDeltas = s.contentParts
  content : s.accumulatedContent = received pieces

theorem addContent_received {s : StreamState} (h : s.Received pieces) (raw : Content) :
    (s.addContent raw).Received (pieces ++ [normalizeContent raw].filter (!·.isEmpty)) := by
  unfold StreamState.addContent
  by_cases hraw : normalizeContent raw = []
  · simp only [hraw, if_pos]
    simpa using h
  · have hkeep : [normalizeContent raw].filter (!·.isEmpty) = [normalizeContent raw] := by
      simp [hraw]
    simp only [if_neg hraw, hkeep]
    have hnext := received_snoc pieces (normalizeContent raw)
    rw [← h.content] at hnext
    by_cases hsuffix : streamDeltaSuffix s.accumulatedContent (normalizeContent raw) = []
    · rw [if_pos hsuffix]
      rw [hsuffix, List.append_nil] at hnext
      exact ⟨h.parts, h.deltas, hnext.symm⟩
    · rw [if_neg hsuffix]
      refine ⟨?_, ?_, hnext.symm⟩
      · simp [h.parts]
      · simp [h.deltas]

theorem contentPieces_cons (rest : List Event) :
    contentPieces (e :: rest) = [e.contentPiece].filter (!·.isEmpty) ++ contentPieces rest := by
  unfold contentPieces
  rw [← List.filter_append, List.singleton_append, List.map_cons]

theorem addEvent_received {s : StreamState} (h : s.Received pieces) (e : Event) :
    (s.addEvent e).Received (pieces ++ [e.contentPiece].filter (!·.isEmpty)) := by
  have hcount : ({ s with eventCount := s.eventCount + 1 } : StreamState).Received pieces :=
    ⟨h.parts, h.deltas, h.content⟩
  unfold StreamState.addEvent Event.contentPiece
  cases e.delta with
  | none =>
    show StreamState.Received _ (pieces ++ [])
    rw [List.append_nil]
    exact hcount
  | some delta =>
    have hadd := addContent_received hcount delta.content
    exact ⟨hadd.parts, hadd.deltas, hadd.content⟩

theorem addEvents_received {s : StreamState} (h : s.Received pieces) (events : List Event) :
    (events.foldl StreamState.addEvent s).Received (pieces ++ contentPieces events) := by
  induction events generalizing s pieces with
  | nil => simpa [contentPieces] using h
  | cons e rest ih =>
    rw [List.foldl_cons, contentPieces_cons, ← List.append_assoc]
    exact ih (addEvent_received h e)

theorem addContent_toolChunks (raw : Content) :
    (s.addContent raw).toolChunks = s.toolChunks := by
  unfold StreamState.addContent
  simp only
  split
  · rfl
  · split
    · rfl
    · rfl

theorem addEvents_toolChunks (events : List Event) :
    (events.foldl StreamState.addEvent s).toolChunks =
      (events.flatMap Event.callDeltas).foldl applyToolCall s.toolChunks := by
  induction events generalizing s with
  | nil => rfl
  | cons e rest ih =>
    rw [List.foldl_cons, ih, List.flatMap_cons, List.foldl_append]
    congr 1
    unfold StreamState.addEvent Event.callDeltas
    cases e.delta with
    | none => rfl
    | some delta =>
      show delta.toolCalls.foldl applyToolCall _ = _
      rw [addContent_toolChunks]

/-! ### Entries -/

theorem entryOf_cons (j : Int) (entry : Entry) (rest : List (Int × Entry)) (k : Int) :
    entryOf ((j, entry) :: rest) k = if k = j then entry else entryOf rest k := by
  unfold entryOf
  rw [List.lookup_cons]
  by_cases h : k = j
  · rw [if_pos h, beq_iff_eq.mpr h]
    rfl
  · rw [if_neg h, beq_eq_false_iff_ne.mpr h]

theorem entryOf_upsert (idx : Int) (f : Entry → Entry) (chunks : List (Int × Entry)) (k : Int) :
    entryOf (upsert idx f chunks) k =
      if k = idx then f (entryOf chunks idx) else entryOf chunks k := by
  induction chunks with
  | nil =>
    unfold upsert
    rw [entryOf_cons]
    rfl
  | cons c rest ih =>
    obtain ⟨j, entry⟩ := c
    unfold upsert
    by_cases hj : j = idx
    · rw [if_pos hj, entryOf_cons, entryOf_cons, entryOf_cons, hj, if_pos rfl]
      by_cases h : k = idx
      · rw [if_pos h, if_pos h]
      · rw [if_neg h, if_neg h, if_neg h]
    · rw [if_neg hj, entryOf_cons, entryOf_cons, entryOf_cons, ih, if_neg (Ne.symm hj)]
      by_cases hk : k = j
      · have hne : k ≠ idx := fun h => hj (hk.symm.trans h)
        rw [if_pos hk, if_neg hne, if_pos hk]
      · rw [if_neg hk, if_neg hk]

theorem keys_upsert (idx : Int) (f : Entry → Entry) (chunks : List (Int × Entry)) :
    (upsert idx f chunks).map (·.1) =
      if idx ∈ chunks.map (·.1) then chunks.map (·.1) else chunks.map (·.1) ++ [idx] := by
  induction chunks with
  | nil => rfl
  | cons c rest ih =>
    obtain ⟨j, entry⟩ := c
    unfold upsert
    by_cases hj : j = idx
    · rw [if_pos hj]
      simp [hj]
    · rw [if_neg hj]
      simp only [List.map_cons, ih, List.mem_cons, Ne.symm hj, false_or]
      by_cases h : idx ∈ rest.map (·.1)
      · rw [if_pos h, if_pos h]
      · rw [if_neg h, if_neg h]
        rfl

def deltasOf (deltas : List RawToolCall) (idx : Int) : List RawToolCall :=
  deltas.filter (·.index = some idx)

theorem entryOf_applyToolCalls (chunks : List (Int × Entry)) (idx : Int) :
    entryOf (deltas.foldl applyToolCall chunks) idx =
      (deltasOf deltas idx).foldl Entry.update (entryOf chunks idx) := by
  induction deltas generalizing chunks with
  | nil => rfl
  | cons d rest ih =>
    rw [List.foldl_cons, ih]
    unfold deltasOf applyToolCall
    cases hd : d.index with
    | none => simp [hd]
    | some j =>
      simp only
      rw [entryOf_upsert]
      by_cases h : idx = j
      · subst h
        simp [hd]
      · rw [if_neg h, List.filter_cons_of_neg (by simp [hd, Ne.symm h])]

theorem mem_keys_applyToolCalls (chunks : List (Int × Entry)) (idx : Int) :
    idx ∈ (deltas.foldl applyToolCall chunks).map (·.1) ↔
      idx ∈ chunks.map (·.1) ∨ ∃ d ∈ deltas, d.index = some idx := by
  refine foldl_collects (P := fun chunks => idx ∈ chunks.map (·.1)) ?_ deltas chunks
  intro chunks d
  unfold applyToolCall
  cases hd : d.index with
  | none => simp
  | some j =>
    simp only
    rw [keys_upsert, Option.some.injEq]
    by_cases hj : j ∈ chunks.map (·.1)
    · rw [if_pos hj]
      constructor
      · exact Or.inl
      · rintro (h | rfl)
        · exact h
        · exact hj
    · rw [if_neg hj, List.mem_append, List.mem_singleton, eq_comm (a := idx)]

theorem nodup_keys_applyToolCalls {chunks : List (Int × Entry)} (h : (chunks.map (·.1)).Nodup) :
    ((deltas.foldl applyToolCall chunks).map (·.1)).Nodup := by
  induction deltas generalizing chunks with
  | nil => exact h
  | cons d rest ih =>
    rw [List.foldl_cons]
    refine ih ?_
    unfold applyToolCall
    cases d.index with
    | none => exact h
    | some j =>
      simp only
      rw [keys_upsert]
      by_cases hj : j ∈ chunks.map (·.1)
      · rw [if_pos hj]
        exact h
      · rw [if_neg hj]
        refine List.nodup_append.mpr ⟨h, List.nodup_singleton j, ?_⟩
        intro a ha b hb
        rw [List.mem_singleton] at hb
        rintro rfl
        exact hj (hb ▸ ha)

/-! ### One call's deltas -/

/-- The arguments fragment of a delta. -/
def RawToolCall.argumentsPiece (d : RawToolCall) : Str :=
  match d.function with
  | none => []
  | some fn => fn.arguments.getD []

def argumentPieces (deltas : List RawToolCall) : List Str :=
  (deltas.map (·.argumentsPiece)).filter (!·.isEmpty)

theorem streamDeltaSuffix_nil (previous : Str) : streamDeltaSuffix previous [] = [] := by
  unfold streamDeltaSuffix
  rw [if_pos rfl]

theorem update_arguments (entry : Entry) (d : RawToolCall) :
    (entry.update d).arguments =
      entry.arguments ++ streamDeltaSuffix entry.arguments d.argumentsPiece := by
  unfold Entry.update RawToolCall.argumentsPiece
  cases d.function with
  | none => simp [streamDeltaSuffix_nil]
  | some fn =>
    cases harg : fn.arguments with
    | none => simp [harg, streamDeltaSuffix_nil]
    | some piece => simp [harg]

theorem updates_arguments {entry : Entry} (h : entry.arguments = received pieces)
    (deltas : List RawToolCall) :
    (deltas.foldl Entry.update entry).arguments = received (pieces ++ argumentPieces deltas) := by
  induction deltas generalizing entry pieces with
  | nil => simpa [argumentPieces] using h
  | cons d rest ih =>
    have hsplit : argumentPieces (d :: rest) = argumentPieces [d] ++ argumentPieces rest := by
      unfold argumentPieces
      rw [← List.filter_append, ← List.map_append, List.singleton_append]
    rw [List.foldl_cons, hsplit, ← List.append_assoc]
    refine ih ?_
    rw [update_arguments, h]
    by_cases hpiece : d.argumentsPiece = []
    · simp [argumentPieces, hpiece, streamDeltaSuffix_nil]
    · have hkeep : argumentPieces [d] = [d.argumentsPiece] := by simp [argumentPieces, hpiece]
      rw [hkeep, received_snoc]

end AlysisCode.Stream
