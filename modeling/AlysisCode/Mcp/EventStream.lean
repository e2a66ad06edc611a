/-
The two readers of an event stream.

The response path feeds the parser the lines that `httpx` yields, which are those of
`str.splitlines`.  The background reader decodes the chunks of the body as they come and takes
its own lines out of a buffer, ended by a newline, a carriage return or both; a carriage return at
the end of the buffer waits for what comes.  However the body is cut into chunks, the parser is fed
the lines of the whole body.
-/
import AlysisCode.Library.EndedLines
import AlysisCode.Library.Unicode
import AlysisCode.Library.Utf8

namespace AlysisCode.Mcp

open Text

/-! ### The parser -/

structure SseEvent where
  event : Option (List Char)
  eventId : Option (List Char)
  retryMs : Option Nat
  data : List Char
  deriving DecidableEq

structure SseEventParser where
  eventName : Option (List Char)
  eventId : Option (List Char)
  retryMs : Option Nat
  dataLines : List (List Char)
  sawEventField : Bool

namespace SseEventParser

/-- `__init__`, and `_reset` -/
def empty : SseEventParser where
  eventName := none
  eventId := none
  retryMs := none
  dataLines := []
  sawEventField := false

def flushEvent (parser : SseEventParser) : Option SseEvent × SseEventParser :=
  if ¬ parser.sawEventField ∧ parser.eventName = none ∧ parser.eventId = none ∧
      parser.retryMs = none ∧ parser.dataLines = [] then (none, parser)
  else if parser.dataLines = [] ∧ parser.eventName = none ∧ parser.eventId = none ∧
      parser.retryMs = none then (none, empty)
  else
    (some
      { event := parser.eventName
        eventId := parser.eventId
        retryMs := parser.retryMs
        data := List.intercalate ['\n'] parser.dataLines }, empty)

/-- `line.partition(":")`, and the value without the blank it may begin with. -/
def partitionField (line : List Char) : List Char × List Char :=
  (line.takeWhile (· != ':'),
    match line.dropWhile (· != ':') with
    | ':' :: ' ' :: value => value
    | ':' :: value => value
    | _ => [])

/-- `feed_line`; `none` is the `ValueError` of `int`. -/
def feedLine (parser : SseEventParser) (line : List Char) :
    Option (Option SseEvent × SseEventParser) :=
  if line = [] then some parser.flushEvent
  else if line.head? = some ':' then some (none, parser)
  else
    let parser := { parser with sawEventField := true }
    let fieldName := (partitionField line).1
    let fieldValue := (partitionField line).2
    if fieldName = "data".toList then
      some (none, { parser with dataLines := parser.dataLines ++ [fieldValue] })
    else if fieldName = "event".toList then some (none, { parser with eventName := some fieldValue })
    else if fieldName = "id".toList then some (none, { parser with eventId := some fieldValue })
    else if fieldName = "retry".toList ∧ isdigit fieldValue then
      (intOfDigits fieldValue).map fun ms => (none, { parser with retryMs := some ms })
    else some (none, parser)

end SseEventParser

/-! ### A parser that is fed -/

structure Reader where
  parser : SseEventParser
  events : List SseEvent
  raised : Bool

namespace Reader

def start : Reader where
  parser := .empty
  events := []
  raised := false

variable (reader : Reader)

/-- One line; behind an exception there is no more. -/
def feed (line : List Char) : Reader :=
  if reader.raised then reader
  else
    match reader.parser.feedLine line with
    | none => { reader with raised := true }
    | some (event, parser) =>
      { reader with parser := parser, events := reader.events ++ event.toList }

/-- What a reader comes to: the events it has yielded, and whether it ended in an exception. -/
structure Reading where
  events : List SseEvent
  raised : Bool
  deriving DecidableEq

def abort : Reading where
  events := reader.events
  raised := true

/-- `finish_eof` -/
def finish : Reading :=
  if reader.raised then reader.abort
  else
    { events := reader.events ++ reader.parser.flushEvent.1.toList
      raised := false }

theorem feed_raised {reader : Reader} (h : reader.raised = true) (line : List Char) :
    reader.feed line = reader := by
  rw [feed, if_pos h]

theorem feed_lines_raised {reader : Reader} (h : reader.raised = true) (lines : List (List Char)) :
    lines.foldl feed reader = reader := by
  induction lines with
  | nil => rfl
  | cons line rest ih => rw [List.foldl_cons, feed_raised h, ih]

end Reader

open Reader

/-- `_iter_sse_events`, over the lines that `response.iter_lines` yields. -/
def iterSseEvents (rawLines : List (List Char)) : Reading := (rawLines.foldl feed start).finish

def responseEvents (body : List Char) : Reading := iterSseEvents (splitlines body)

/-! ### The background reader -/

/-- The loop of `_extract_sse_line`, with the text before the index. -/
def extractFrom (eof : Bool) (before : List Char) : List Char → Option (List Char) × List Char
  | [] => (none, before)
  | '\n' :: rest =>
    (some (if before.getLast? = some '\r' then before.dropLast else before), rest)
  | '\r' :: '\n' :: rest => (some before, rest)
  | ['\r'] => if eof then (some before, []) else (none, before ++ ['\r'])
  | '\r' :: rest => (some before, rest)
  | c :: rest => extractFrom eof (before ++ [c]) rest

def extractSseLine (eof : Bool) (textBuffer : List Char) : Option (List Char) × List Char :=
  extractFrom eof [] textBuffer

def takeLines (eof : Bool) : Nat → List Char → List (List Char) × List Char
  | 0, textBuffer => ([], textBuffer)
  | fuel + 1, textBuffer =>
    match extractSseLine eof textBuffer with
    | (none, textBuffer) => ([], textBuffer)
    | (some line, textBuffer) =>
      let later := takeLines eof fuel textBuffer
      (line :: later.1, later.2)

/-- `decoder.decode(body_chunk)`; `none` is its `UnicodeDecodeError`. -/
def decodeChunk (held : Option Utf8.Partial) (bodyChunk : List UInt8) :
    Option (List Char × Option Utf8.Partial) :=
  let result := Utf8.run held bodyChunk
  (result.1.mapM Utf8.Piece.char?).map fun text => (text, result.2)

/-- The rest of `_reader` behind the last chunk. -/
def finishChunks (held : Option Utf8.Partial) (textBuffer : List Char) (reader : Reader) : Reading :=
  if held.isSome then reader.abort
  else
    let taken := takeLines true textBuffer.length textBuffer
    let reader := taken.1.foldl feed reader
    if taken.2 = [] then reader.finish else (reader.feed taken.2).finish

/-- `_reader`, over the chunks that are left. -/
def readChunks (held : Option Utf8.Partial) (textBuffer : List Char) (reader : Reader) :
    List (List UInt8) → Reading
  | [] => finishChunks held textBuffer reader
  | bodyChunk :: rest =>
    if bodyChunk = [] then readChunks held textBuffer reader rest
    else
      match decodeChunk held bodyChunk with
      | none => reader.abort
      | some (text, held) =>
        let taken := takeLines false (textBuffer ++ text).length (textBuffer ++ text)
        let reader := taken.1.foldl feed reader
        if reader.raised then reader.abort else readChunks held taken.2 reader rest

def backgroundEvents (bodyChunks : List (List UInt8)) : Reading :=
  readChunks none [] start bodyChunks

/-! ### The lines of a buffer -/

/-- The lines of a text without their ends, from one begun with `line`. -/
def linesFrom (line t : List Char) : List (List Char) :=
  (endedLinesFrom endsLine line t).map Prod.fst

def streamLines (t : List Char) : List (List Char) := linesFrom [] t

theorem linesFrom_crlf (line rest : List Char) :
    linesFrom line ('\r' :: '\n' :: rest) = line :: streamLines rest := rfl

variable {held : Option Utf8.Partial} {bodyChunks : List (List UInt8)} {before rest t : List Char}

theorem linesFrom_break {c : Char} (hc : endsLine c = true)
    (hcrlf : ∀ t, c = '\r' → rest = '\n' :: t → False) (line : List Char) :
    linesFrom line (c :: rest) = line :: streamLines rest := by
  rw [linesFrom, endedLinesFrom.eq_3 _ _ _ _ hcrlf, if_pos hc]
  rfl

theorem linesFrom_char {c : Char} (hc : endsLine c = false) (line rest : List Char) :
    linesFrom line (c :: rest) = linesFrom (line ++ [c]) rest := by
  have hcrlf : ∀ t, c = '\r' → rest = '\n' :: t → False := by
    rintro t rfl -
    cases hc
  rw [linesFrom, endedLinesFrom.eq_3 _ _ _ _ hcrlf, if_neg (by simp [hc])]
  rfl

/-- What an extraction leaves of the lines of a text whose beginning is in the buffer. -/
structure Extracts (eof : Bool) (before t : List Char)
    (result : Option (List Char) × List Char) : Prop where
  line : ∀ l, result.1 = some l → result.2.length < t.length ∧
    ∀ more, (eof = true → more = []) →
      linesFrom before (t ++ more) = l :: streamLines (result.2 ++ more)
  rest : result.1 = none → result.2 = before ++ t ∧
    (eof = true → ∀ c ∈ t, endsLine c = false)

theorem extracts_line {eof : Bool} {l : List Char} (hlen : rest.length < t.length)
    (h : ∀ more, (eof = true → more = []) →
      linesFrom before (t ++ more) = l :: streamLines (rest ++ more)) :
    Extracts eof before t (some l, rest) where
  line l' hl' := by
    cases hl'
    exact ⟨hlen, h⟩
  rest h := by cases h

theorem extractFrom_spec (eof : Bool) (hbefore : ∀ c ∈ before, endsLine c = false) (t : List Char) :
    Extracts eof before t (extractFrom eof before t) := by
  induction before, t using extractFrom.induct eof with
  | case1 before => exact ⟨by simp [extractFrom], by simp [extractFrom]⟩
  | case2 before rest =>
    -- a carriage return before the newline would have ended the line already
    have hlast : ¬ before.getLast? = some '\r' := by
      intro hlast
      have hend := hbefore _ (List.mem_of_getLast? hlast)
      cases hend
    rw [extractFrom, if_neg hlast]
    exact extracts_line (by simp) fun more _ =>
      linesFrom_break rfl (fun t heq => absurd heq (by decide)) before
  | case3 before rest =>
    rw [extractFrom]
    exact extracts_line (by simp <;> omega) fun more _ => linesFrom_crlf before (rest ++ more)
  | case4 before heof =>
    rw [extractFrom, if_pos heof]
    refine extracts_line (by simp) fun more hmore => ?_
    rw [hmore heof]
    exact linesFrom_break rfl (fun t _ hnil => by cases hnil) before
  | case5 before heof =>
    rw [extractFrom, if_neg heof]
    exact ⟨by simp, fun _ => ⟨rfl, fun h => absurd h heof⟩⟩
  | case6 before rest hlf hnil =>
    rw [extractFrom.eq_5 _ _ _ hlf hnil]
    refine extracts_line (by simp) fun more _ => ?_
    refine linesFrom_break rfl (fun t _ heq => ?_) before
    cases rest with
    | nil => exact hnil rfl
    | cons d others =>
      obtain ⟨rfl, -⟩ := List.cons.inj heq
      exact hlf others rfl
  | case7 before c rest hlf hcrlf hnil hcr ih =>
    have hc : endsLine c = false := by
      simpa [endsLine] using ⟨hlf, hcr⟩
    have hspec := ih fun d hd => by
      rcases List.mem_append.mp hd with hd | hd
      · exact hbefore d hd
      · rw [List.mem_singleton.mp hd, hc]
    rw [extractFrom.eq_6 _ _ _ _ hlf hcrlf hnil hcr]
    refine ⟨fun l hl => ?_, fun hnone => ?_⟩
    · obtain ⟨hlen, hlines⟩ := hspec.line l hl
      refine ⟨Nat.lt_succ_of_lt hlen, fun more hmore => ?_⟩
      rw [List.cons_append, linesFrom_char hc, hlines more hmore]
    · obtain ⟨hrest, hfree⟩ := hspec.rest hnone
      refine ⟨by rw [hrest, List.append_assoc]; rfl, fun heof d hd => ?_⟩
      rcases List.mem_cons.mp hd with rfl | hd
      · exact hc
      · exact hfree heof d hd

/-- The lines that are taken, and what is left of the buffer. -/
structure Takes (eof : Bool) (t : List Char) (taken : List (List Char) × List Char) : Prop where
  lines : ∀ more, (eof = true → more = []) →
    streamLines (t ++ more) = taken.1 ++ streamLines (taken.2 ++ more)
  rest : eof = true → ∀ c ∈ taken.2, endsLine c = false

theorem takeLines_spec (eof : Bool) {fuel : Nat} (hfuel : t.length ≤ fuel) :
    Takes eof t (takeLines eof fuel t) := by
  induction fuel generalizing t with
  | zero =>
    obtain rfl : t = [] := List.length_eq_zero_iff.mp (by omega)
    exact ⟨fun more _ => rfl, by simp [takeLines]⟩
  | succ fuel ih =>
    have hspec : Extracts eof [] t _ := extractFrom_spec eof (by simp) t
    cases hresult : extractFrom eof [] t with
    | mk line rest =>
      rw [hresult] at hspec
      cases line with
      | none =>
        obtain ⟨hrest, hfree⟩ := hspec.rest rfl
        have htake : takeLines eof (fuel + 1) t = ([], rest) := by
          rw [takeLines, extractSseLine, hresult]
        obtain rfl : rest = t := hrest
        rw [htake]
        exact ⟨fun more _ => rfl, hfree⟩
      | some line =>
        obtain ⟨hlen, hlines⟩ := hspec.line line rfl
        have htaken := ih (Nat.le_of_lt_succ (Nat.lt_of_lt_of_le hlen hfuel))
        have htake : takeLines eof (fuel + 1) t =
            (line :: (takeLines eof fuel rest).1, (takeLines eof fuel rest).2) := by
          rw [takeLines, extractSseLine, hresult]
        rw [htake]
        refine ⟨fun more hmore => ?_, htaken.rest⟩
        rw [streamLines, hlines more hmore, htaken.lines more hmore]
        rfl

/-! ### The lines of the chunks -/

theorem decodeChunk_spec {bodyChunk later : List UInt8}
    (h : Utf8.run held (bodyChunk ++ later) = (t.map .char, none)) :
    ∃ t₁ t₂ held', t = t₁ ++ t₂ ∧ decodeChunk held bodyChunk = some (t₁, held') ∧
      Utf8.run held' later = (t₂.map .char, none) := by
  obtain ⟨t₁, t₂, held', rfl, hfirst, hlater⟩ := Utf8.run_part h
  refine ⟨t₁, t₂, held', rfl, ?_, hlater⟩
  rw [decodeChunk, hfirst, Utf8.mapM_char?]
  rfl

theorem linesFrom_rest {line : List Char} (h : ∀ c ∈ t, endsLine c = false) :
    linesFrom line t = field (line ++ t) := by
  induction t generalizing line with
  | nil =>
    rw [linesFrom, endedLinesFrom, map_field, List.append_nil]
  | cons c rest ih =>
    rw [linesFrom_char (h c List.mem_cons_self), ih fun d hd => h d (List.mem_cons_of_mem c hd),
      List.append_assoc]
    rfl

theorem finishChunks_eq (textBuffer : List Char) (reader : Reader) :
    finishChunks none textBuffer reader = ((streamLines textBuffer).foldl feed reader).finish := by
  have htaken := takeLines_spec true (Nat.le_refl textBuffer.length)
  have hlines := htaken.lines [] fun _ => rfl
  rw [List.append_nil, List.append_nil] at hlines
  rw [finishChunks, if_neg (by simp), hlines, List.foldl_append, streamLines,
    linesFrom_rest (htaken.rest rfl), List.nil_append, field]
  by_cases hrest : (takeLines true textBuffer.length textBuffer).2 = []
  · rw [if_pos hrest, if_pos (List.isEmpty_iff.mpr hrest)]
    rfl
  · rw [if_neg hrest, if_neg (by simpa using hrest)]
    rfl

theorem finish_raised {reader : Reader} (h : reader.raised = true) :
    reader.finish = reader.abort := by
  rw [finish, if_pos h]

/-- **Whatever the chunks, the parser is fed the lines of what is in the buffer and of what the
chunks encode.** -/
theorem readChunks_eq (h : Utf8.run held bodyChunks.flatten = (t.map .char, none))
    (textBuffer : List Char) (reader : Reader) :
    readChunks held textBuffer reader bodyChunks =
      ((streamLines (textBuffer ++ t)).foldl feed reader).finish := by
  induction bodyChunks generalizing held t textBuffer reader with
  | nil =>
    rw [List.flatten_nil, Utf8.run, Prod.mk.injEq] at h
    obtain ⟨hnil, rfl⟩ := h
    obtain rfl : t = [] := List.map_eq_nil_iff.mp hnil.symm
    rw [readChunks, finishChunks_eq, List.append_nil]
  | cons bodyChunk rest ih =>
    rw [readChunks]
    by_cases hempty : bodyChunk = []
    · rw [if_pos hempty]
      rw [hempty] at h
      exact ih h textBuffer reader
    · obtain ⟨t₁, t₂, held', rfl, hdecode, hlater⟩ := decodeChunk_spec h
      have htaken := takeLines_spec false (Nat.le_refl (textBuffer ++ t₁).length)
      have hlines := htaken.lines t₂ fun heof => by cases heof
      rw [if_neg hempty, hdecode]
      rw [← List.append_assoc, hlines, List.foldl_append]
      dsimp only
      generalize (takeLines false (textBuffer ++ t₁).length (textBuffer ++ t₁)).1.foldl feed
        reader = fed
      by_cases hraised : fed.raised = true
      · rw [if_pos hraised, feed_lines_raised hraised, finish_raised hraised]
      · rw [if_neg hraised, ih hlater]

theorem backgroundEvents_eq {body : List Char} (h : bodyChunks.flatten = Utf8.encode body) :
    backgroundEvents bodyChunks = iterSseEvents (streamLines body) := by
  rw [backgroundEvents, readChunks_eq (t := body) (by rw [h, Utf8.run_encode])]
  rfl

/-- **The two readers feed the parser the same lines exactly when no other character ends a line
of the body.** -/
theorem splitlines_eq_streamLines (body : List Char) :
    splitlines body = streamLines body ↔ ∀ c ∈ body, ¬ OtherBreak c := splitlines_eq_iff body

end AlysisCode.Mcp
