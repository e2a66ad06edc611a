/-
The readers of an event stream against its grammar.

In the grammar a line ends at a newline, a carriage return or both, and an event is what stands
between two empty lines.  The parser keeps exactly the fields of the event it is in, so that it
yields the events of the lines it is fed.  `str.splitlines` ends a line at eight more characters:
a body that has one of them in the text of an event is read differently by the response path.
-/
import Mathlib.Data.List.TakeDrop
import AlysisCode.Mcp.EventStream

namespace AlysisCode.Mcp

open Text Reader

/-! ### The grammar -/

namespace Grammar

/-- A byte order mark at the beginning is no part of the stream. -/
def withoutBom : List Char → List Char
  | c :: rest => if c.toNat = 0xFEFF then rest else c :: rest
  | [] => []

/-- A field and its value; a comment is none. -/
def field (line : List Char) : Option (List Char × List Char) :=
  match line.span (· != ':') with
  | ([], _ :: _) => none
  | (name, []) => some (name, [])
  | (name, _ :: value) => some (name, if value.head? = some ' ' then value.tail else value)

/-- The blocks of lines between empty lines, from one begun with `block`.  The end of the stream
ends the last. -/
def blocksFrom (block : List (List Char)) : List (List Char) → List (List (List Char))
  | [] => [block]
  | line :: rest =>
    if line = [] then block :: blocksFrom [] rest else blocksFrom (block ++ [line]) rest

def values (name : String) (block : List (List Char)) : List (List Char) :=
  block.filterMap fun line =>
    match field line with
    | none => none
    | some f => if f.1 = name.toList then some f.2 else none

def digits (t : List Char) : Bool := !t.isEmpty && t.all Char.isDigit

def name (block : List (List Char)) : Option (List Char) := (values "event" block).getLast?

/-- An identifier with a null character does not count. -/
def identifier (block : List (List Char)) : Option (List Char) :=
  ((values "id" block).filter fun v => !v.contains '\x00').getLast?

def retry (block : List (List Char)) : Option Nat :=
  ((values "retry" block).filter digits).getLast?.map asciiValue

def event (block : List (List Char)) : Option SseEvent :=
  if values "data" block = [] ∧ name block = none ∧ identifier block = none ∧ retry block = none then
    none
  else
    some
      { event := name block
        eventId := identifier block
        retryMs := retry block
        data := List.intercalate ['\n'] (values "data" block) }

def eventsOf (lines : List (List Char)) : List SseEvent := (blocksFrom [] lines).filterMap event

def events (body : List Char) : List SseEvent := eventsOf (streamLines (withoutBom body))

end Grammar

/-! ### The parser keeps the fields of its block -/

/-- The parser and the grammar read the field alike: a value that `str.isdigit` calls digits is
made of ASCII digits, and there are not too many of them; an identifier has no null character. -/
structure Plain (line : List Char) : Prop where
  retry : ∀ v, Grammar.field line = some ("retry".toList, v) → isdigit v = true →
    (∀ c ∈ v, c.isDigit = true) ∧ v.length ≤ 4300
  id : ∀ v, Grammar.field line = some ("id".toList, v) → '\x00' ∉ v

def SseEventParser.after (block : List (List Char)) : SseEventParser where
  eventName := Grammar.name block
  eventId := Grammar.identifier block
  retryMs := Grammar.retry block
  dataLines := Grammar.values "data" block
  sawEventField := block.any fun line => (Grammar.field line).isSome

theorem values_snoc (name : String) (block : List (List Char)) (line : List Char) :
    Grammar.values name (block ++ [line]) =
      Grammar.values name block ++ Grammar.values name [line] := by
  rw [Grammar.values, List.filterMap_append]
  rfl

variable {line : List Char}

theorem values_comment (h : Grammar.field line = none) (name : String) :
    Grammar.values name [line] = [] := by
  rw [Grammar.values]
  simp [h]

variable {lines : List (List Char)} {parser : SseEventParser} {reader : Reader}
  (block : List (List Char)) {n v : List Char}

theorem values_field (h : Grammar.field line = some (n, v)) (name : String) :
    Grammar.values name [line] = if n = name.toList then [v] else [] := by
  rw [Grammar.values]
  by_cases hn : n = name.toList
  · rw [if_pos hn]
    simp [h, hn]
  · rw [if_neg hn]
    simp [h, hn]

theorem field_comment (h : line.head? = some ':') : Grammar.field line = none := by
  cases line with
  | nil => cases h
  | cons c rest =>
    cases h
    rfl

theorem field_eq (hne : line ≠ []) (h : ¬ line.head? = some ':') :
    Grammar.field line = some (SseEventParser.partitionField line) := by
  rw [Grammar.field, List.span_eq_takeWhile_dropWhile, SseEventParser.partitionField]
  cases hname : line.takeWhile (· != ':') with
  | nil =>
    cases line with
    | nil => exact absurd rfl hne
    | cons c rest =>
      have hc : c = ':' := by
        by_contra hc
        rw [List.takeWhile_cons_of_pos (by simpa using hc)] at hname
        cases hname
      exact absurd (by rw [hc]; rfl) h
  | cons c rest =>
    cases hvalue : line.dropWhile (· != ':') with
    | nil => rfl
    | cons sep value =>
      have hsep : sep = ':' := by
        have hhead := List.head?_dropWhile_not (· != ':') line
        rw [hvalue] at hhead
        simpa using hhead
      subst hsep
      cases value with
      | nil => rfl
      | cons d more =>
        by_cases hd : d = ' '
        · subst hd
          rfl
        · simp [hd]

theorem digits_iff :
    Grammar.digits v = true ↔ v ≠ [] ∧ ∀ c ∈ v, c.isDigit = true := by
  rw [Grammar.digits, Bool.and_eq_true, List.all_eq_true]
  simp

theorem after_comment (h : Grammar.field line = none) :
    SseEventParser.after (block ++ [line]) = SseEventParser.after block := by
  rw [SseEventParser.after, Grammar.name, Grammar.identifier, Grammar.retry]
  simp only [values_snoc, values_comment h, List.append_nil, List.any_append, List.any_cons, h,
    List.any_nil, Option.isSome_none, Bool.or_false]
  rfl

theorem after_field (h : Grammar.field line = some (n, v)) (hid : n = "id".toList → '\x00' ∉ v) :
    SseEventParser.after (block ++ [line]) =
      { eventName := if n = "event".toList then some v else Grammar.name block
        eventId := if n = "id".toList then some v else Grammar.identifier block
        retryMs := if n = "retry".toList ∧ Grammar.digits v = true then some (asciiValue v)
          else Grammar.retry block
        dataLines := if n = "data".toList then Grammar.values "data" block ++ [v]
          else Grammar.values "data" block
        sawEventField := true } := by
  rw [SseEventParser.after]
  congr 1
  · rw [Grammar.name, values_snoc, values_field h]
    by_cases hn : n = "event".toList
    · rw [if_pos hn, if_pos hn, List.getLast?_concat]
    · rw [if_neg hn, if_neg hn, List.append_nil]
      rfl
  · rw [Grammar.identifier, values_snoc, values_field h]
    by_cases hn : n = "id".toList
    · rw [if_pos hn, if_pos hn, List.filter_append]
      simp [hid hn]
    · rw [if_neg hn, if_neg hn, List.append_nil]
      rfl
  · rw [Grammar.retry, values_snoc, values_field h]
    by_cases hn : n = "retry".toList
    · rw [if_pos hn, List.filter_append]
      by_cases hv : Grammar.digits v = true
      · rw [if_pos ⟨hn, hv⟩]
        simp [hv]
      · rw [if_neg fun h => hv h.2]
        simp [hv, Grammar.retry]
    · rw [if_neg hn, if_neg fun h => hn h.1, List.append_nil]
      rfl
  · rw [values_snoc, values_field h]
    by_cases hn : n = "data".toList
    · rw [if_pos hn, if_pos hn]
    · rw [if_neg hn, if_neg hn, List.append_nil]
  · simp [h]

/-- **A line adds its field.** -/
theorem feedLine_after (hne : line ≠ []) (hplain : Plain line) :
    (SseEventParser.after block).feedLine line =
      some (none, SseEventParser.after (block ++ [line])) := by
  rw [SseEventParser.feedLine, if_neg hne]
  by_cases hcomment : line.head? = some ':'
  · rw [if_pos hcomment, after_comment block (field_comment hcomment)]
  · have hfield := field_eq hne hcomment
    rw [if_neg hcomment]
    cases hpart : SseEventParser.partitionField line with
    | mk n v =>
      rw [hpart] at hfield
      have hid : n = "id".toList → '\x00' ∉ v := by
        rintro rfl
        exact hplain.id v hfield
      rw [after_field block hfield hid]
      by_cases hdata : n = "data".toList
      · subst hdata
        rfl
      · rw [if_neg hdata]
        by_cases hevent : n = "event".toList
        · subst hevent
          rfl
        · rw [if_neg hevent]
          by_cases hname : n = "id".toList
          · subst hname
            rfl
          · rw [if_neg hname, if_neg hdata, if_neg hevent, if_neg hname]
            by_cases hretry : n = "retry".toList ∧ isdigit v = true
            · obtain ⟨rfl, hdigits⟩ := hretry
              obtain ⟨hascii, hlen⟩ := hplain.retry v hfield hdigits
              have hv : v ≠ [] := by
                rintro rfl
                cases hdigits
              rw [if_pos ⟨rfl, hdigits⟩, intOfDigits_ascii hascii hlen,
                if_pos ⟨rfl, digits_iff.mpr ⟨hv, hascii⟩⟩]
              rfl
            · have hno : ¬ (n = "retry".toList ∧ Grammar.digits v = true) := fun h =>
                hretry ⟨h.1, isdigit_ascii (digits_iff.mp h.2).1 (digits_iff.mp h.2).2⟩
              rw [if_neg hretry, if_neg hno]
              rfl

/-- **An empty line ends the block.** -/
theorem flushEvent_after :
    (SseEventParser.after block).flushEvent = (Grammar.event block, .empty) := by
  rw [Grammar.event]
  by_cases hnone : Grammar.values "data" block = [] ∧ Grammar.name block = none ∧
      Grammar.identifier block = none ∧ Grammar.retry block = none
  · obtain ⟨hdata, hname, hid, hretry⟩ := hnone
    have hafter : SseEventParser.after block =
        { SseEventParser.empty with
          sawEventField := block.any fun line => (Grammar.field line).isSome } := by
      rw [SseEventParser.after, hdata, hname, hid, hretry]
      rfl
    rw [if_pos ⟨hdata, hname, hid, hretry⟩, hafter]
    cases block.any fun line => (Grammar.field line).isSome
    · rfl
    · rfl
  · rw [if_neg hnone, SseEventParser.flushEvent,
      if_neg fun h => hnone ⟨h.2.2.2.2, h.2.1, h.2.2.1, h.2.2.2.1⟩]
    exact if_neg hnone

/-- **The events of plain lines are those of their blocks.** -/
theorem feed_lines_plain (h : ∀ line ∈ lines, Plain line) (block : List (List Char))
    (events : List SseEvent) :
    (lines.foldl feed ⟨.after block, events, false⟩).finish =
      ⟨events ++ (Grammar.blocksFrom block lines).filterMap Grammar.event, false⟩ := by
  induction lines generalizing block events with
  | nil =>
    rw [List.foldl_nil, finish, if_neg (by simp), flushEvent_after]
    cases hevent : Grammar.event block with
    | none | some event => simp [Grammar.blocksFrom, hevent]
  | cons line rest ih =>
    obtain ⟨hline, hrest⟩ := List.forall_mem_cons.mp h
    rw [List.foldl_cons, feed, if_neg (by simp), Grammar.blocksFrom]
    by_cases hempty : line = []
    · have hfeed : (SseEventParser.after block).feedLine line =
          some (Grammar.event block, .after []) := by
        rw [SseEventParser.feedLine, if_pos hempty, flushEvent_after]
        rfl
      rw [hfeed, if_pos hempty]
      rw [ih hrest]
      cases hevent : Grammar.event block with
      | none | some event => simp [hevent]
    · rw [feedLine_after block hempty hline, if_neg hempty]
      rw [ih hrest]
      simp

theorem iterSseEvents_plain (h : ∀ line ∈ lines, Plain line) :
    iterSseEvents lines = ⟨Grammar.eventsOf lines, false⟩ := feed_lines_plain h [] []

/-! ### The texts of the response path -/

/-- No character of the text ends a line for `str.splitlines` only. -/
def Clean (t : List Char) : Prop := ∀ c ∈ t, ¬ OtherBreak c

instance (t : List Char) : Decidable (Clean t) := inferInstanceAs (Decidable (∀ c ∈ t, _))

/-- The texts of an event. -/
structure SseEvent.Clean (e : SseEvent) : Prop where
  event : ∀ t, e.event = some t → Mcp.Clean t
  eventId : ∀ t, e.eventId = some t → Mcp.Clean t
  data : Mcp.Clean e.data

structure SseEventParser.Clean (parser : SseEventParser) : Prop where
  eventName : ∀ t, parser.eventName = some t → Mcp.Clean t
  eventId : ∀ t, parser.eventId = some t → Mcp.Clean t
  dataLines : ∀ t ∈ parser.dataLines, Mcp.Clean t

theorem SseEventParser.clean_empty : SseEventParser.empty.Clean where
  eventName t h := by cases h
  eventId t h := by cases h
  dataLines t h := by cases h

theorem clean_value (h : Clean line) :
    Clean (SseEventParser.partitionField line).2 := by
  have hdrop : Clean (line.dropWhile (· != ':')) := fun c hc => h c (List.dropWhile_subset _ hc)
  rw [SseEventParser.partitionField]
  split
  · rename_i value heq
    rw [heq] at hdrop
    exact fun c hc => hdrop c (List.mem_cons_of_mem _ (List.mem_cons_of_mem _ hc))
  · rename_i value _ heq
    rw [heq] at hdrop
    exact fun c hc => hdrop c (List.mem_cons_of_mem _ hc)
  · intro c hc
    cases hc

theorem clean_intercalate {texts : List (List Char)} (h : ∀ t ∈ texts, Clean t) :
    Clean (List.intercalate ['\n'] texts) := by
  induction texts with
  | nil =>
    intro c hc
    cases hc
  | cons t rest ih =>
    cases rest with
    | nil => simpa using h t List.mem_cons_self
    | cons next others =>
      intro c hc
      rw [List.intercalate_cons_cons, List.mem_append, List.mem_append] at hc
      rcases hc with (hc | hc) | hc
      · exact h t List.mem_cons_self c hc
      · rw [List.mem_singleton.mp hc]
        decide
      · exact ih (fun t' ht' => h t' (List.mem_cons_of_mem t ht')) c hc

theorem clean_flush (h : parser.Clean) :
    (∀ e ∈ parser.flushEvent.1, e.Clean) ∧ parser.flushEvent.2.Clean := by
  rw [SseEventParser.flushEvent]
  split
  · exact ⟨by simp, h⟩
  · split
    · exact ⟨by simp, SseEventParser.clean_empty⟩
    · refine ⟨fun e he => ?_, SseEventParser.clean_empty⟩
      cases he
      exact ⟨h.eventName, h.eventId, clean_intercalate h.dataLines⟩

theorem clean_feedLine {parser' : SseEventParser} {event : Option SseEvent} (h : parser.Clean)
    (hline : Clean line) (hfeed : parser.feedLine line = some (event, parser')) :
    (∀ e ∈ event, e.Clean) ∧ parser'.Clean := by
  have hvalue := clean_value hline
  rw [SseEventParser.feedLine] at hfeed
  by_cases hempty : line = []
  · rw [if_pos hempty] at hfeed
    have hflush := clean_flush h
    rwa [Option.some.inj hfeed] at hflush
  · rw [if_neg hempty] at hfeed
    generalize (SseEventParser.partitionField line).1 = fieldName at hfeed
    generalize (SseEventParser.partitionField line).2 = fieldValue at hfeed hvalue
    have hset : ∀ t, some fieldValue = some t → Clean t := by
      rintro t heq
      rw [← Option.some.inj heq]
      exact hvalue
    split at hfeed
    · cases hfeed
      exact ⟨by simp, h⟩
    · dsimp only at hfeed
      split at hfeed
      · cases hfeed
        refine ⟨by simp, h.eventName, h.eventId, fun t ht => ?_⟩
        rcases List.mem_append.mp ht with ht | ht
        · exact h.dataLines t ht
        · rw [List.mem_singleton.mp ht]
          exact hvalue
      · split at hfeed
        · cases hfeed
          exact ⟨by simp, hset, h.eventId, h.dataLines⟩
        · split at hfeed
          · cases hfeed
            exact ⟨by simp, h.eventName, hset, h.dataLines⟩
          · split at hfeed
            · obtain ⟨ms, -, heq⟩ := Option.map_eq_some_iff.mp hfeed
              cases heq
              exact ⟨by simp, h.eventName, h.eventId, h.dataLines⟩
            · cases hfeed
              exact ⟨by simp, h.eventName, h.eventId, h.dataLines⟩

structure Reader.Clean (reader : Reader) : Prop where
  parser : reader.parser.Clean
  events : ∀ e ∈ reader.events, e.Clean

theorem clean_feed (h : reader.Clean) (hline : Clean line) :
    (reader.feed line).Clean := by
  rw [feed]
  split
  · exact h
  · cases hfeed : reader.parser.feedLine line with
    | none => exact ⟨h.parser, h.events⟩
    | some result =>
      obtain ⟨hevent, hparser⟩ := clean_feedLine h.parser hline hfeed
      refine ⟨hparser, fun e he => ?_⟩
      rcases List.mem_append.mp he with he | he
      · exact h.events e he
      · exact hevent e (Option.mem_toList.mp he)

theorem clean_finish (h : reader.Clean) : ∀ e ∈ reader.finish.events, e.Clean := by
  rw [finish]
  split
  · exact h.events
  · intro e he
    rcases List.mem_append.mp he with he | he
    · exact h.events e he
    · exact (clean_flush h.parser).1 e (Option.mem_toList.mp he)

theorem clean_splitlines {body : List Char} (h : line ∈ splitlines body) : Clean line := by
  rw [splitlines_eq] at h
  obtain ⟨l, hl, rfl⟩ := List.mem_map.mp h
  intro c hc hother
  have hfree := (ended_endedLines rfl rfl body l hl).body c hc
  rw [hother.1] at hfree
  cases hfree

/-- **No event of the response path has one in its texts.** -/
theorem clean_responseEvents (body : List Char) : ∀ e ∈ (responseEvents body).events, e.Clean := by
  refine clean_finish (List.foldlRecOn _ _ ?_ fun reader hreader line hline => ?_)
  · exact ⟨SseEventParser.clean_empty, by simp [start]⟩
  · exact clean_feed hreader (clean_splitlines hline)

/-! ### Agreement -/

/-- A body that both readers read as the grammar does. -/
structure Regular (body : List Char) : Prop where
  breaks : Clean body
  bom : Grammar.withoutBom body = body
  plain : ∀ line ∈ streamLines body, Plain line

/-- **The two readers agree, with each other and with the grammar, on every regular body, and
where they agree no event has a character in its texts that ends a line for one of them only.** -/
theorem event_readers_agree {body : List Char} {bodyChunks : List (List UInt8)}
    (h : bodyChunks.flatten = Utf8.encode body) :
    (Regular body → responseEvents body = backgroundEvents bodyChunks ∧
      backgroundEvents bodyChunks = ⟨Grammar.events body, false⟩) ∧
    (responseEvents body = backgroundEvents bodyChunks ∧
      backgroundEvents bodyChunks = ⟨Grammar.events body, false⟩ →
        ∀ e ∈ Grammar.events body, e.Clean) := by
  refine ⟨fun hregular => ?_, fun ⟨hsame, hgrammar⟩ e he => ?_⟩
  · have hlines := (splitlines_eq_streamLines body).mpr hregular.breaks
    rw [responseEvents, backgroundEvents_eq h, hlines, iterSseEvents_plain hregular.plain,
      Grammar.events, hregular.bom]
    exact ⟨rfl, rfl⟩
  · have hclean := clean_responseEvents body
    rw [hsame, hgrammar] at hclean
    exact hclean e he

/-- A body cut within a character, and between the two ends of a line. -/
def cutChunks : List (List UInt8) :=
  [[0x64, 0x61, 0x74, 0x61, 0x3A, 0xC3], [0xA9, 0x0D], [0x0A, 0x0D], [0x0A]]

theorem event_readers_agree_cut :
    responseEvents "data:é\r\n\r\n".toList = backgroundEvents cutChunks ∧
      backgroundEvents cutChunks = ⟨Grammar.events "data:é\r\n\r\n".toList, false⟩ := by
  refine (event_readers_agree (by decide)).1 ⟨by decide, rfl, fun line hline => ?_⟩
  have hfield : ∀ v, Grammar.field line ≠ some ("retry".toList, v) ∧
      Grammar.field line ≠ some ("id".toList, v) := by
    intro v
    rcases List.mem_pair.mp (show line ∈ ["data:é".toList, []] from hline) with rfl | rfl
    · constructor
      · intro h
        cases h
      · intro h
        cases h
    · constructor
      · intro h
        cases h
      · intro h
        cases h
  exact ⟨fun v h => absurd h (hfield v).1, fun v h => absurd h (hfield v).2⟩

/-- A body whose event has a line separator of Unicode in its data. -/
def separatedBody : List Char := "data: a".toList ++ Char.ofNat 0x2028 :: "b\n\n".toList

/-- **The readers disagree.** -/
theorem event_readers_disagree :
    [Utf8.encode separatedBody].flatten = Utf8.encode separatedBody ∧
      responseEvents separatedBody ≠ backgroundEvents [Utf8.encode separatedBody] := by
  decide

end AlysisCode.Mcp
