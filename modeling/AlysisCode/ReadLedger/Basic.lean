/-
The read ledger of a session.

The ledger remembers which lines of a file the model has been sent, by the hash of the
content they were sent from.  A read of lines it remembers is cut down to the others and a
notice; the lines a result brings are remembered once they are found again in the message
that was appended.

What lies under a path is its content, or nothing the ledger can read; `Host` is how contents
are read as text and how contents and texts are hashed.
-/
import AlysisCode.Library.Json
import AlysisCode.Library.Lines
import AlysisCode.Library.Ranges

namespace AlysisCode.ReadLedger

open Text Ranges

abbrev LineRange := Int × Int

/-- Contents as the ledger meets them. -/
structure Host (β F : Type) where
  /-- The text of a content, as the reader decodes it. -/
  decode : β → List Char
  size : β → Nat
  sha256 : β → String
  /-- `hashlib.sha256(text.encode("utf-8")).hexdigest()`. -/
  sha256Text : List Char → String
  receiptId : String → String → List LineRange → List Char → Bool → String
  /-- `json.loads`, if it does not raise. -/
  loads : List Char → Option (Json F)

/-- What can be read under each path below the root. -/
abbrev Files (β : Type) := String → Option β

/-! ### Ranges of lines -/

/-- Tuples compare by their first component first. -/
def tupleLe (a b : LineRange) : Bool := a.1 < b.1 || (a.1 == b.1 && a.2 ≤ b.2)

def mergeRanges (ranges : List LineRange) : List LineRange :=
  (ranges.insertionSort (tupleLe · ·)).foldl absorb []

def subtractRanges (target : LineRange) (covered : List LineRange) : List LineRange :=
  (mergeRanges covered).foldl without [target]

def rangeText (ranges : List LineRange) : String :=
  ", ".intercalate (ranges.map fun (first, last) =>
    if first = last then toString first else s!"{first}-{last}")

/-! ### What the reader returns -/

/-- The fields of a result that the ledger reads or writes; the others go through it as they
are. -/
structure ReadResult where
  content : List Char := []
  startLine : Option Int := none
  endLine : Option Int := none
  /-- `returned_range`, if it is a dictionary. -/
  returnedRange : Option (Option Int × Option Int) := none
  (lineClipped readLedgerForced readLedgerSkipped readLedgerPartial : Bool := false)
  readLedgerNotice : Option (List Char) := none
  returnedRanges : Option (List LineRange) := none
  skippedRanges : Option (List LineRange) := none
  readReceiptId : String := ""
  deriving DecidableEq

/-- `_returned_line_range`: the whole lines the result holds. -/
def returnedLineRange (result : ReadResult) : Option LineRange :=
  let ends : Option Int × Option Int :=
    match result.returnedRange with
    | some ends => ends
    | none =>
      match result.startLine, result.endLine with
      | some first, some last => (some first, some last)
      | _, _ => (some 1, some (physicalLines result.content).length)
  match ends with
  | (some first, some last) =>
    let last := if result.lineClipped then last - 1 else last
    if last < first then none else some (first, last)
  | _ => none

def notice (path : String) (skipped previous : List LineRange) : List Char :=
  (s!"lines {rangeText skipped} of {path} were already returned in this session (unchanged); " ++
    s!"re-read skipped; request outside {rangeText (mergeRanges previous)} or set force=true").toList

/-- The pieces of `_slice_content`: the lines of the unread ranges. -/
def slicePieces (content : List Char) (returnedStart : Int) (unread : List LineRange) :
    List (List Char) :=
  let lines := physicalLines content
  unread.flatMap fun (first, last) =>
    let first := max 0 (first - returnedStart)
    let last := max first (last - returnedStart + 1)
    (lines.take last.toNat).drop first.toNat

def sliceContent (content : List Char) (returnedStart : Int) (unread : List LineRange) :
    List Char :=
  (slicePieces content returnedStart unread).flatten

/-- What separates the unread lines from the notice. -/
def separatorAfter (content : List Char) : List Char :=
  if content.isEmpty || content.getLast? == some '\n' then [] else ['\n']

/-! ### The ledger -/

/-- An entry of `deliveries`. -/
structure Delivery where
  messageSha256 : String
  ranges : List LineRange
  includeLineNumbers : Bool
  deriving DecidableEq

structure FileReads where
  contentSha256 : String
  ranges : List LineRange
  numberedRanges : List LineRange := []
  deliveries : List Delivery := []
  deriving DecidableEq

def FileReads.sent (reads : FileReads) (includeLineNumbers : Bool) : List LineRange :=
  if includeLineNumbers then reads.numberedRanges else reads.ranges

/-- A value of `_pending`. -/
structure Pending where
  path : String
  contentHash : String
  content : List Char
  ranges : List LineRange
  includeLineNumbers : Bool
  deriving DecidableEq

/-- `SessionReadLedger`; `files` and `pending` are `_files` and `_pending`, in the order of
their keys. -/
structure Ledger where
  enabled : Bool := true
  files : List (String × FileReads) := []
  pending : List (String × Pending) := []
  deriving DecidableEq

/-- `d[key] = value`: a new key is the last one. -/
def assign {α : Type} (dict : List (String × α)) (key : String) (value : α) : List (String × α) :=
  if dict.any (·.1 == key) then dict.map fun item => if item.1 = key then (key, value) else item
  else dict ++ [(key, value)]

/-- `d.pop(key, None)`. -/
def remove {α : Type} (dict : List (String × α)) (key : String) : List (String × α) :=
  dict.filter (·.1 != key)

def defaultFsReadMaxBytes : Nat := 12000

section

variable {β F : Type} (h : Host β F)

variable (ledger : Ledger) (files : Files β)

def contentHash (path : String) : Option String :=
  if ledger.enabled then
    (files path).bind fun content =>
      if h.size content ≤ defaultFsReadMaxBytes then some (h.sha256 content) else none
  else none

namespace Ledger

def invalidate (ledger : Ledger) (paths : List String) : Ledger :=
  if ledger.enabled then
    paths.foldl (fun ledger path =>
      { ledger with
        files := remove ledger.files path
        pending := ledger.pending.filter (·.2.path != path) }) ledger
  else ledger

/-- `reset`, with the number of entries it cleared. -/
def reset (ledger : Ledger) : Nat × Ledger :=
  if ledger.enabled then (ledger.files.length, { ledger with files := [], pending := [] })
  else (0, ledger)

/-- `_stage_result`: at most 256 results wait for their delivery, the oldest are dropped. -/
def stageResult (ledger : Ledger) (path contentHash : String) (result : ReadResult)
    (ranges : List LineRange) (includeLineNumbers : Bool) : ReadResult × Ledger :=
  let receiptId := h.receiptId path contentHash ranges result.content includeLineNumbers
  let pending := ledger.pending.drop (ledger.pending.length - 255)
  ({ result with readReceiptId := receiptId },
    { ledger with
      pending := assign pending receiptId
        ⟨path, contentHash, result.content, ranges, includeLineNumbers⟩ })

def previousRanges (ledger : Ledger) (path contentHash : String) (includeLineNumbers : Bool) :
    List LineRange :=
  match ledger.files.lookup path with
  | some entry =>
    if entry.contentSha256 = contentHash then entry.sent includeLineNumbers else []
  | none => []

end Ledger

/-- The arguments of `filter_result`. -/
structure FilterCall where
  path : String
  result : ReadResult
  contentHashBefore : Option String
  force : Bool := false
  includeLineNumbers : Bool := false

/-- `filter_result`, when both hashes agree and the result holds whole lines. -/
def filterReturned (call : FilterCall) (contentHashAfter : String) (returned : LineRange) :
    ReadResult × Ledger :=
  let previous := ledger.previousRanges call.path contentHashAfter call.includeLineNumbers
  if call.force then
    ledger.stageResult h call.path contentHashAfter
      { call.result with readLedgerForced := true } [returned] call.includeLineNumbers
  else
    let unread := subtractRanges returned previous
    if unread = [returned] then
      ledger.stageResult h call.path contentHashAfter call.result [returned]
        call.includeLineNumbers
    else
      let skipped := subtractRanges returned unread
      let text := notice call.path skipped previous
      if unread.isEmpty then
        ({ call.result with
            content := text
            readLedgerSkipped := true
            readLedgerNotice := some text
            returnedRanges := some []
            skippedRanges := some skipped }, ledger)
      else
        let unreadContent := sliceContent call.result.content returned.1 unread
        ledger.stageResult h call.path contentHashAfter
          { call.result with
            content := unreadContent ++ separatorAfter unreadContent ++ text
            readLedgerPartial := true
            readLedgerNotice := some text
            returnedRanges := some unread
            skippedRanges := some skipped } unread call.includeLineNumbers

def filterResult (call : FilterCall) :
    ReadResult × Ledger :=
  if !ledger.enabled then (call.result, ledger)
  else
    match call.contentHashBefore, contentHash h ledger files call.path with
    | some before, some after =>
      if before = after then
        match returnedLineRange call.result with
        | some returned => filterReturned h ledger call after returned
        | none => (call.result, ledger)
      else (call.result, ledger.invalidate [call.path])
    | _, _ => (call.result, ledger.invalidate [call.path])

/-- The arguments of `record_delivery`: the receipt the result carries, and the message. -/
structure DeliveryCall where
  readReceiptId : String
  contentForMessage : List Char

/-- What `record_delivery` reports. -/
structure Receipt (F : Type) where
  path : String
  contentSha256 : String
  deliveredRanges : List LineRange
  visibleChars : Nat
  visibleUtf8Bytes : Nat
  retrievableHandle : Json F
  retrievableLocator : Json F
  retention : String := "active_context"

/-- The text of the file that a parsed message shows. -/
def visibleText (message : List (String × Json F)) : Option (List Char) :=
  let shown :=
    match Json.get message "preview_format" with
    | .str "file_content" => Json.get message "preview"
    | _ => Json.get message "content"
  match shown with
  | .str text => some text.toList
  | _ => none

/-- The lines of the original that the message shows in their place. -/
def deliveredLines (numbers : List Int) (original visible : List (List Char)) :
    List LineRange :=
  (numbers.zip (original.zip visible)).filterMap fun (number, line, shown) =>
    if line = shown then some (number, number) else none

variable (pending : Pending)

/-- The entry that `record_delivery` adds to. -/
def entryFor : FileReads :=
  match ledger.files.lookup pending.path with
  | some entry =>
    if entry.contentSha256 = pending.contentHash then entry
    else { contentSha256 := pending.contentHash, ranges := [] }
  | none => { contentSha256 := pending.contentHash, ranges := [] }

/-- The entry with more lines sent. -/
def FileReads.add (reads : FileReads) (includeLineNumbers : Bool) (delivered : List LineRange) :
    FileReads :=
  if includeLineNumbers then
    { reads with numberedRanges := mergeRanges (reads.numberedRanges ++ delivered) }
  else { reads with ranges := mergeRanges (reads.ranges ++ delivered) }

def FileReads.note (reads : FileReads) (delivery : Delivery) : FileReads :=
  if reads.deliveries.contains delivery then reads
  else { reads with deliveries := reads.deliveries ++ [delivery] }

def Ledger.remember (delivered : List LineRange) (message : List Char) :
    Ledger :=
  if delivered.isEmpty then ledger
  else
    let entry := (entryFor ledger pending).add pending.includeLineNumbers delivered
    { ledger with
      files := assign ledger.files pending.path
        (entry.note ⟨h.sha256Text message, delivered, pending.includeLineNumbers⟩) }

/-- `record_delivery`, when the receipt is pending and the content is still the same. -/
def recordPending (message : List Char) :
    Option (Receipt F) × Ledger :=
  match h.loads message with
  | some (.obj members) =>
    match visibleText members with
    | some visible =>
      let delivered := mergeRanges <| deliveredLines (pending.ranges.flatMap numbers)
        (physicalLines pending.content) (physicalLines visible)
      (some
        { path := pending.path
          contentSha256 := pending.contentHash
          deliveredRanges := delivered
          visibleChars := visible.length
          visibleUtf8Bytes := (String.ofList visible).utf8ByteSize
          retrievableHandle := Json.get members "artifact_handle"
          retrievableLocator := Json.get members "artifact_locator" },
        ledger.remember h pending delivered message)
    | none => (none, ledger)
  | _ => (none, ledger)

def recordDelivery (call : DeliveryCall) :
    Option (Receipt F) × Ledger :=
  if !ledger.enabled then (none, ledger)
  else
    match ledger.pending.lookup call.readReceiptId with
    | none => (none, ledger)
    | some pending =>
      let ledger := { ledger with pending := remove ledger.pending call.readReceiptId }
      if contentHash h ledger files pending.path = some pending.contentHash then
        recordPending h ledger pending call.contentForMessage
      else (none, ledger.invalidate [pending.path])

/-! ### Snapshots -/

structure SnapshotEntry where
  contentSha256 : String
  ranges : Option (List LineRange)
  numberedRanges : Option (List LineRange)
  deliveries : List Delivery

def snapshotRanges (raw : Option (List LineRange)) : List LineRange :=
  mergeRanges ((raw.getD []).filter fun item => 0 < item.1 && item.1 ≤ item.2)

/-- A message of the history that is kept. -/
structure RetainedMessage where
  role : String
  content : List Char

def retainedHashes (messages : List RetainedMessage) : List String :=
  (messages.filter (·.role == "tool")).map fun message => h.sha256Text message.content

def keptDeliveries (entry : SnapshotEntry) (retained : Option (List RetainedMessage)) :
    List Delivery :=
  match retained with
  | some messages => entry.deliveries.filter fun d =>
    (retainedHashes h messages).contains d.messageSha256
  | none => entry.deliveries

def listedRanges (entry : SnapshotEntry) (retained : Option (List RetainedMessage))
    (includeLineNumbers : Bool) : Option (List LineRange) :=
  match retained with
  | some _ => some (((keptDeliveries h entry retained).filter
      (·.includeLineNumbers == includeLineNumbers)).flatMap (·.ranges))
  | none => if includeLineNumbers then entry.numberedRanges else entry.ranges

/-- What `seed_from_snapshot` takes over of an entry. -/
def importEntry (path : String) (entry : SnapshotEntry) (retained : Option (List RetainedMessage)) :
    Option FileReads :=
  if entry.contentSha256 = "" ∨ contentHash h ledger files path ≠ some entry.contentSha256 then
    none
  else if (listedRanges h entry retained false).isNone then none
  else
    let ranges := snapshotRanges (listedRanges h entry retained false)
    let numberedRanges := snapshotRanges (listedRanges h entry retained true)
    if ranges.isEmpty && numberedRanges.isEmpty then none
    else
      some
        { contentSha256 := entry.contentSha256
          ranges
          numberedRanges
          deliveries := keptDeliveries h entry retained }

/-- `seed_from_snapshot`, with the number of entries it took over. -/
def Ledger.seedFromSnapshot (snapshot : List (String × SnapshotEntry))
    (retained : Option (List RetainedMessage)) :
    Nat × Ledger :=
  if ledger.enabled then
    let imported := snapshot.filterMap fun (path, entry) =>
      (importEntry h ledger files path entry retained).map (path, ·)
    (imported.length,
      { ledger with
        files := imported.foldl (fun dict item => assign dict item.1 item.2) ledger.files })
  else (0, ledger)

end

example : subtractRanges (1, 10) [(6, 7), (2, 3), (4, 4)] = [(1, 1), (5, 5), (8, 10)] := by
  decide +kernel

end AlysisCode.ReadLedger
