/-
What a read leaves out, the model has been sent.

`filter_result` leaves out lines the ledger remembers, and every step keeps what it remembers
justified.  Results are taken to present the content they were hashed for, and the lines of a
partial result not to meet in a line end: those are the conditions on a run.
-/
import Mathlib.Algebra.GroupWithZero.Nat
import AlysisCode.ReadLedger.Session

namespace AlysisCode.ReadLedger

open Text Ranges Runs

variable {β F : Type} {h : Host β F} {init : World β} {trace : List (Event β)}
  {ledger : Ledger} {files : Files β}

/-! ### Filtering -/

/-- What `filter_result` does: it hands the result through, or both hashes are that of the
content and the result holds whole lines. -/
theorem filterResult_cases (h : Host β F) (ledger : Ledger) (files : Files β) (call : FilterCall) :
    ((filterResult h ledger files call).1 = call.result ∧
      ((filterResult h ledger files call).2 = ledger ∨
        (filterResult h ledger files call).2 = ledger.invalidate [call.path])) ∨
    ∃ content returned, files call.path = some content ∧
      call.contentHashBefore = some (h.sha256 content) ∧
      returnedLineRange call.result = some returned ∧
      filterResult h ledger files call =
        filterReturned h ledger call (h.sha256 content) returned := by
  unfold filterResult
  split
  · exact .inl ⟨rfl, .inl rfl⟩
  · split
    · rename_i before after hbefore hafter
      split
      · rename_i heq
        split
        · rename_i returned hreturned
          obtain ⟨content, hcontent, rfl⟩ := contentHash_eq_some hafter
          exact .inr ⟨content, returned, hcontent, by rw [hbefore, heq], hreturned, rfl⟩
        · exact .inl ⟨rfl, .inl rfl⟩
      · exact .inl ⟨rfl, .inr rfl⟩
    · exact .inl ⟨rfl, .inr rfl⟩

variable {entry : SnapshotEntry} {old new : List LineRange} {result : ReadResult}
  {retained : Option (List RetainedMessage)} {n : Int} {v : Bool}

theorem returned_proper {returned : LineRange}
    (hreturned : returnedLineRange result = some returned) : returned.1 ≤ returned.2 := by
  unfold returnedLineRange at hreturned
  dsimp only at hreturned
  split at hreturned
  · rename_i first last hends
    clear hends
    generalize (if result.lineClipped = true then last - 1 else last) = last at hreturned
    split at hreturned
    · cases hreturned
    · rw [← Option.some.inj hreturned]
      simp only
      omega
  · cases hreturned

variable {path : String} {w : World β}

theorem Justified.stage (hj : Justified h init trace ledger) {hash : String}
    {ranges : List LineRange} (hwaits : Waits h ⟨path, hash, result.content, ranges, v⟩) :
    Justified h init trace (ledger.stageResult h path hash result ranges v).2 := by
  unfold Ledger.stageResult
  refine ⟨hj.files, fun item hitem => ?_⟩
  dsimp only at hitem
  rcases mem_assign hitem with rfl | hold
  · exact hwaits
  · exact hj.pending item (List.mem_of_mem_drop hold)

theorem previousRanges_known (hj : Justified h init trace ledger) {content : β}
    (hn : Covers (ledger.previousRanges path (h.sha256 content) v) n) :
    Known h init trace path v content n := by
  unfold Ledger.previousRanges at hn
  split at hn
  · rename_i entry hentry
    split at hn
    · rename_i hhash
      exact (hj.files _ (mem_of_lookup hentry) v).2 content hhash.symm n hn
    · exact absurd hn covers_nil
  · exact absurd hn covers_nil

theorem previousRanges_proper (hj : Justified h init trace ledger) (path hash : String)
    (v : Bool) : Proper (ledger.previousRanges path hash v) := by
  have hnil : Proper [] := fun r hr => by cases hr
  unfold Ledger.previousRanges
  split
  · rename_i entry hentry
    split
    · exact (hj.files _ (mem_of_lookup hentry) v).1
    · exact hnil
  · exact hnil

def unreadRanges (ledger : Ledger) (call : FilterCall) (hash : String) (returned : LineRange) :
    List LineRange :=
  subtractRanges returned (ledger.previousRanges call.path hash call.includeLineNumbers)

/-! ### The conditions -/

/-- A result whose hash is still that of the content presents the content. -/
def Reads (h : Host β F) (w : World β) (call : FilterCall) : Prop :=
  ∀ content, w.files call.path = some content → call.contentHashBefore = some (h.sha256 content) →
      Presents call.includeLineNumbers (h.decode content) call.result

/-- No two unread lines the ledger would put together meet in a line end. -/
def Unjoined (h : Host β F) (w : World β) (call : FilterCall) : Prop :=
  ∀ content, w.files call.path = some content → ∀ returned ∈ returnedLineRange call.result,
      (slicePieces call.result.content returned.1
        (unreadRanges w.ledger call (h.sha256 content) returned)).IsChain
          fun l next => ¬ Meets l next

def Sound (h : Host β F) (w : World β) : Event β → Prop
  | .filter call => Reads h w call ∧ Unjoined h w call
  | _ => True

/-! ### What is left out -/

structure Accounts (h : Host β F) (init : World β) (trace : List (Event β)) (call : FilterCall)
    (answer : ReadResult) (content : β) (returned : LineRange) (unread skipped : List LineRange) :
    Prop where
  range : returnedLineRange call.result = some returned
  returnedRanges : answer.returnedRanges = some unread
  skippedRanges : answer.skippedRanges = some skipped
  /-- Every line is one or the other. -/
  complete : ∀ n, returned.1 ≤ n → n ≤ returned.2 → Covers unread n ∨ Covers skipped n
  shown : ∃ rest, answer.content = ((unread.flatMap numbers).map
    (present call.includeLineNumbers (h.decode content))).flatten ++ rest
  /-- The others have been sent. -/
  known : ∀ n, Covers skipped n → Known h init trace call.path call.includeLineNumbers content n

section

variable {call : FilterCall} {content : β} {returned : LineRange}

theorem covers_unread (hj : Justified h init trace ledger) {n : Int} :
    Covers (unreadRanges ledger call (h.sha256 content) returned) n ↔
      (returned.1 ≤ n ∧ n ≤ returned.2) ∧ ¬ Covers (ledger.previousRanges call.path
        (h.sha256 content) call.includeLineNumbers) n :=
  covers_subtractRanges (previousRanges_proper hj _ _ _)

theorem covers_skipped (hle : returned.1 ≤ returned.2) {n : Int} :
    Covers (subtractRanges returned (unreadRanges ledger call (h.sha256 content) returned)) n ↔
      (returned.1 ≤ n ∧ n ≤ returned.2) ∧
        ¬ Covers (unreadRanges ledger call (h.sha256 content) returned) n :=
  covers_subtractRanges (proper_subtractRanges hle)

theorem accounts_of (hj : Justified h init trace ledger)
    (hreturned : returnedLineRange call.result = some returned) {answer : ReadResult}
    {unread : List LineRange}
    (hunread : unreadRanges ledger call (h.sha256 content) returned = unread)
    (hnamed : answer.returnedRanges = some unread)
    (hskipped : answer.skippedRanges = some (subtractRanges returned unread))
    (hshown : ∃ rest, answer.content = ((unread.flatMap numbers).map
      (present call.includeLineNumbers (h.decode content))).flatten ++ rest) :
    Accounts h init trace call answer content returned unread (subtractRanges returned unread) := by
  subst hunread
  refine ⟨hreturned, hnamed, hskipped, fun n hlo hhi => ?_, hshown, fun n hn => ?_⟩
  · rw [covers_skipped (returned_proper hreturned)]
    tauto
  · rw [covers_skipped (returned_proper hreturned), covers_unread hj] at hn
    exact previousRanges_known hj (by tauto)

theorem slicePieces_unread (hj : Justified h init trace ledger)
    (hreturned : returnedLineRange call.result = some returned)
    (hpresents : Presents call.includeLineNumbers (h.decode content) call.result) :
    slicePieces call.result.content returned.1
        (unreadRanges ledger call (h.sha256 content) returned) =
      ((unreadRanges ledger call (h.sha256 content) returned).flatMap numbers).map
        (present call.includeLineNumbers (h.decode content)) := by
  have hle := returned_proper hreturned
  have hprev := previousRanges_proper hj call.path (h.sha256 content) call.includeLineNumbers
  exact slicePieces_eq (hpresents returned hreturned).2.2 (proper_subtractRanges hle)
    (subtractRanges_within hle hprev)

theorem unread_numbers (hj : Justified h init trace ledger)
    (hreturned : returnedLineRange call.result = some returned)
    (hpresents : Presents call.includeLineNumbers (h.decode content) call.result) :
    let unread := (unreadRanges ledger call (h.sha256 content) returned).flatMap numbers
    unread.Pairwise (· < ·) ∧ ∀ n ∈ unread, InText (h.decode content) n := by
  intro unread
  have hunread : unread = (numbers returned).filter fun n => ¬ Covers
      (ledger.previousRanges call.path (h.sha256 content) call.includeLineNumbers) n :=
    numbers_subtractRanges (previousRanges_proper hj _ _ _)
  rw [hunread]
  refine ⟨(pairwise_numbers returned).filter _, fun n hn => ?_⟩
  have hin := mem_numbers.mp (List.mem_filter.mp hn).1
  obtain ⟨hlo, hhi, -⟩ := hpresents returned hreturned
  exact ⟨by omega, by omega⟩

/-- What `filter_result` does then: it stages the whole result, leaves out all of its lines, or
stages the unread ones. -/
theorem filterReturned_cases (h : Host β F) (ledger : Ledger) (call : FilterCall) (hash : String)
    (returned : LineRange) :
    let unread := unreadRanges ledger call hash returned
    let v := call.includeLineNumbers
    (∃ result, result.content = call.result.content ∧ filterReturned h ledger call hash returned =
        ledger.stageResult h call.path hash result [returned] v) ∨
    (unread = [] ∧ ∃ answer, answer.returnedRanges = some [] ∧
      answer.skippedRanges = some (subtractRanges returned unread) ∧
      filterReturned h ledger call hash returned = (answer, ledger)) ∨
    ∃ result, ∃ tail : List Char,
      result.content = sliceContent call.result.content returned.1 unread ++
        separatorAfter (sliceContent call.result.content returned.1 unread) ++ tail ∧
      result.returnedRanges = some unread ∧
      result.skippedRanges = some (subtractRanges returned unread) ∧
      filterReturned h ledger call hash returned =
        ledger.stageResult h call.path hash result unread v := by
  intro unread v
  unfold filterReturned
  dsimp only
  split
  · exact .inl ⟨{ call.result with readLedgerForced := true }, rfl, rfl⟩
  · split
    · exact .inl ⟨_, rfl, rfl⟩
    · split
      · rename_i hnone
        exact .inr (.inl ⟨List.isEmpty_iff.mp hnone, _, rfl, rfl, rfl⟩)
      · exact .inr (.inr ⟨_, _, rfl, rfl, rfl, rfl⟩)

/-- **A filter step keeps the ledger justified and accounts for what it leaves out.** -/
theorem filterReturned_sound (hsha : Function.Injective h.sha256)
    (hj : Justified h init trace ledger)
    (hreturned : returnedLineRange call.result = some returned)
    (hpresents : Presents call.includeLineNumbers (h.decode content) call.result)
    (hchain : (slicePieces call.result.content returned.1
      (unreadRanges ledger call (h.sha256 content) returned)).IsChain
        fun l next => ¬ Meets l next) :
    Justified h init trace (filterReturned h ledger call (h.sha256 content) returned).2 ∧
      ((filterReturned h ledger call (h.sha256 content) returned).1.content = call.result.content ∨
        ∃ unread skipped, Accounts h init trace call
          (filterReturned h ledger call (h.sha256 content) returned).1 content returned unread
            skipped) := by
  obtain ⟨result, hcontent, heq⟩ | ⟨hnone, answer, hnamed, hskipped, heq⟩ |
    ⟨result, tail, hcontent, hnamed, hskipped, heq⟩ :=
      filterReturned_cases h ledger call (h.sha256 content) returned
  · rw [heq]
    refine ⟨hj.stage fun content' hhash => ?_, .inl hcontent⟩
    rw [hsha hhash]
    rw [hcontent]
    exact staged_whole (hpresents returned hreturned).2.2
  · rw [heq]
    rw [hnone] at hskipped
    exact ⟨hj, .inr ⟨[], _, accounts_of hj hreturned hnone hnamed hskipped ⟨_, rfl⟩⟩⟩
  · rw [heq]
    have hpieces := slicePieces_unread hj hreturned hpresents
    obtain ⟨hsorted, hin⟩ := unread_numbers hj hreturned hpresents
    constructor
    · refine hj.stage fun content' hhash => ?_
      rw [hsha hhash]
      rw [hcontent]
      exact staged_partial rfl hsorted hin hpieces hchain tail
    · refine .inr ⟨_, _, accounts_of hj hreturned rfl hnamed hskipped ?_⟩
      refine ⟨separatorAfter (sliceContent call.result.content returned.1
        (unreadRanges ledger call (h.sha256 content) returned)) ++ tail, ?_⟩
      show result.content = _
      rw [hcontent, List.append_assoc, ← hpieces]
      rfl

end

/-! ### Delivering -/

theorem covers_deliveredLines {nums : List Int} {original visible : List (List Char)}
    (hn : Covers (deliveredLines nums original visible) n) :
    ∃ (i : Nat) (shown : List Char), nums[i]? = some n ∧ original[i]? = some shown ∧
      shown ∈ visible := by
  obtain ⟨r, hr, hlo, hhi⟩ := hn
  obtain ⟨⟨m, line, shown⟩, hitem, hsome⟩ := List.mem_filterMap.mp hr
  dsimp only at hsome
  split at hsome
  · rename_i heq
    subst heq
    rw [← Option.some.inj hsome] at hlo hhi
    obtain rfl : m = n := by
      simp only at hlo hhi
      omega
    obtain ⟨i, hi⟩ := List.mem_iff_getElem?.mp hitem
    rw [List.getElem?_zip_eq_some, List.getElem?_zip_eq_some] at hi
    exact ⟨i, line, hi.1, hi.2.1, List.mem_of_getElem? hi.2.2⟩
  · cases hsome

theorem proper_deliveredLines (nums : List Int) (original visible : List (List Char)) :
    Proper (deliveredLines nums original visible) := by
  intro r hr
  obtain ⟨⟨m, line, shown⟩, -, hsome⟩ := List.mem_filterMap.mp hr
  dsimp only at hsome
  split at hsome
  · rw [← Option.some.inj hsome]
  · cases hsome

theorem Proper.merge (hold : Proper old) (hnew : Proper new) :
    Proper (mergeRanges (old ++ new)) := by
  refine proper_mergeRanges fun r hr => ?_
  rcases List.mem_append.mp hr with hr | hr
  · exact hold r hr
  · exact hnew r hr

theorem covers_merge : Covers (mergeRanges (old ++ new)) n ↔ Covers old n ∨ Covers new n := by
  rw [covers_mergeRanges, covers_append]

theorem entryFor_hash (ledger : Ledger) (pending : Pending) :
    (entryFor ledger pending).contentSha256 = pending.contentHash := by
  unfold entryFor
  split
  · split
    · assumption
    · rfl
  · rfl

theorem entryFor_remembered (hj : Justified h init trace ledger) (pending : Pending) :
    Remembered h init trace pending.path (entryFor ledger pending) := by
  have hnew : Remembered h init trace pending.path
      { contentSha256 := pending.contentHash, ranges := [] } := by
    intro v
    have hnone : FileReads.sent { contentSha256 := pending.contentHash, ranges := [] } v = [] := by
      cases v <;> rfl
    rw [hnone]
    exact ⟨fun r hr => absurd hr List.not_mem_nil, fun _ _ n hn => absurd hn covers_nil⟩
  unfold entryFor
  split
  · rename_i entry hentry
    split
    · exact hj.files _ (mem_of_lookup hentry)
    · exact hnew
  · exact hnew

theorem Remembered.add {reads : FileReads} {v : Bool} {delivered : List LineRange}
    (hr : Remembered h init trace path reads) (hproper : Proper delivered)
    (hknown : ∀ content, h.sha256 content = reads.contentSha256 → ∀ n, Covers delivered n →
      Known h init trace path v content n) :
    Remembered h init trace path (reads.add v delivered) := by
  have hhash : (reads.add v delivered).contentSha256 = reads.contentSha256 := by
    cases v <;> rfl
  have hsent : (reads.add v delivered).sent v = mergeRanges (reads.sent v ++ delivered) := by
    cases v <;> rfl
  have hother : (reads.add v delivered).sent (!v) = reads.sent (!v) := by
    cases v <;> rfl
  intro u
  rw [hhash]
  rcases Bool.eq_or_eq_not u v with rfl | rfl
  · rw [hsent]
    refine ⟨Proper.merge (hr u).1 hproper, fun content hcontent n hn => ?_⟩
    rcases covers_merge.mp hn with hold | hnew
    · exact (hr u).2 content hcontent n hold
    · exact hknown content hcontent n hnew
  · rw [hother]
    exact hr (!v)

theorem Remembered.note {reads : FileReads} (hr : Remembered h init trace path reads)
    (delivery : Delivery) :
    Remembered h init trace path (reads.note delivery) := by
  unfold FileReads.note
  split
  · exact hr
  · exact hr

theorem Justified.remember (hj : Justified h init trace ledger) {pending : Pending}
    {delivered : List LineRange} (hproper : Proper delivered)
    (hknown : ∀ content, h.sha256 content = pending.contentHash → ∀ n, Covers delivered n →
      Known h init trace pending.path pending.includeLineNumbers content n)
    (message : List Char) :
    Justified h init trace (ledger.remember h pending delivered message) := by
  have hentry : Remembered h init trace pending.path
      ((entryFor ledger pending).add pending.includeLineNumbers delivered) := by
    refine (entryFor_remembered hj pending).add hproper ?_
    rw [entryFor_hash]
    exact hknown
  unfold Ledger.remember
  split
  · exact hj
  · refine ⟨fun item hitem => ?_, hj.pending⟩
    rcases mem_assign hitem with rfl | hold
    · exact hentry.note _
    · exact hj.files item hold

/-- **A delivery step remembers only lines the message shows.** -/
theorem recordDelivery_sound (hsha : Function.Injective h.sha256) (hrun : Run (Step h) init trace w)
    (hj : Justified h init trace w.ledger) (call : DeliveryCall) :
    Justified h init (trace ++ [.deliver call]) (recordDelivery h w.ledger w.files call).2 := by
  have hsnoc : Justified h init (trace ++ [.deliver call]) w.ledger := hj.snoc rfl
  unfold recordDelivery
  split
  · exact hsnoc
  · split
    · exact hsnoc
    · rename_i pending hpending
      have hpopped : Justified h init (trace ++ [.deliver call])
          { w.ledger with pending := remove w.ledger.pending call.readReceiptId } :=
        hsnoc.mono (List.Subset.refl _) fun item hitem => mem_of_mem_remove hitem
      have hwaits : Waits h pending := hj.pending _ (mem_of_lookup hpending)
      dsimp only
      split
      · rename_i hhash
        obtain ⟨content, hcontent, hsame⟩ := contentHash_eq_some hhash
        unfold recordPending
        split
        · rename_i members hmembers
          split
          · rename_i visible hvisible
            apply hpopped.remember (proper_mergeRanges (proper_deliveredLines _ _ _))
            intro content' hcontent' n hn
            obtain rfl : content' = content := hsha (hcontent'.trans hsame)
            obtain ⟨i, shown, hnum, horiginal, hshown⟩ :=
              covers_deliveredLines (covers_mergeRanges.mp hn)
            refine SomeSince.last hrun (.inl ?_)
            exact ⟨hcontent, members, visible, hmembers, hvisible, shown, hshown,
              hwaits content' hcontent' i n shown hnum horiginal⟩
          · exact hpopped
        · exact hpopped
      · exact hpopped.invalidate _

/-! ### Importing -/

theorem proper_snapshotRanges (raw : Option (List LineRange)) : Proper (snapshotRanges raw) := by
  refine proper_mergeRanges fun r hr => ?_
  have hkept := (List.mem_filter.mp hr).2
  simp only [Bool.and_eq_true, decide_eq_true_eq] at hkept
  exact hkept.2

theorem covers_snapshotRanges {raw : Option (List LineRange)} (hn : Covers (snapshotRanges raw) n) :
    ∃ r ∈ raw.getD [], r.1 ≤ n ∧ n ≤ r.2 := by
  obtain ⟨r, hr, hin⟩ := covers_mergeRanges.mp hn
  exact ⟨r, (List.mem_filter.mp hr).1, hin⟩

theorem lists_of_mem {r : LineRange} (hr : r ∈ (listedRanges h entry retained v).getD []) :
    entry.Lists h retained v r := by
  cases retained with
  | none => exact hr
  | some messages =>
    obtain ⟨d, hd, hr⟩ := List.mem_flatMap.mp hr
    obtain ⟨hd, hv⟩ := List.mem_filter.mp hd
    obtain ⟨hd, hkept⟩ := List.mem_filter.mp hd
    exact ⟨d, hd, by simpa using hkept, by simpa using hv, hr⟩

theorem importEntry_sound {reads : FileReads}
    (himport : importEntry h ledger files path entry retained = some reads) :
    (∃ content, files path = some content ∧ entry.contentSha256 = h.sha256 content) ∧
      reads.contentSha256 = entry.contentSha256 ∧
      ∀ v, reads.sent v = snapshotRanges (listedRanges h entry retained v) := by
  unfold importEntry at himport
  split at himport
  · cases himport
  · rename_i hcurrent
    rw [not_or, not_not] at hcurrent
    obtain ⟨content, hcontent, hhash⟩ := contentHash_eq_some hcurrent.2
    split at himport
    · cases himport
    · dsimp only at himport
      split at himport
      · cases himport
      · rw [← Option.some.inj himport]
        refine ⟨⟨content, hcontent, hhash⟩, rfl, fun v => ?_⟩
        cases v <;> rfl

theorem mem_foldl_assign {α : Type} {items dict : List (String × α)} {item : String × α}
    (hitem : item ∈ items.foldl (fun dict item => assign dict item.1 item.2) dict) :
    item ∈ items ∨ item ∈ dict := by
  induction items generalizing dict with
  | nil => exact .inr hitem
  | cons first rest ih =>
    rcases ih hitem with hrest | hassigned
    · exact .inl (List.mem_cons_of_mem first hrest)
    · rcases mem_assign hassigned with rfl | hold
      · exact .inl List.mem_cons_self
      · exact .inr hold

/-- **A snapshot brings only lines it lists for the content the file has.** -/
theorem seedFromSnapshot_sound (hsha : Function.Injective h.sha256)
    (hrun : Run (Step h) init trace w) (hj : Justified h init trace w.ledger)
    (snapshot : List (String × SnapshotEntry)) (retained : Option (List RetainedMessage)) :
    Justified h init (trace ++ [.seed snapshot retained])
      (w.ledger.seedFromSnapshot h w.files snapshot retained).2 := by
  have hsnoc : Justified h init (trace ++ [.seed snapshot retained]) w.ledger :=
    hj.snoc rfl
  unfold Ledger.seedFromSnapshot
  split
  · refine ⟨fun item hitem => ?_, hsnoc.pending⟩
    rcases mem_foldl_assign hitem with himported | hold
    · obtain ⟨⟨path, entry⟩, hentry, hsome⟩ := List.mem_filterMap.mp himported
      obtain ⟨reads, himport, rfl⟩ := Option.map_eq_some_iff.mp hsome
      obtain ⟨⟨content, hcontent, hhash⟩, hsame, hsent⟩ := importEntry_sound himport
      intro v
      rw [hsent]
      refine ⟨proper_snapshotRanges _, fun content' hcontent' n hn => ?_⟩
      obtain rfl : content' = content := hsha ((hcontent'.trans hsame).trans hhash)
      obtain ⟨r, hr, hin⟩ := covers_snapshotRanges hn
      refine SomeSince.last hrun (.inr ?_)
      exact ⟨hcontent, entry, hentry, hhash, r, lists_of_mem hr, hin⟩
    · exact hsnoc.files item hold
  · exact hsnoc

/-! ### Runs -/

theorem enabled_invalidate (ledger : Ledger) (paths : List String) :
    (ledger.invalidate paths).enabled = ledger.enabled := by
  unfold Ledger.invalidate
  split
  · induction paths generalizing ledger with
    | nil => rfl
    | cons path _ ih => exact ih _ (by assumption)
  · rfl

theorem enabled_remember (ledger : Ledger) (pending : Pending) (delivered : List LineRange)
    (message : List Char) :
    (ledger.remember h pending delivered message).enabled = ledger.enabled := by
  unfold Ledger.remember
  split
  · rfl
  · rfl

theorem enabled_recordPending (ledger : Ledger) (pending : Pending) (message : List Char) :
    (recordPending h ledger pending message).2.enabled = ledger.enabled := by
  unfold recordPending
  split
  · split
    · exact enabled_remember ..
    · rfl
  · rfl

theorem enabled_recordDelivery (ledger : Ledger) (files : Files β) (call : DeliveryCall) :
    (recordDelivery h ledger files call).2.enabled = ledger.enabled := by
  unfold recordDelivery
  split
  · rfl
  · split
    · rfl
    · dsimp only
      split
      · exact enabled_recordPending ..
      · exact enabled_invalidate ..

theorem enabled_stageResult (ledger : Ledger) (path hash : String) (result : ReadResult)
    (ranges : List LineRange) (v : Bool) :
    (ledger.stageResult h path hash result ranges v).2.enabled = ledger.enabled := by
  unfold Ledger.stageResult
  rfl

theorem enabled_filterResult (ledger : Ledger) (files : Files β) (call : FilterCall) :
    (filterResult h ledger files call).2.enabled = ledger.enabled := by
  rcases filterResult_cases h ledger files call with
    ⟨-, hsame | hinvalid⟩ | ⟨content, returned, -, -, -, heq⟩
  · rw [hsame]
  · rw [hinvalid, enabled_invalidate]
  · rw [heq]
    rcases filterReturned_cases h ledger call (h.sha256 content) returned with
      ⟨_, -, hout⟩ | ⟨-, _, -, -, hout⟩ | ⟨_, _, -, -, -, hout⟩
    · rw [hout, enabled_stageResult]
    · rw [hout]
    · rw [hout, enabled_stageResult]

theorem Step.enabled {w' : World β} {e : Event β} (hstep : Step h w e w') :
    w'.ledger.enabled = w.ledger.enabled := by
  rw [← hstep]
  cases e with
  | change => rfl
  | filter call => exact enabled_filterResult _ _ call
  | deliver call => exact enabled_recordDelivery _ _ call
  | invalidate paths => exact enabled_invalidate _ _
  | reset =>
    show w.ledger.reset.2.enabled = _
    unfold Ledger.reset
    split <;> rfl
  | seed snapshot retained =>
    show (w.ledger.seedFromSnapshot h w.files snapshot retained).2.enabled = _
    unfold Ledger.seedFromSnapshot
    split <;> rfl

theorem filterResult_sound (hsha : Function.Injective h.sha256)
    (hj : Justified h init trace w.ledger) {call : FilterCall} (hreads : Reads h w call)
    (hunjoined : Unjoined h w call) :
    Justified h init trace (filterResult h w.ledger w.files call).2 ∧
      ((filterResult h w.ledger w.files call).1.content = call.result.content ∨
        ∃ content returned unread skipped, w.files call.path = some content ∧
          Accounts h init trace call (filterResult h w.ledger w.files call).1 content returned
            unread skipped) := by
  rcases filterResult_cases h w.ledger w.files call with
    ⟨hanswer, hsame | hinvalid⟩ | ⟨content, returned, hcontent, hbefore, hreturned, heq⟩
  · rw [hanswer, hsame]
    exact ⟨hj, .inl rfl⟩
  · rw [hanswer, hinvalid]
    exact ⟨hj.invalidate _, .inl rfl⟩
  · rw [heq]
    obtain ⟨hout, hwhole | ⟨unread, skipped, haccount⟩⟩ := filterReturned_sound hsha hj hreturned
      (hreads content hcontent hbefore) (hunjoined content hcontent returned hreturned)
    · exact ⟨hout, .inl hwhole⟩
    · exact ⟨hout, .inr ⟨content, returned, unread, skipped, hcontent, haccount⟩⟩

/-- **In every run the ledger remembers only lines that were sent since the last reset.** -/
theorem justified_of_run (hsha : Function.Injective h.sha256) {fs : Files β} {enabled : Bool}
    (hrun : Run (Step h) (begun fs enabled) trace w)
    (hok : Throughout (Step h) (begun fs enabled) (fun _ => Sound h) trace) :
    w.ledger.enabled = true → Justified h (begun fs enabled) trace w.ledger := by
  refine hrun.throughout (C := fun _ => Sound h) (I := fun trace w => w.ledger.enabled = true →
      Justified h (begun fs enabled) trace w.ledger) ?_ ?_ hok
  · intro _
    exact ⟨fun _ hitem => absurd hitem List.not_mem_nil,
      fun _ hitem => absurd hitem List.not_mem_nil⟩
  · intro trace w e w' hrun hj hsound hstep henabled
    rw [hstep.enabled] at henabled
    have hjust := hj henabled
    rw [← hstep]
    cases e with
    | change => exact hjust.snoc rfl
    | filter call => exact (filterResult_sound hsha hjust hsound.1 hsound.2).1.snoc rfl
    | deliver call => exact recordDelivery_sound hsha hrun hjust call
    | invalidate paths => exact (hjust.invalidate paths).snoc rfl
    | reset => exact Justified.reset henabled _
    | seed snapshot retained => exact seedFromSnapshot_sound hsha hrun hjust snapshot retained

/-- **In every run, lines that a result leaves out were delivered or imported since the last
reset, for the content the file has; the others are in the result.** -/
theorem omitted_lines_known (hsha : Function.Injective h.sha256) {fs : Files β} {enabled : Bool}
    {w : World β} (call : FilterCall) (hrun : Run (Step h) (begun fs enabled) trace w)
    (hok : Throughout (Step h) (begun fs enabled) (fun _ => Sound h) (trace ++ [.filter call])) :
    (filterResult h w.ledger w.files call).1.content = call.result.content ∨
      ∃ content returned unread skipped, w.files call.path = some content ∧
        Accounts h (begun fs enabled) trace call (filterResult h w.ledger w.files call).1 content
          returned unread skipped := by
  cases henabled : w.ledger.enabled with
  | false =>
    left
    unfold filterResult
    rw [henabled]
    rfl
  | true =>
    have hj := justified_of_run hsha hrun hok.initial henabled
    obtain ⟨hreads, hunjoined⟩ := hok.last hrun
    exact (filterResult_sound hsha hj hreads hunjoined).2

/-! ### A file of two lines -/

def twoLines : List Char := "one\ntwo\n".toList

def twoLinesMessage : List Char := "\x7b\"content\": \"one\\ntwo\\n\"\x7d".toList

/-- A host, as it is on the file and the message. -/
def twoLinesHost : Host (List Char) Unit where
  decode := id
  size content := (content.map Char.utf8Size).sum
  sha256 content :=
    if content = twoLines then "c3f9c8c283a2b1f2f1896f27a01cbe3cddc0c9d93f752e4639035a0f5b36f6e8"
    else "sha256 of " ++ String.ofList content
  sha256Text _ := "87acaf5390da24cf487e59394b1798feb77d66966619e29c09570385693217e7"
  receiptId _ _ _ _ _ := "2d91595584f631875b333833"
  loads message :=
    if message = twoLinesMessage then some (.obj [("content", .str "one\ntwo\n")]) else none

theorem twoLinesHost_injective : Function.Injective twoLinesHost.sha256 := by
  intro a b hab
  have hother : ∀ t : List Char, "c3f9c8c283a2b1f2f1896f27a01cbe3cddc0c9d93f752e4639035a0f5b36f6e8" ≠
      "sha256 of " ++ String.ofList t := by
    intro t heq
    have hchars := congrArg (fun s => s.toList.head?) heq
    simp at hchars
  unfold twoLinesHost at hab
  dsimp only at hab
  split at hab
  · split at hab
    · simp_all
    · exact absurd hab (hother b)
  · split at hab
    · exact absurd hab.symm (hother a)
    · have hchars := congrArg String.toList hab
      simpa using hchars

/-- `fs_read` without a line range. -/
def readTwoLines : FilterCall where
  path := "a.txt"
  result := { content := twoLines }
  contentHashBefore := some (twoLinesHost.sha256 twoLines)

def deliverTwoLines : DeliveryCall where
  readReceiptId := "2d91595584f631875b333833"
  contentForMessage := twoLinesMessage

def twoLinesFiles : Files (List Char) := fun path => if path = "a.txt" then some twoLines else none

/-- A check of the conditions on a filter step. -/
def soundAt (h : Host β F) (w : World β) : Event β → Bool
  | .filter call =>
    (w.files call.path).all fun content =>
      (returnedLineRange call.result).all fun returned =>
        decide (1 ≤ returned.1 ∧ returned.2 ≤ ((physicalLines (h.decode content)).length : Int) ∧
          (physicalLines call.result.content).take (numbers returned).length =
            (numbers returned).map (present call.includeLineNumbers (h.decode content))) &&
        decide ((slicePieces call.result.content returned.1
          (unreadRanges w.ledger call (h.sha256 content) returned)).IsChain
            fun l next => ¬ (l.getLast? = some '\r' ∧ next.head? = some '\n'))
  | _ => true

theorem sound_of_soundAt {e : Event β} (hcheck : soundAt h w e = true) : Sound h w e := by
  cases e with
  | filter call =>
    have hall : ∀ content, w.files call.path = some content → ∀ returned,
        returnedLineRange call.result = some returned →
          (1 ≤ returned.1 ∧ returned.2 ≤ ((physicalLines (h.decode content)).length : Int) ∧
            (physicalLines call.result.content).take (numbers returned).length =
              (numbers returned).map (present call.includeLineNumbers (h.decode content))) ∧
          (slicePieces call.result.content returned.1
            (unreadRanges w.ledger call (h.sha256 content) returned)).IsChain
              fun l next => ¬ Meets l next := by
      intro content hcontent returned hreturned
      rw [soundAt, hcontent, Option.all_some, hreturned, Option.all_some, Bool.and_eq_true,
        decide_eq_true_eq, decide_eq_true_eq] at hcheck
      exact hcheck
    constructor
    · intro content hcontent _ returned hreturned
      exact (hall content hcontent returned hreturned).1
    · intro content hcontent returned hreturned
      exact (hall content hcontent returned hreturned).2
  | _ => trivial

/-- After the file was read and delivered, both its lines are left out. -/
theorem omitted_lines_known_twoLines :
    ∃ content returned unread skipped, twoLinesFiles "a.txt" = some content ∧
      Accounts twoLinesHost (begun twoLinesFiles true)
        [.filter readTwoLines, .deliver deliverTwoLines] readTwoLines
        (filterResult twoLinesHost
          (next twoLinesHost (next twoLinesHost (begun twoLinesFiles true) (.filter readTwoLines))
            (.deliver deliverTwoLines)).ledger twoLinesFiles readTwoLines).1
        content returned unread skipped := by
  have hrun : Run (Step twoLinesHost) (begun twoLinesFiles true)
      ([] ++ [.filter readTwoLines] ++ [.deliver deliverTwoLines]) _ :=
    (Run.nil.snoc rfl).snoc rfl
  have hok : Throughout (Step twoLinesHost) (begun twoLinesFiles true) (fun _ => Sound twoLinesHost)
      ([] ++ [.filter readTwoLines] ++ [.deliver deliverTwoLines] ++ [.filter readTwoLines]) := by
    have hcheck : Throughout (Step twoLinesHost) (begun twoLinesFiles true)
        (fun _ w e => soundAt twoLinesHost w e = true) _ :=
      throughout_of_allSteps (fun _ _ _ h => congrArg some h)
        (by decide +kernel : allSteps (fun w e => some (next twoLinesHost w e))
          (soundAt twoLinesHost)
          ([] ++ [.filter readTwoLines] ++ [.deliver deliverTwoLines] ++ [.filter readTwoLines])
          (begun twoLinesFiles true) = true)
    intro first l rest m heq hprefix
    exact sound_of_soundAt (hcheck first l rest m heq hprefix)
  refine (omitted_lines_known twoLinesHost_injective readTwoLines hrun hok).resolve_left ?_
  decide +kernel

def twoLinesSnapshot : List (String × SnapshotEntry) :=
  [("a.txt", ⟨twoLinesHost.sha256 twoLines, some [(1, 2)], some [], []⟩)]

/-- Lines of a snapshot are left out, and no message was delivered in the session. -/
theorem imported_lines_omitted :
    ∃ w, Run (Step twoLinesHost) (begun twoLinesFiles true) [.seed twoLinesSnapshot none] w ∧
      (filterResult twoLinesHost w.ledger w.files readTwoLines).1.skippedRanges = some [(1, 2)] ∧
      ¬ SomeSince (Step twoLinesHost) (begun twoLinesFiles true) Event.isReset
        (Delivers twoLinesHost "a.txt" false twoLines 1) [.seed twoLinesSnapshot none] := by
  refine ⟨_, Run.nil.snoc rfl, by decide +kernel, ?_⟩
  rintro ⟨first, e, rest, w, htrace, -, -, hdelivers⟩
  have he : e ∈ [Event.seed twoLinesSnapshot none] := by
    rw [htrace]
    simp
  rwa [List.mem_singleton.mp he] at hdelivers

/-! ### Lines that meet -/

/-- A host whose messages are the text they show. -/
def plainHost : Host (List Char) Unit where
  decode := id
  size content := content.length
  sha256 := String.ofList
  sha256Text := String.ofList
  receiptId _ _ ranges _ _ := rangeText ranges
  loads message := some (.obj [("content", .str (String.ofList message))])

def meetingLines : List Char := "a\rb\n\nc\n".toList

def readMeeting (result : ReadResult) : FilterCall where
  path := "a.txt"
  result
  contentHashBefore := some (String.ofList meetingLines)

-- Line 2 is delivered first; then line 1 meets line 3, the notice stands in the place of
-- line 4, and line 4 is left out although the message showed something else.
example :
    let start := begun (fun _ => some meetingLines) true
    let second : ReadResult := { content := "b\n".toList, startLine := some 2, endLine := some 2 }
    let w := [Event.filter (readMeeting second), .deliver ⟨"2", "b\n".toList⟩,
        .filter (readMeeting { content := meetingLines }),
        .deliver ⟨"1, 3-4", "a\r\n[REDACTED]\n".toList ++ notice "a.txt" [(2, 2)] [(2, 2)]⟩].foldl
      (next plainHost) start
    (filterResult plainHost w.ledger w.files
      (readMeeting { content := meetingLines })).1.skippedRanges = some [(1, 2), (4, 4)] := by
  decide +kernel

end AlysisCode.ReadLedger
