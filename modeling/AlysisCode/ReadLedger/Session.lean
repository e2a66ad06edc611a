/-
How a result presents the lines of a file, and what a message shows of them.

A reader presents whole lines, numbered or plain.  A partial result puts the unread lines
together, closes the last of them with a newline and adds the notice; `Staged` says that its
lines can be told apart again, each for its own number.
-/
import AlysisCode.ReadLedger.Basic
import AlysisCode.Library.Runs

namespace AlysisCode.ReadLedger

open Text Ranges

/-! ### Merging and subtracting -/

theorem tupleLe_trans {a b c : LineRange} (hab : tupleLe a b = true) (hbc : tupleLe b c = true) :
    tupleLe a c = true := by
  simp only [tupleLe, Bool.or_eq_true, Bool.and_eq_true, decide_eq_true_eq, beq_iff_eq] at *
  omega

theorem tupleLe_total (a b : LineRange) : tupleLe a b = true ∨ tupleLe b a = true := by
  simp only [tupleLe, Bool.or_eq_true, Bool.and_eq_true, decide_eq_true_eq, beq_iff_eq]
  omega

instance : IsTrans LineRange (tupleLe · ·) := ⟨fun _ _ _ => tupleLe_trans⟩

instance : Std.Total (fun a b : LineRange => tupleLe a b = true) := ⟨tupleLe_total⟩

variable {ranges covered : List LineRange} {target : LineRange} {n : Int}

theorem covers_mergeRanges : Covers (mergeRanges ranges) n ↔ Covers ranges n := by
  have hsorted : (ranges.insertionSort (tupleLe · ·)).Pairwise (·.1 ≤ ·.1) := by
    refine (List.pairwise_insertionSort _ ranges).imp fun {a b} hab => ?_
    simp only [tupleLe, Bool.or_eq_true, Bool.and_eq_true, decide_eq_true_eq, beq_iff_eq] at hab
    omega
  unfold mergeRanges
  rw [covers_foldl_absorb hsorted (fun r _ x hx => by cases hx)]
  rw [or_iff_right covers_nil]
  simp only [Covers, List.mem_insertionSort]

theorem proper_mergeRanges (h : Proper ranges) : Proper (mergeRanges ranges) := by
  have hnil : Proper [] := fun r hr => by cases hr
  refine hnil.foldl_absorb fun r hr => h r ?_
  exact (List.mem_insertionSort _).mp hr

/-- **The unread ranges are the numbers of the target that are not covered, in order.** -/
theorem numbers_subtractRanges (h : Proper covered) :
    (subtractRanges target covered).flatMap numbers =
      (numbers target).filter fun n => ¬ Covers covered n := by
  unfold subtractRanges
  rw [numbers_foldl_without (proper_mergeRanges h), List.flatMap_singleton]
  apply List.filter_congr
  intro n _
  simp only [covers_mergeRanges]

theorem covers_subtractRanges (h : Proper covered) : Covers (subtractRanges target covered) n ↔
      (target.1 ≤ n ∧ n ≤ target.2) ∧ ¬ Covers covered n := by
  rw [covers_iff_mem, numbers_subtractRanges h, List.mem_filter, mem_numbers, decide_eq_true_eq]

theorem proper_subtractRanges (h : target.1 ≤ target.2) :
    Proper (subtractRanges target covered) := by
  refine Proper.foldl_without (fun r hr => ?_) _
  rw [List.mem_singleton.mp hr]
  exact h

theorem subtractRanges_within (htarget : target.1 ≤ target.2) (h : Proper covered) :
    ∀ r ∈ subtractRanges target covered, target.1 ≤ r.1 ∧ r.2 ≤ target.2 := by
  intro r hr
  have hle := proper_subtractRanges htarget r hr
  have hin : ∀ n, r.1 ≤ n ∧ n ≤ r.2 → target.1 ≤ n ∧ n ≤ target.2 :=
    fun n hn => ((covers_subtractRanges h).mp ⟨r, hr, hn⟩).1
  have hfirst := hin r.1 (by omega)
  have hlast := hin r.2 (by omega)
  omega

/-! ### Lines of a file -/

def lineAt (text : List Char) (n : Int) : List Char := (physicalLines text).getD (n - 1).toNat []

def present (includeLineNumbers : Bool) (text : List Char) (n : Int) : List Char :=
  (if includeLineNumbers then (toString n.toNat ++ ": ").toList else []) ++ lineAt text n

/-- The number is one of a line. -/
def InText (text : List Char) (n : Int) : Prop := 1 ≤ n ∧ n ≤ (physicalLines text).length

theorem label_no_end (includeLineNumbers : Bool) (n : Int) :
    ∀ c ∈ (if includeLineNumbers then (toString n.toNat ++ ": ").toList else []),
      endsLine c = false := by
  intro c hc
  cases includeLineNumbers with
  | false => cases hc
  | true =>
    rw [if_pos rfl, String.toList_append, List.mem_append] at hc
    rcases hc with hc | hc
    · have hdigit : c.isDigit = true := by
        rw [Nat.toString_eq_repr, Nat.toList_repr] at hc
        exact Nat.isDigit_of_mem_toDigits (by decide) (by decide) hc
      unfold endsLine
      rw [Bool.or_eq_false_iff, beq_eq_false_iff_ne, beq_eq_false_iff_ne]
      constructor <;> rintro rfl <;> cases hdigit
    · have hlabel : c = ':' ∨ c = ' ' := by simpa using hc
      rcases hlabel with rfl | rfl <;> rfl

section

variable {includeLineNumbers : Bool} {text : List Char}

theorem getElem_lineAt (h : InText text n) :
    (physicalLines text)[(n - 1).toNat]? = some (lineAt text n) := by
  obtain ⟨hlo, hhi⟩ := h
  have hlt : (n - 1).toNat < (physicalLines text).length := by omega
  unfold lineAt
  rw [List.getD_eq_getElem?_getD, List.getElem?_eq_getElem hlt, Option.getD_some]

theorem present_piece (h : InText text n) : Piece (present includeLineNumbers text n) := by
  have hline := pieces_physicalLinesFrom text (by simp) (getElem_lineAt h)
  exact hline.1.append (label_no_end _ n)

theorem present_closed {m : Int} (h : InText text n) (hm : InText text m) (hlt : n < m) :
    Closed (present includeLineNumbers text n) := by
  have hline := pieces_physicalLinesFrom text (by simp) (getElem_lineAt h)
  refine Closed.append (hline.2 ?_) (label_no_end _ n)
  have hhi := hm.2
  have hlo := h.1
  unfold physicalLines at hhi
  omega

end

/-! ### What a result presents -/

def Presents (includeLineNumbers : Bool) (text : List Char) (result : ReadResult) : Prop :=
  ∀ returned ∈ returnedLineRange result, 1 ≤ returned.1 ∧ returned.2 ≤ (physicalLines text).length ∧
      (physicalLines result.content).take (numbers returned).length =
        (numbers returned).map (present includeLineNumbers text)

variable {content : List Char} {returned : LineRange} {f : Int → List Char}

/-- **The pieces for the unread ranges are their lines.** -/
theorem slicePieces_eq
    (hlines : (physicalLines content).take (numbers returned).length = (numbers returned).map f)
    {unread : List LineRange} (hproper : Proper unread)
    (hwithin : ∀ r ∈ unread, returned.1 ≤ r.1 ∧ r.2 ≤ returned.2) :
    slicePieces content returned.1 unread = (unread.flatMap numbers).map f := by
  unfold slicePieces
  rw [List.map_flatMap]
  refine List.flatMap_congr fun r hr => ?_
  obtain ⟨hfirst, hlast⟩ := hwithin r hr
  have hle := hproper r hr
  obtain ⟨first, last⟩ := r
  obtain ⟨a, b⟩ := returned
  simp only at hfirst hlast hle ⊢
  have hstart : (max 0 (first - a)).toNat = (first - a).toNat := by omega
  have hstop : (max (max 0 (first - a)) (last - a + 1)).toNat = (last + 1 - a).toNat := by omega
  have hshort : (last + 1 - a).toNat ≤ (numbers (a, b)).length := by
    rw [length_numbers]
    simp only
    omega
  rw [hstart, hstop, numbers_within hfirst (by omega) hlast, List.map_drop, List.map_take,
    ← hlines, List.take_take, min_eq_left hshort]

/-! ### What is told apart again -/

/-- What stands for the line, up to the newline that closes it before the notice. -/
def Shows (line shown : List Char) : Prop := shown = line ∨ shown = line ++ newlineAfter line

/-- The lines of the content that waits for its delivery are those of its numbers. -/
def Staged (f : Int → List Char) (content : List Char) (ranges : List LineRange) : Prop :=
  ∀ (i : Nat) (n : Int) (shown : List Char), (ranges.flatMap numbers)[i]? = some n →
    (physicalLines content)[i]? = some shown → Shows (f n) shown

theorem staged_whole
    (hlines : (physicalLines content).take (numbers returned).length = (numbers returned).map f) :
    Staged f content [returned] := by
  intro i n shown hn hshown
  rw [List.flatMap_singleton] at hn
  have hi := (List.getElem?_eq_some_iff.mp hn).1
  have hline : ((numbers returned).map f)[i]? = some shown := by
    rw [← hlines, List.getElem?_take_of_lt hi]
    exact hshown
  rw [List.getElem?_map, hn] at hline
  exact .inl (Option.some.inj hline).symm

theorem separatorAfter_flatten {last : List Char} (h : last ≠ []) (lines : List (List Char)) :
    separatorAfter (lines ++ [last]).flatten = newlineAfter last := by
  have hend : (lines ++ [last]).flatten.getLast? = last.getLast? := by
    obtain ⟨c, hc⟩ := Option.ne_none_iff_exists'.mp (mt List.getLast?_eq_none_iff.mp h)
    rw [List.flatten_append, List.flatten_singleton, List.getLast?_append, hc, Option.some_or]
  have hne : (lines ++ [last]).flatten.isEmpty = false := by simp [h]
  unfold separatorAfter newlineAfter
  rw [hend, hne, Bool.false_or]
  simp only [beq_iff_eq]

/-- **A partial result is staged with the unread ranges, if no two of its lines meet in a
line end.** -/
theorem staged_partial {includeLineNumbers : Bool} {text : List Char} {unread : List Int}
    (hunread : ranges.flatMap numbers = unread) (hsorted : unread.Pairwise (· < ·))
    (hin : ∀ n ∈ unread, InText text n) {pieces : List (List Char)}
    (hpieces : pieces = unread.map (present includeLineNumbers text))
    (hchain : pieces.IsChain fun l next => ¬ Meets l next) (tail : List Char) :
    Staged (present includeLineNumbers text)
      (pieces.flatten ++ separatorAfter pieces.flatten ++ tail) ranges := by
  intro i n shown hn hshown
  rw [hunread] at hn
  rcases List.eq_nil_or_concat' unread with rfl | ⟨init, last, rfl⟩
  · cases hn
  · have hlast : Piece (present includeLineNumbers text last) :=
      present_piece (hin last (by simp))
    have hinit : ∀ l ∈ init.map (present includeLineNumbers text), Closed l := by
      intro l hl
      obtain ⟨m, hm, rfl⟩ := List.mem_map.mp hl
      refine present_closed (hin m (by simp [hm])) (hin last (by simp)) ?_
      exact (List.pairwise_append.mp hsorted).2.2 m hm last (List.mem_singleton_self last)
    rw [List.map_append, List.map_singleton] at hpieces
    subst hpieces
    rw [separatorAfter_flatten hlast.ne_nil, List.append_assoc,
      physicalLines_join hinit hlast hchain] at hshown
    rcases Nat.lt_or_ge i init.length with hi | hi
    · rw [List.getElem?_append_left hi] at hn
      rw [List.getElem?_append_left (by simpa using hi), List.getElem?_map, hn] at hshown
      exact .inl (Option.some.inj hshown).symm
    · have hlen := (List.getElem?_eq_some_iff.mp hn).1
      rw [List.length_append, List.length_singleton] at hlen
      obtain rfl : i = init.length := by omega
      rw [List.getElem?_concat_length] at hn
      rw [← List.length_map (present includeLineNumbers text),
        List.getElem?_append_right (Nat.le_refl _), Nat.sub_self] at hshown
      cases hn
      exact .inr (Option.some.inj hshown).symm

end AlysisCode.ReadLedger

/-! ### Sessions

Sessions with a read ledger.

Files change and the ledger is called, one after the other.  Everything the ledger remembers
of a file goes back to a step since the last reset: a message that was delivered while the
file had the content it remembers it for, or a snapshot that was imported then.  What waits
for its delivery can be told apart line by line.
-/

namespace AlysisCode.ReadLedger

open Text Ranges Runs

variable {β F : Type}

/-! ### Sessions -/

structure World (β : Type) where
  files : Files β
  ledger : Ledger

inductive Event (β : Type)
  /-- Something else writes or removes a file. -/
  | change (path : String) (content : Option β)
  | filter (call : FilterCall)
  | deliver (call : DeliveryCall)
  | invalidate (paths : List String)
  | reset
  | seed (snapshot : List (String × SnapshotEntry)) (retained : Option (List RetainedMessage))

def Event.isReset : Event β → Bool
  | .reset => true
  | _ => false

variable (h : Host β F) {key : String}

def next (w : World β) : Event β → World β
  | .change path content => { w with files := Function.update w.files path content }
  | .filter call => { w with ledger := (filterResult h w.ledger w.files call).2 }
  | .deliver call => { w with ledger := (recordDelivery h w.ledger w.files call).2 }
  | .invalidate paths => { w with ledger := w.ledger.invalidate paths }
  | .reset => { w with ledger := w.ledger.reset.2 }
  | .seed snapshot retained =>
    { w with ledger := (w.ledger.seedFromSnapshot h w.files snapshot retained).2 }

def Step (w : World β) (e : Event β) (w' : World β) : Prop := next h w e = w'

/-- A session begins with an empty ledger. -/
def begun (files : Files β) (enabled : Bool) : World β := ⟨files, { enabled }⟩

/-! ### What the model was sent -/

def Delivers (path : String) (includeLineNumbers : Bool) (content : β) (n : Int) (w : World β) :
    Event β → Prop
  | .deliver call =>
    w.files path = some content ∧ ∃ members visible,
      h.loads call.contentForMessage = some (.obj members) ∧ visibleText members = some visible ∧
          ∃ shown ∈ physicalLines visible,
            Shows (present includeLineNumbers (h.decode content) n) shown
  | _ => False

def SnapshotEntry.Lists (entry : SnapshotEntry) (retained : Option (List RetainedMessage))
    (includeLineNumbers : Bool) (r : LineRange) :
    Prop :=
  match retained with
  | none => r ∈ (if includeLineNumbers then entry.numberedRanges else entry.ranges).getD []
  | some messages => ∃ d ∈ entry.deliveries, d.messageSha256 ∈ retainedHashes h messages ∧
      d.includeLineNumbers = includeLineNumbers ∧ r ∈ d.ranges

def Imports (path : String) (includeLineNumbers : Bool) (content : β) (n : Int) (w : World β) :
    Event β → Prop
  | .seed snapshot retained =>
    w.files path = some content ∧ ∃ entry, (path, entry) ∈ snapshot ∧
      entry.contentSha256 = h.sha256 content ∧
        ∃ r, entry.Lists h retained includeLineNumbers r ∧ r.1 ≤ n ∧ n ≤ r.2
  | _ => False

/-- Since the last reset, the line was delivered or imported. -/
def Known (init : World β) (trace : List (Event β)) (path : String) (includeLineNumbers : Bool)
    (content : β) (n : Int) : Prop :=
  SomeSince (Step h) init Event.isReset (fun w e =>
    Delivers h path includeLineNumbers content n w e ∨
      Imports h path includeLineNumbers content n w e) trace

/-! ### What the ledger remembers -/

/-- The remembered ranges go back to steps since the last reset. -/
def Remembered (init : World β) (trace : List (Event β)) (path : String) (reads : FileReads) :
    Prop :=
  ∀ includeLineNumbers, Proper (reads.sent includeLineNumbers) ∧
    ∀ content, h.sha256 content = reads.contentSha256 →
      ∀ n, Covers (reads.sent includeLineNumbers) n →
        Known h init trace path includeLineNumbers content n

/-- What waits for its delivery has a line for each of its numbers. -/
def Waits (pending : Pending) : Prop :=
  ∀ content, h.sha256 content = pending.contentHash →
    Staged (present pending.includeLineNumbers (h.decode content)) pending.content pending.ranges

structure Justified (h : Host β F) (init : World β) (trace : List (Event β))
    (ledger : Ledger) : Prop where
  files : ∀ item ∈ ledger.files, Remembered h init trace item.1 item.2
  pending : ∀ item ∈ ledger.pending, Waits h item.2

/-! ### Dictionaries -/

variable {α : Type} {dict : List (String × α)} {item : String × α}

theorem mem_of_lookup {value : α} (hlookup : dict.lookup key = some value) :
    (key, value) ∈ dict := by
  obtain ⟨before, after, rfl, -⟩ := List.lookup_eq_some_iff.mp hlookup
  simp

theorem mem_assign {value : α} (h : item ∈ assign dict key value) :
    item = (key, value) ∨ item ∈ dict := by
  unfold assign at h
  split at h
  · obtain ⟨old, hold, rfl⟩ := List.mem_map.mp h
    split
    · exact .inl rfl
    · exact .inr hold
  · rcases List.mem_append.mp h with h | h
    · exact .inr h
    · exact .inl (List.mem_singleton.mp h)

theorem mem_of_mem_remove (h : item ∈ remove dict key) : item ∈ dict :=
  (List.mem_filter.mp h).1

section

variable {h : Host β F} {init : World β} {trace : List (Event β)} {ledger : Ledger} {e : Event β}

theorem Known.snoc {path : String} {v : Bool} {content : β} {n : Int}
    (hk : Known h init trace path v content n) (he : e.isReset = false) :
    Known h init (trace ++ [e]) path v content n :=
  SomeSince.snoc hk he

theorem Remembered.snoc {path : String} {reads : FileReads}
    (hr : Remembered h init trace path reads) (he : e.isReset = false) :
    Remembered h init (trace ++ [e]) path reads := by
  intro v
  refine ⟨(hr v).1, fun content hcontent n hn => ?_⟩
  exact ((hr v).2 content hcontent n hn).snoc he

/-! ### Steps that remember nothing new -/

theorem Justified.mono {ledger' : Ledger} (hj : Justified h init trace ledger)
    (hfiles : ledger'.files ⊆ ledger.files) (hpending : ledger'.pending ⊆ ledger.pending) :
    Justified h init trace ledger' :=
  ⟨fun item hitem => hj.files item (hfiles hitem),
    fun item hitem => hj.pending item (hpending hitem)⟩

theorem Justified.snoc (hj : Justified h init trace ledger) (he : e.isReset = false) :
    Justified h init (trace ++ [e]) ledger :=
  ⟨fun item hitem => (hj.files item hitem).snoc he, hj.pending⟩

theorem Justified.invalidate (hj : Justified h init trace ledger) (paths : List String) :
    Justified h init trace (ledger.invalidate paths) := by
  unfold Ledger.invalidate
  split
  · rename_i henabled
    clear henabled
    induction paths generalizing ledger with
    | nil => exact hj
    | cons path _ ih =>
      apply ih
      apply hj.mono
      · exact fun item hitem => mem_of_mem_remove hitem
      · exact fun item hitem => (List.mem_filter.mp hitem).1
  · exact hj

theorem Justified.reset (henabled : ledger.enabled = true) (trace : List (Event β)) :
    Justified h init trace ledger.reset.2 := by
  have hempty : ledger.reset.2 = { ledger with files := [], pending := [] } := by
    unfold Ledger.reset
    rw [if_pos henabled]
  rw [hempty]
  exact ⟨fun _ hitem => absurd hitem List.not_mem_nil, fun _ hitem => absurd hitem List.not_mem_nil⟩

theorem contentHash_eq_some {files : Files β} {path hash : String}
    (hhash : contentHash h ledger files path = some hash) :
    ∃ content, files path = some content ∧ hash = h.sha256 content := by
  unfold contentHash at hhash
  split at hhash
  · obtain ⟨content, hcontent, hsome⟩ := Option.bind_eq_some_iff.mp hhash
    split at hsome
    · exact ⟨content, hcontent, (Option.some.inj hsome).symm⟩
    · cases hsome
  · cases hhash

end

end AlysisCode.ReadLedger
