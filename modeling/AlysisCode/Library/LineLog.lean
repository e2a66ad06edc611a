/-
A log of records, one on a line, each known by the offset at which its line begins.

What a line is read as is a parameter: it does not depend on the line end, and an empty line is
no record.  A record that is appended behind a line end, or behind a line break of its own,
leaves those before it as they were; behind a line that was cut off it does not.
-/
import Mathlib.Data.List.Basic

namespace LineLog

variable {ρ : Type*} {read : List Char → Option ρ}

def entry (read : List Char → Option ρ) (offset : Nat) (line : List Char) : List (Nat × ρ) :=
  (read line).toList.map (offset, ·)

/-- The records, of a line begun at `offset` and what follows. -/
def recordsFrom (read : List Char → Option ρ) (offset : Nat) (line : List Char) :
    List Char → List (Nat × ρ)
  | [] => entry read offset line
  | c :: t =>
    if c = '\n' then
      entry read offset (line ++ ['\n']) ++ recordsFrom read (offset + line.length + 1) [] t
    else recordsFrom read offset (line ++ [c]) t

def records (read : List Char → Option ρ) (log : List Char) : List (Nat × ρ) :=
  recordsFrom read 0 [] log

/-- A reader of lines. -/
structure Reads (read : List Char → Option ρ) : Prop where
  empty : read [] = none
  ended : ∀ line, read (line ++ ['\n']) = read line

/-- The log is empty, or its last line has its end. -/
def Closed (log : List Char) : Prop := log = [] ∨ log.getLast? = some '\n'

instance (log : List Char) : Decidable (Closed log) := inferInstanceAs (Decidable (_ ∨ _))

theorem closed_append (log : List Char) : Closed (log ++ ['\n']) :=
  Or.inr List.getLast?_concat

variable {log s : List Char} {x : Nat × ρ}

theorem Closed.cases (h : Closed log) : log = [] ∨ ∃ s, log = s ++ ['\n'] := by
  rcases h with h | h
  · exact .inl h
  · obtain ⟨s, hs⟩ := List.getLast?_eq_some_iff.mp h
    exact .inr ⟨s, hs⟩

theorem mem_entry {offset : Nat} {line : List Char} :
    x ∈ entry read offset line ↔ x.1 = offset ∧ read line = some x.2 := by
  obtain ⟨o, r⟩ := x
  rw [entry, List.mem_map]
  constructor
  · rintro ⟨r', hr', heq⟩
    cases heq
    exact ⟨rfl, Option.mem_toList.mp hr'⟩
  · rintro ⟨rfl, h⟩
    exact ⟨r, Option.mem_toList.mpr h, rfl⟩

theorem entry_ended (hread : Reads read) (offset : Nat) (line : List Char) :
    entry read offset (line ++ ['\n']) = entry read offset line := by
  rw [entry, hread.ended, entry]

theorem entry_empty (hread : Reads read) (offset : Nat) : entry read offset [] = [] := by
  rw [entry, hread.empty]
  rfl

/-! ### Putting a log together -/

/-- A line break ends what stands before it. -/
theorem recordsFrom_break (hread : Reads read) (offset : Nat) (line s t : List Char) :
    recordsFrom read offset line (s ++ '\n' :: t) = recordsFrom read offset line s ++
        recordsFrom read (offset + line.length + s.length + 1) [] t := by
  induction s generalizing offset line with
  | nil =>
    have hline : recordsFrom read offset line ('\n' :: t) = entry read offset (line ++ ['\n']) ++
          recordsFrom read (offset + line.length + 1) [] t := rfl
    rw [List.nil_append, hline, entry_ended hread]
    rfl
  | cons c s ih =>
    rw [List.cons_append, recordsFrom, recordsFrom]
    by_cases hc : c = '\n'
    · rw [if_pos hc, if_pos hc, ih, List.append_assoc]
      congr 3
      simp only [List.length_nil, List.length_cons]
      omega
    · rw [if_neg hc, if_neg hc, ih]
      congr 2
      simp only [List.length_append, List.length_cons, List.length_nil]
      omega

/-- A line that is not broken. -/
theorem recordsFrom_line (hs : '\n' ∉ s) (offset : Nat) (line : List Char) :
    recordsFrom read offset line s = entry read offset (line ++ s) := by
  induction s generalizing line with
  | nil => rw [recordsFrom, List.append_nil]
  | cons c s ih =>
    simp only [List.mem_cons, not_or] at hs
    rw [recordsFrom, if_neg (Ne.symm hs.1), ih hs.2, List.append_assoc, List.singleton_append]

/-- **Behind a line break of its own, what is appended leaves the records as they were.** -/
theorem records_break (hread : Reads read) (log t : List Char) : records read (log ++ '\n' :: t) =
      records read log ++ recordsFrom read (log.length + 1) [] t := by
  have h := recordsFrom_break hread 0 [] log t
  rwa [List.length_nil, Nat.zero_add] at h

/-- **Behind a line end, what is appended leaves the records as they were.** -/
theorem records_closed (hread : Reads read) (h : Closed log) (t : List Char) :
    records read (log ++ t) = records read log ++ recordsFrom read log.length [] t := by
  rcases h.cases with rfl | ⟨s, rfl⟩
  · rw [List.nil_append, records, records, recordsFrom, entry_empty hread]
    rfl
  · have hbreak := records_break hread s t
    have hs := records_break hread s []
    rw [recordsFrom, entry_empty hread, List.append_nil] at hs
    rw [List.append_assoc, List.singleton_append, hbreak, hs, List.length_append]
    rfl

/-- A record begins inside the log. -/
theorem offset_lt_from (hread : Reads read) {offset : Nat} {line : List Char}
    (h : x ∈ recordsFrom read offset line s) : x.1 < offset + line.length + s.length := by
  induction s generalizing offset line with
  | nil =>
    rw [recordsFrom] at h
    obtain ⟨hx, hread'⟩ := mem_entry.mp h
    cases line with
    | nil =>
      rw [hread.empty] at hread'
      cases hread'
    | cons c line =>
      simp only [List.length_cons, List.length_nil]
      omega
  | cons c s ih =>
    rw [recordsFrom] at h
    simp only [List.length_cons]
    split at h
    · rcases List.mem_append.mp h with h | h
      · have hx := (mem_entry.mp h).1
        omega
      · have hlt := ih h
        simp only [List.length_nil] at hlt
        omega
    · have hlt := ih h
      simp only [List.length_append, List.length_cons, List.length_nil] at hlt
      omega

theorem offset_lt (hread : Reads read) (h : x ∈ records read log) : x.1 < log.length := by
  simpa using offset_lt_from hread h

/-! ### Writing records -/

/-- How a record is written: what is written stands on one line and is read back, and no part
of it is read as anything. -/
structure Written (read : List Char → Option ρ) (text : List Char) (r : ρ) : Prop where
  whole : read text = some r
  cut : ∀ p q, p ++ q = text → q ≠ [] → read p = none
  oneLine : '\n' ∉ text

/-- A record, or a part of it, that is appended with its line end. -/
theorem Written.recordsFrom_take (hread : Reads read) {text : List Char} {r : ρ}
    (h : Written read text r) (offset n : Nat) :
    recordsFrom read offset [] ((text ++ ['\n']).take n) =
      if n < text.length then [] else [(offset, r)] := by
  have hwhole : entry read offset text = [(offset, r)] := by
    rw [entry, h.whole]
    rfl
  split
  · rename_i hn
    have htake : (text ++ ['\n']).take n = text.take n := by
      rw [List.take_append_of_le_length (by omega)]
    have hline : '\n' ∉ text.take n := fun hmem => h.oneLine (List.mem_of_mem_take hmem)
    have hcut := h.cut (text.take n) (text.drop n) (List.take_append_drop n text) (by simp [hn])
    rw [htake, recordsFrom_line hline, List.nil_append, entry, hcut]
    rfl
  · by_cases hlen : n = text.length
    · rw [hlen, List.take_left, recordsFrom_line h.oneLine, List.nil_append, hwhole]
    · have htake : (text ++ ['\n']).take n = text ++ ['\n'] := by
        rw [List.take_of_length_le]
        rw [List.length_append, List.length_singleton]
        omega
      rw [htake, recordsFrom_break hread, recordsFrom_line h.oneLine, List.nil_append, hwhole,
        recordsFrom, entry_empty hread, List.append_nil]

end LineLog
