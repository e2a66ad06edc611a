/-
Line numbers of the reader and of the edits.

The reader counts physical lines, and the edits count the lines of `str.splitlines`.  The two
count alike exactly when no character before the last ends a line for the edits only.
-/
import AlysisCode.Files.Edits
import AlysisCode.Files.WindowShows
import AlysisCode.Library.Runs

namespace AlysisCode.Files

open Text Runs

variable {F : Type}

/-! ### What the edits select -/

/-- What the reader has before a line. -/
def before (t : List Char) (lineno : Nat) : List Char := ((physicalLines t).take (lineno - 1)).flatten

/-- What the reader has behind a line. -/
def behind (t : List Char) (lineno : Nat) : List Char := ((physicalLines t).drop lineno).flatten

/-- The line edits of a number work on the text the reader shows as that line, where it stands. -/
structure Selects (F : Type) (t : List Char) (lineno : Nat) (x : List Char) : Prop where
  selected : lineSelection (contentLines t) lineno lineno = x
  replaces : ∀ (edit : List (String × Json F)) index replacement,
    requireEditLineNumber edit "start_line" index .replaceLines = .ok lineno →
    requireEditLineNumber edit "end_line" index .replaceLines = .ok lineno →
    validateExpectedOld x edit index .replaceLines = .ok () →
    requireEditString edit "replacement" index .replaceLines = .ok replacement →
      applyLineEdit t edit index .replaceLines =
        .ok (before t lineno ++ replacement ++ behind t lineno)
  insertsBefore : ∀ (edit : List (String × Json F)) index text,
    requireEditLineNumber edit "line" index .insertBeforeLine = .ok lineno →
    requireEditString edit "content" index .insertBeforeLine = .ok text →
      applyLineEdit t edit index .insertBeforeLine =
        .ok (before t lineno ++ text ++ (x ++ behind t lineno))
  insertsAfter : ∀ (edit : List (String × Json F)) index text,
    requireEditLineNumber edit "line" index .insertAfterLine = .ok lineno →
    requireEditString edit "content" index .insertAfterLine = .ok text →
      applyLineEdit t edit index .insertAfterLine =
        .ok (before t lineno ++ x ++ text ++ behind t lineno)

variable {blocks : List (List UInt8)} {lines : List (List Char)} {t x : List Char}

theorem take_succ_flatten {i : Nat} (h : lines[i]? = some x) :
    (lines.take (i + 1)).flatten = (lines.take i).flatten ++ x := by
  rw [List.take_add_one, h, List.flatten_append]
  simp

theorem drop_flatten {i : Nat} (h : lines[i]? = some x) :
    (lines.drop i).flatten = x ++ (lines.drop (i + 1)).flatten := by
  obtain ⟨hlt, rfl⟩ := List.getElem?_eq_some_iff.mp h
  rw [List.drop_eq_getElem_cons hlt, List.flatten_cons]

theorem lineSelection_one {i : Nat} (h : lines[i]? = some x) :
    lineSelection lines (i + 1) (i + 1) = x := by
  obtain ⟨hlt, rfl⟩ := List.getElem?_eq_some_iff.mp h
  have hlength : (lines.take i).length = i := by
    rw [List.length_take]
    omega
  rw [lineSelection, List.take_add_one, h, Nat.add_sub_cancel, List.drop_left' hlength]
  simp

theorem selects_of_lines (hlines : contentLines t = physicalLines t) {lineno : Nat}
    (hpos : 1 ≤ lineno) (hx : (physicalLines t)[lineno - 1]? = some x) :
    Selects F t lineno x := by
  obtain ⟨i, rfl⟩ : ∃ i, lineno = i + 1 := ⟨lineno - 1, by omega⟩
  rw [Nat.add_sub_cancel] at hx
  obtain ⟨hlt, -⟩ := List.getElem?_eq_some_iff.mp hx
  have hselected : lineSelection (physicalLines t) (i + 1) (i + 1) = x := lineSelection_one hx
  refine ⟨by rw [hlines, hselected], ?_, ?_, ?_⟩
  · intro edit index replacement hstart hend hexpected hreplacement
    have hrange : validateLineRange (physicalLines t) (i + 1) (i + 1) index .replaceLines = .ok () := by
      rw [validateLineRange, if_neg (by omega), if_neg (by omega), if_neg (by omega)]
    rw [applyLineEdit, if_pos rfl, hlines, hstart, ok_bind, hend, ok_bind, hrange, ok_bind,
      hselected, hexpected, ok_bind, hreplacement, ok_bind]
    rfl
  · intro edit index text hline htext
    rw [applyLineEdit, if_neg (by decide), hlines, hline, ok_bind, if_neg (by omega), htext, ok_bind,
      if_pos rfl, Nat.add_sub_cancel, drop_flatten hx]
    rfl
  · intro edit index text hline htext
    rw [applyLineEdit, if_neg (by decide), hlines, hline, ok_bind, if_neg (by omega), htext, ok_bind,
      if_neg (by decide), take_succ_flatten hx]
    rfl

/-! ### Agreement -/

/-- The reader and the edits agree on the lines of a file that is read in the blocks. -/
structure LineNumbersAgree (F : Type) (blocks : List (List UInt8)) (t : List Char) : Prop where
  lines : ∀ request window, readLineWindow request blocks = .ok window →
    window.truncated = false → ∀ lineno x, window.Shows request lineno x → Selects F t lineno x
  total : ∀ request window, readLineWindow request blocks = .ok window →
    ∀ total, window.totalLines = some total → total = (contentLines t).length
  beyond : ∀ request startLine total,
    readLineWindow request blocks = .error (.beyondEnd startLine total) →
      total = (contentLines t).length

theorem LineNumbersAgree.lines_eq (h : LineNumbersAgree F blocks t)
    (hfile : blocks.flatten = Utf8.encode t) :
    splitlinesKeepends t = physicalLines t := by
  by_cases ht : t = []
  · rw [ht]
    rfl
  · obtain ⟨window, hok, hwhole, htotal, hshown⟩ := window_complete hfile ht
    have hlength := h.total _ window hok _ htotal
    refine List.ext_getElem? fun i => ?_
    cases hx : (physicalLines t)[i]? with
    | none =>
      have hge := List.getElem?_eq_none_iff.mp hx
      have heq : (splitlinesKeepends t).length = (contentLines t).length := rfl
      exact List.getElem?_eq_none (by omega)
    | some x =>
      obtain ⟨hlt, -⟩ := List.getElem?_eq_some_iff.mp hx
      have hlt' : i < (contentLines t).length := by omega
      have hselects := h.lines _ window hok hwhole _ x (hshown i x hx)
      have hline := lineSelection_one (List.getElem?_eq_getElem hlt')
      rw [hselects.selected] at hline
      rw [hline]
      exact List.getElem?_eq_getElem hlt'

theorem agree_of_lines_eq (hlines : contentLines t = physicalLines t)
    (hfile : blocks.flatten = Utf8.encode t) :
    LineNumbersAgree F blocks t where
  lines request window hok hwhole lineno x hx := by
    obtain ⟨hpos, hphysical⟩ := window_shows hfile hok hwhole hx
    exact selects_of_lines hlines hpos hphysical
  total request window hok total h := by
    rw [hlines]
    exact scanned_total hfile hok total h
  beyond request startLine total h := by
    rw [hlines]
    exact readLineWindow_beyond hfile h

/-- **The reader and the edits agree on line numbers exactly when no character before the last ends
a line for the edits only.** -/
theorem line_numbers_agree_iff {blocks : List (List UInt8)} {t : List Char}
    (hfile : blocks.flatten = Utf8.encode t) :
    LineNumbersAgree F blocks t ↔ ∀ c ∈ t.dropLast, ¬ OtherBreak c := by
  rw [← splitlinesKeepends_eq_iff]
  exact ⟨fun h => h.lines_eq hfile, fun h => agree_of_lines_eq h hfile⟩

/-- A file cut within a character and within the end of a line. -/
theorem line_numbers_agree_cut :
    LineNumbersAgree Unit [[0xCE], [0xB1, 0x0D], [0x0A, 0x62]] "α\r\nb".toList :=
  (line_numbers_agree_iff (by decide)).mpr (by decide)

/-- **A form feed sets them apart.** -/
theorem line_numbers_disagree :
    [Utf8.encode "a\x0Cb\n".toList].flatten = Utf8.encode "a\x0Cb\n".toList ∧
      ¬ LineNumbersAgree Unit [Utf8.encode "a\x0Cb\n".toList] "a\x0Cb\n".toList := by
  refine ⟨by decide, fun h => ?_⟩
  have hlines := h.lines_eq (by decide)
  revert hlines
  decide

end AlysisCode.Files
