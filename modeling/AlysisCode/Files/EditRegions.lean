/-
The regions an edit names.

`regions` says of an edit what it keeps of the text, what it drops and where it inserts.  An edit
that is applied does that, and nothing else.
-/
import AlysisCode.Files.Edits
import AlysisCode.Library.Runs
import AlysisCode.Library.Splice

namespace AlysisCode.Files

open Text Runs Splice

variable {F : Type}

/-! ### Regions -/

def fieldText (edit : List (String × Json F)) (key : String) : List Char :=
  match Json.get edit key with
  | .str value => value.toList
  | _ => []

def fieldLine (edit : List (String × Json F)) (key : String) : Nat :=
  match Json.get edit key with
  | .int value => value.toNat
  | _ => 0

def operationOf (edit : List (String × Json F)) : Option Operation :=
  match Json.get edit "op" with
  | .str rawOp => Operation.ofName (strip rawOp)
  | _ => none

/-- The lines from `i` to `j` give way to the text. -/
def lineRegions (lines : List (List Char)) (i j : Nat) (text : List Char) :
    List (Splice.Part Char) :=
  [.keep (lines.take i).flatten.length, .drop ((lines.take j).drop i).flatten.length, .insert text,
    .keep (lines.drop j).flatten.length]

/-- What is between the occurrences of a target is kept. -/
def targetRegions (found : List (Splice.Part Char)) : List (List Char) → List (Splice.Part Char)
  | [] => []
  | [segment] => [.keep segment.length]
  | segment :: next :: rest => .keep segment.length :: (found ++ targetRegions found (next :: rest))

def regions (content : List Char) (edit : List (String × Json F)) : List (Splice.Part Char) :=
  let lines := contentLines content
  let target := fieldText edit "target"
  match operationOf edit with
  | none => []
  | some .append => [.keep content.length, .insert (fieldText edit "content")]
  | some .prepend => [.insert (fieldText edit "content"), .keep content.length]
  | some .replaceLines =>
    lineRegions lines (fieldLine edit "start_line" - 1) (fieldLine edit "end_line")
      (fieldText edit "replacement")
  | some .insertBeforeLine =>
    lineRegions lines (fieldLine edit "line" - 1) (fieldLine edit "line" - 1) (fieldText edit "content")
  | some .insertAfterLine =>
    lineRegions lines (fieldLine edit "line") (fieldLine edit "line") (fieldText edit "content")
  | some .replaceExact =>
    targetRegions [.drop target.length, .insert (fieldText edit "replacement")]
      (segments target content)
  | some .insertBeforeExact =>
    targetRegions [.insert (fieldText edit "content"), .keep target.length] (segments target content)
  | some .insertAfterExact =>
    targetRegions [.keep target.length, .insert (fieldText edit "content")] (segments target content)

/-! ### Fields that are read -/

variable {edit : List (String × Json F)} {index : Nat} {op : Operation}
  {content content' target : List Char}

theorem requireEditString_ok {key : String} {text : List Char}
    (h : requireEditString edit key index op = .ok text) :
    fieldText edit key = text := by
  rw [requireEditString] at h
  split at h
  · rename_i value hget
    rw [fieldText, hget]
    exact Except.ok.inj h
  · cases h

theorem requireEditLineNumber_ok {key : String} {line : Nat}
    (h : requireEditLineNumber edit key index op = .ok line) :
    fieldLine edit key = line := by
  rw [requireEditLineNumber] at h
  split at h
  · rename_i value hget
    rw [fieldLine, hget]
    split at h
    · cases h
    · exact Except.ok.inj h
  · cases h

/-! ### Lines -/

theorem flatten_contentLines (content : List Char) : (contentLines content).flatten = content := by
  show ((endedLines isLineBreak content).map whole).flatten = content
  rw [← List.flatMap_def]
  exact whole_endedLines content

theorem does_lines (lines : List (List Char)) {i j : Nat} (hij : i ≤ j) (text : List Char) :
    Does (lineRegions lines i j text) lines.flatten
      ((lines.take i).flatten ++ text ++ (lines.drop j).flatten) := by
  have hsplit : lines = lines.take i ++ ((lines.take j).drop i ++ lines.drop j) := by
    have htake : (lines.take j).take i = lines.take i := by
      rw [List.take_take, Nat.min_eq_left hij]
    have hj : lines.take j = lines.take i ++ (lines.take j).drop i := by
      rw [← htake, List.take_append_drop]
    rw [← List.append_assoc, ← hj, List.take_append_drop]
  have hdoes := (does_keep (lines.take i).flatten).append
    ((does_drop ((lines.take j).drop i).flatten).append
      ((does_insert text).append (does_keep (lines.drop j).flatten)))
  rw [List.nil_append, List.nil_append, ← List.flatten_append, ← List.flatten_append,
    ← hsplit] at hdoes
  rw [List.append_assoc]
  exact hdoes

theorem applyLineEdit_does (h : applyLineEdit content edit index op = .ok content')
    (hop : op = .replaceLines ∨ op = .insertBeforeLine ∨ op = .insertAfterLine)
    (hedit : operationOf edit = some op) : Does (regions content edit) content content' := by
  have hflat := flatten_contentLines content
  rw [applyLineEdit] at h
  rcases hop with rfl | rfl | rfl
  · rw [if_pos rfl] at h
    simp only [bind_eq_ok] at h
    obtain ⟨startLine, hstart, endLine, hend, _, hrange, -, -, replacement, hreplacement, h⟩ := h
    have hle : startLine - 1 ≤ endLine := by
      unfold validateLineRange at hrange
      split at hrange
      · cases hrange
      · omega
    have hdoes := does_lines (contentLines content) hle replacement
    rw [hflat, Except.ok.inj h] at hdoes
    rw [regions, hedit]
    rw [requireEditLineNumber_ok hstart, requireEditLineNumber_ok hend,
      requireEditString_ok hreplacement]
    exact hdoes
  · rw [if_neg (by decide)] at h
    obtain ⟨line, hline, h⟩ := bind_eq_ok.mp h
    split at h
    · cases h
    · obtain ⟨text, htext, h⟩ := bind_eq_ok.mp h
      have hdoes := does_lines (contentLines content) (Nat.le_refl (line - 1)) text
      rw [if_pos rfl] at h
      rw [hflat, Except.ok.inj h] at hdoes
      rw [regions, hedit]
      rw [requireEditLineNumber_ok hline, requireEditString_ok htext]
      exact hdoes
  · rw [if_neg (by decide)] at h
    obtain ⟨line, hline, h⟩ := bind_eq_ok.mp h
    split at h
    · cases h
    · obtain ⟨text, htext, h⟩ := bind_eq_ok.mp h
      have hdoes := does_lines (contentLines content) (Nat.le_refl line) text
      rw [if_neg (by decide)] at h
      rw [hflat, Except.ok.inj h] at hdoes
      rw [regions, hedit]
      rw [requireEditLineNumber_ok hline, requireEditString_ok htext]
      exact hdoes

/-! ### Targets -/

theorem segmentsFrom_ne_nil (target : List Char) (skip : Nat) (segment t : List Char) :
    segmentsFrom target skip segment t ≠ [] := by
  induction t generalizing skip segment with
  | nil => simp [segmentsFrom]
  | cons c rest ih =>
    rw [segmentsFrom]
    split
    · exact ih _ _
    · split
      · simp
      · exact ih _ _

theorem intercalate_segmentsFrom (htarget : target ≠ []) (skip : Nat) (segment t : List Char) :
    List.intercalate target (segmentsFrom target skip segment t) = segment ++ t.drop skip := by
  induction t generalizing skip segment with
  | nil => simp [segmentsFrom]
  | cons c rest ih =>
    rw [segmentsFrom]
    by_cases hskip : 0 < skip
    · rw [if_pos hskip, ih]
      obtain ⟨n, rfl⟩ : ∃ n, skip = n + 1 := ⟨skip - 1, by omega⟩
      rw [Nat.add_sub_cancel, List.drop_succ_cons]
    · obtain rfl : skip = 0 := by omega
      rw [if_neg hskip, List.drop_zero]
      by_cases hfound : target.isPrefixOf (c :: rest) = true
      · rw [if_pos hfound, List.intercalate_cons_of_ne_nil (segmentsFrom_ne_nil _ _ _ _), ih,
          List.nil_append]
        obtain ⟨later, hlater⟩ := List.isPrefixOf_iff_prefix.mp hfound
        obtain ⟨d, more, rfl⟩ := List.exists_cons_of_ne_nil htarget
        obtain ⟨rfl, hrest⟩ := List.cons.inj hlater
        have hrest' : more ++ later = rest := hrest
        rw [List.length_cons, Nat.add_sub_cancel, ← hrest', List.drop_left]
        simp
      · rw [if_neg hfound, ih, List.drop_zero, List.append_assoc]
        rfl

theorem intercalate_segments (htarget : target ≠ []) (content : List Char) :
    List.intercalate target (segments target content) = content :=
  intercalate_segmentsFrom htarget 0 [] content

theorem does_target {found : List (Splice.Part Char)} {new : List Char} (h : Does found target new)
    {texts : List (List Char)} (hne : texts ≠ []) :
    Does (targetRegions found texts) (List.intercalate target texts)
      (List.intercalate new texts) := by
  induction texts with
  | nil => exact absurd rfl hne
  | cons segment rest ih =>
    cases rest with
    | nil =>
      rw [List.intercalate_singleton, List.intercalate_singleton]
      exact does_keep segment
    | cons next more =>
      rw [List.intercalate_cons_cons, List.intercalate_cons_cons, List.append_assoc,
        List.append_assoc]
      exact (does_keep segment).append (h.append (ih (by simp)))

theorem applyTargetEdit_does (h : applyTargetEdit content edit index op = .ok content')
    (hop : op = .replaceExact ∨ op = .insertBeforeExact ∨ op = .insertAfterExact)
    (hedit : operationOf edit = some op) : Does (regions content edit) content content' := by
  rw [applyTargetEdit] at h
  simp only [bind_eq_ok] at h
  obtain ⟨target, htarget, text, htext, expectedCount, -, count, hcount, -, -, h⟩ := h
  have hne : target ≠ [] ∧ count = countText target content := by
    rw [countMatches] at hcount
    split at hcount
    · cases hcount
    · rename_i hne
      exact ⟨hne, (Except.ok.inj hcount).symm⟩
  have hcontent := intercalate_segments hne.1 content
  have hsegments : segments target content ≠ [] := segmentsFrom_ne_nil _ _ _ _
  -- without a match there is one segment, and nothing is done to it
  have hdone : ∀ {found new}, Does found target new →
      (if count = 0 then Except.ok content else Except.ok (replaceText target new content)) =
        (.ok content' : Except EditError _) →
      Does (targetRegions found (segments target content)) content content' := by
    intro found new hfound h
    have hdoes := does_target hfound hsegments
    rw [hcontent] at hdoes
    split at h
    · rename_i hzero
      cases h
      have hone : ∃ segment, segments target content = [segment] := by
        have hlength : (segments target content).length = 1 := by
          have hpos := List.length_pos_iff.mpr hsegments
          have hcount' := hne.2
          rw [hzero, countText] at hcount'
          omega
        exact List.length_eq_one_iff.mp hlength
      obtain ⟨segment, hsegment⟩ := hone
      rw [hsegment, List.intercalate_singleton] at hcontent
      rw [hsegment, hcontent]
      exact does_keep content
    · cases h
      exact hdoes
  have htarget' := requireEditString_ok htarget
  have htext' := requireEditString_ok htext
  rw [regions, hedit]
  rcases hop with rfl | rfl | rfl
  · have hreplace : Does [.drop target.length, .insert text] target text := by
      simpa using (does_drop target).append (does_insert text)
    rw [if_pos rfl] at htext'
    rw [htarget', htext']
    exact hdone hreplace h
  · have hinsert : Does [.insert text, .keep target.length] target (text ++ target) := by
      simpa using (does_insert text).append (does_keep target)
    rw [if_neg (by decide)] at htext'
    rw [htarget', htext']
    exact hdone hinsert h
  · have hinsert : Does [.keep target.length, .insert text] target (target ++ text) := by
      simpa using (does_keep target).append (does_insert text)
    rw [if_neg (by decide)] at htext'
    rw [htarget', htext']
    exact hdone hinsert h

/-- **An edit that is applied does to its regions what it says, and nothing else.** -/
theorem applySingleFsEdit_does (h : applySingleFsEdit content edit index = .ok content') :
    Does (regions content edit) content content' := by
  rw [applySingleFsEdit] at h
  cases hop : Json.get edit "op" with
  | str rawOp =>
    rw [hop] at h
    dsimp only at h
    cases hname : Operation.ofName (strip rawOp) with
    | none =>
      rw [hname] at h
      cases h
    | some op =>
      have hedit : operationOf edit = some op := by
        rw [operationOf, hop]
        exact hname
      rw [hname] at h
      cases op with
      | append =>
        obtain ⟨text, htext, rfl⟩ := map_eq_ok.mp h
        rw [regions, hedit]
        rw [requireEditString_ok htext]
        simpa using (does_keep content).append (does_insert text)
      | prepend =>
        obtain ⟨text, htext, rfl⟩ := map_eq_ok.mp h
        rw [regions, hedit]
        rw [requireEditString_ok htext]
        simpa using (does_insert text).append (does_keep content)
      | replaceLines => exact applyLineEdit_does h (.inl rfl) hedit
      | insertBeforeLine => exact applyLineEdit_does h (.inr (.inl rfl)) hedit
      | insertAfterLine => exact applyLineEdit_does h (.inr (.inr rfl)) hedit
      | replaceExact => exact applyTargetEdit_does h (.inl rfl) hedit
      | insertBeforeExact => exact applyTargetEdit_does h (.inr (.inl rfl)) hedit
      | insertAfterExact => exact applyTargetEdit_does h (.inr (.inr rfl)) hedit
  | null | bool b | int n | float x | arr items | obj members =>
    rw [hop] at h
    cases h

end AlysisCode.Files
