/-
Reading a file window by window.

A window that is truncated names the line at which the next one begins.  Where every line fits,
the windows that are read so show every line of the file once.
-/
import AlysisCode.Files.WindowShows

namespace AlysisCode.Files

/-- The `next_range` of `_truncated_line_ranges`. -/
def truncatedNextRange (startLine endLine : Int) (totalLines : Option Int) (nextMaxLines : Int)
    (lineClipped : Bool) (requestedEndLine : Option Int) : Option (Int × Int) :=
  let nextStart := max startLine (if lineClipped then endLine else endLine + 1)
  let fullRange := nextStart + max 1 nextMaxLines - 1
  let lastRequested := (totalLines.map (min fullRange)).getD fullRange
  let lastRequested := (requestedEndLine.map (min lastRequested)).getD lastRequested
  if nextStart ≤ lastRequested then some (nextStart, min lastRequested fullRange) else none

/-- `result.get("next_range")` -/
def LineWindow.nextRange (request : WindowRequest) (window : LineWindow) : Option (Int × Int) :=
  if window.truncated then
    truncatedNextRange request.startLine window.endLine window.totalLines request.maxLines
      window.lineClipped request.endLine
  else none

inductive Pages (blocks : List (List UInt8)) : WindowRequest → List LineWindow → Prop
  | last {request : WindowRequest} {window : LineWindow}
      (h : readLineWindow request blocks = .ok window)
      (hnone : window.nextRange request = none) : Pages blocks request [window]
  | next {request : WindowRequest} {window : LineWindow} {windows : List LineWindow}
      {next : Int × Int} (h : readLineWindow request blocks = .ok window)
      (hnext : window.nextRange request = some next)
      (hpages : Pages blocks { request with startLine := next.1 } windows) :
      Pages blocks request (window :: windows)

variable {blocks : List (List UInt8)} {request : WindowRequest}

theorem Pages.unique {windows windows' : List LineWindow} (h : Pages blocks request windows)
    (h' : Pages blocks request windows') : windows = windows' := by
  induction h generalizing windows' with
  | last h hnone =>
    cases h' with
    | last h' hnone' => rw [Except.ok.inj (h.symm.trans h')]
    | next h' hnext hpages =>
      obtain rfl := Except.ok.inj (h.symm.trans h')
      rw [hnone] at hnext
      cases hnext
  | next h hnext _ ih =>
    cases h' with
    | last h' hnone' =>
      obtain rfl := Except.ok.inj (h.symm.trans h')
      rw [hnext] at hnone'
      cases hnone'
    | next h' hnext' hpages' =>
      obtain rfl := Except.ok.inj (h.symm.trans h')
      obtain rfl := Option.some.inj (hnext.symm.trans hnext')
      rw [ih hpages']

/-! ### The texts of the lines -/

theorem flatten_decodeReplacing (line bytes : List UInt8) :
    ((byteLinesFrom line bytes).map Utf8.decodeReplacing).flatten =
      Utf8.decodeReplacing (line ++ bytes) := by
  induction line, bytes using byteLinesFrom.induct with
  | case1 => simp [byteLinesFrom, Utf8.decodeReplacing, Utf8.decode, Utf8.run, Utf8.flush]
  | case2 line hne => simp [byteLinesFrom, hne]
  | case3 line rest ih =>
    have hends := Utf8.run_ascii (line ++ [0x0D]) (show (0x0A : UInt8).toNat < 0x80 by decide)
    rw [List.append_assoc] at hends
    have hsplit := Utf8.decodeReplacing_append hends rest
    rw [byteLinesFrom, List.map_cons, List.flatten_cons, ih]
    simpa using hsplit.symm
  | case4 line b rest hcrlf hb ih =>
    have hascii : b.toNat < 0x80 := by rcases hb with rfl | rfl <;> decide
    have hsplit := Utf8.decodeReplacing_append (Utf8.run_ascii line hascii) rest
    rw [byteLinesFrom.eq_3 _ _ _ hcrlf, if_pos hb, List.map_cons, List.flatten_cons, ih]
    simpa using hsplit.symm
  | case5 line b rest hcrlf hb ih =>
    rw [byteLinesFrom.eq_3 _ _ _ hcrlf, if_neg hb, ih]
    simp

theorem numbered_append (request : WindowRequest) (lineno : Int) (lines more : List (List UInt8)) :
    numbered request lineno (lines ++ more) =
      numbered request lineno lines ++ numbered request (lineno + lines.length) more := by
  induction lines generalizing lineno with
  | nil => simp [numbered]
  | cons line rest ih =>
    have hnumber : lineno + 1 + rest.length = lineno + (line :: rest).length := by
      rw [List.length_cons]
      push_cast
      omega
    rw [List.cons_append, numbered, numbered, ih, hnumber, List.cons_append]

theorem numbered_startLine (request : WindowRequest) (startLine lineno : Int)
    (lines : List (List UInt8)) :
    numbered { request with startLine := startLine } lineno lines =
      numbered request lineno lines := by
  induction lines generalizing lineno with
  | nil => rfl
  | cons line rest ih =>
    rw [numbered, numbered, ih]
    rfl

/-! ### Page by page -/

/-- Every line fits under its number. -/
def Fits (request : WindowRequest) (blocks : List (List UInt8)) : Prop :=
  ∀ (i : Nat) line, (fileLines blocks)[i]? = some line →
    request.size (i + 1) line ≤ request.maxBytes

theorem pages_from (hend : request.endLine = none) (hlines : 1 ≤ request.maxLines)
    (hbytes : 1 ≤ request.maxBytes) (hfits : Fits request blocks) {n : Nat}
    (hn : n < (fileLines blocks).length) :
    ∃ windows, Pages blocks { request with startLine := n + 1 } windows ∧
      windows.flatMap (·.contentLines) = numbered request (n + 1) ((fileLines blocks).drop n) := by
  induction hleft : (fileLines blocks).length - n using Nat.strong_induction_on generalizing n with
  | _ left ih =>
  subst hleft
  have hvalid : WindowRequest.Valid { request with startLine := n + 1 } :=
    ⟨by dsimp only; omega, by simp [hend], hlines, hbytes⟩
  have hindex : ((n : Int) + 1 - 1).toNat = n := by omega
  have hread := @readLineWindow_eq _ blocks hvalid
  rw [if_neg (by dsimp only; omega), hindex] at hread
  have hshows := @scanLines_shown { request with startLine := n + 1 } (n + 1) (Int.le_refl _) [] 0
    ((fileLines blocks).drop n)
  generalize scanLines { request with startLine := n + 1 } [] (n + 1) 0
    ((fileLines blocks).drop n) = window at hread hshows
  rcases hshows with ⟨-, htruncated, hshown⟩ |
    ⟨k, hk, htotal, hclipped, htruncated, hlast, hshown, hstops⟩ | ⟨line, hline, hshort, -⟩
  · refine ⟨_, .last hread (by simp [LineWindow.nextRange, htruncated]), ?_⟩
    simp [hshown, numbered_startLine]
  · have hpos : 0 < k := by
      rcases hstops with hbeyond | ⟨hmoves, -⟩
      · simp only [WindowRequest.effectiveEndLine, hend] at hbeyond
        omega
      · simpa using hmoves
    rw [List.length_drop] at hk
    obtain ⟨windows, hpages, hcontent⟩ := ih _ (by omega) (show n + k < _ by omega) rfl
    have hnext : ∃ last, window.nextRange { request with startLine := n + 1 } =
        some (((n + k : Nat) : Int) + 1, last) := by
      have hstart : max ((n : Int) + 1) (window.endLine + 1) = ((n + k : Nat) : Int) + 1 := by
        push_cast
        omega
      simp only [LineWindow.nextRange, htruncated hend, if_true, truncatedNextRange, hclipped,
        htotal, hend, Option.map_none, Option.getD_none, Bool.false_eq_true, if_false, hstart]
      rw [if_pos (by omega)]
      exact ⟨_, rfl⟩
    obtain ⟨last, hnext⟩ := hnext
    refine ⟨_, .next hread hnext hpages, ?_⟩
    rw [List.flatMap_cons, hshown, hcontent, numbered_startLine, List.nil_append]
    have hsplit := numbered_append request (n + 1) (((fileLines blocks).drop n).take k)
      (((fileLines blocks).drop n).drop k)
    rw [List.take_append_drop, List.drop_drop, List.length_take, List.length_drop,
      Nat.min_eq_left hk.le] at hsplit
    rw [hsplit]
    congr 2
    push_cast
    omega
  · exfalso
    rw [List.head?_drop] at hline
    have hsize := hfits n line hline
    have hsame : WindowRequest.size { request with startLine := n + 1 } (n + 1) line =
      request.size (n + 1) line := rfl
    simp only [hsame] at hshort
    omega

/-- **The windows cover the file exactly**: there is one sequence of them, it ends, and it shows
every physical line once and in order, which together are the decoded text. -/
theorem pages_cover (hfile : blocks.flatten ≠ []) (hstart : request.startLine = 1)
    (hend : request.endLine = none) (hlines : 1 ≤ request.maxLines) (hfits : Fits request blocks) :
    ∃ windows, (∀ windows', Pages blocks request windows' ↔ windows' = windows) ∧
      windows.flatMap (·.contentLines) = numbered request 1 (fileLines blocks) ∧
      ((fileLines blocks).map Utf8.decodeReplacing).flatten =
        Utf8.decodeReplacing blocks.flatten := by
  have hflat : (fileLines blocks).flatten = blocks.flatten := flatten_byteLinesFrom [] _
  obtain ⟨line, rest, hfirst⟩ := List.exists_cons_of_ne_nil (l := fileLines blocks) fun hnil => by
    rw [hnil] at hflat
    exact hfile hflat.symm
  have hdecoded : ((fileLines blocks).map Utf8.decodeReplacing).flatten =
      Utf8.decodeReplacing blocks.flatten := flatten_decodeReplacing [] blocks.flatten
  -- a line takes a byte at least
  have hbytes : 1 ≤ request.maxBytes := by
    by_contra hsmall
    have hnil : ∀ text ∈ (fileLines blocks).map Utf8.decodeReplacing, text = [] := by
      intro text htext
      obtain ⟨line, hline, rfl⟩ := List.mem_map.mp htext
      obtain ⟨i, hi⟩ := List.getElem?_of_mem hline
      have hsize := hfits i line hi
      have hzero : (Utf8.encode (request.shown (i + 1) line)).length = request.size (i + 1) line :=
        rfl
      have hshown := encode_eq_nil.mp (List.length_eq_zero_iff.mp (hzero.trans (by omega)))
      exact (List.append_eq_nil_iff.mp hshown).2
    rw [List.flatten_eq_nil_iff.mpr hnil] at hdecoded
    have hpieces := Utf8.decode_bytes blocks.flatten
    rw [List.map_eq_nil_iff.mp hdecoded.symm] at hpieces
    exact hfile hpieces.symm
  have hrequest : { request with startLine := (0 : Nat) + 1 } = request := by
    cases request
    simp_all
  obtain ⟨windows, hpages, hcontent⟩ := pages_from hend hlines hbytes hfits
    (show 0 < (fileLines blocks).length by simp [hfirst])
  rw [hrequest] at hpages
  refine ⟨windows, fun windows' => ⟨fun h => h.unique hpages, fun h => h ▸ hpages⟩, ?_, hdecoded⟩
  simpa using hcontent

/-- A file cut within a character and within the end of a line, read one line at a time. -/
theorem pages_cover_cut : ∃ windows, (∀ windows',
        Pages [[0xCE], [0xB1, 0x0D], [0x0A, 0x62]] ⟨1, none, 1, false, 4⟩ windows' ↔
          windows' = windows) ∧
      windows.flatMap (·.contentLines) =
        numbered ⟨1, none, 1, false, 4⟩ 1 (fileLines [[0xCE], [0xB1, 0x0D], [0x0A, 0x62]]) ∧
      ((fileLines [[0xCE], [0xB1, 0x0D], [0x0A, 0x62]]).map Utf8.decodeReplacing).flatten =
        Utf8.decodeReplacing [0xCE, 0xB1, 0x0D, 0x0A, 0x62] := by
  refine pages_cover (by decide) rfl rfl (by decide) fun i line hline => ?_
  have hsizes : ∀ line ∈ fileLines [[0xCE], [0xB1, 0x0D], [0x0A, 0x62]],
      (Utf8.encode (Utf8.decodeReplacing line)).length ≤ 4 := by decide +kernel
  exact Int.ofNat_le.mpr (hsizes line (List.mem_of_getElem? hline))

end AlysisCode.Files
