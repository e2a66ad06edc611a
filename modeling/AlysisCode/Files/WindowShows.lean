/-
What a window of lines shows.

Line by line a window is simple: lines are skipped up to the first that is asked for, and shown
under their numbers as long as they fit.  Within a line the decoder and the buffer hold what has
begun of it, so the loop over the fragments comes to the same, in whatever blocks the file is read.
-/
import AlysisCode.Files.LineWindow

namespace AlysisCode.Files

open Text

variable {request : WindowRequest} {scan : Scan} {t : List Char} {begun fragment : List UInt8}
  {rest fragments : List (List UInt8 × Bool)} {lines : List (List UInt8)} {window : LineWindow}
  {blocks : List (List UInt8)}

/-! ### Line by line -/

def WindowRequest.shown (request : WindowRequest) (lineno : Int) (line : List UInt8) : List Char :=
  request.label lineno ++ Utf8.decodeReplacing line

/-- The bytes that showing a line takes. -/
def WindowRequest.size (request : WindowRequest) (lineno : Int) (line : List UInt8) : Nat :=
  (Utf8.encode (request.shown lineno line)).length

def scanLines (request : WindowRequest) (shown : List (List Char)) (lineno bytesUsed : Int) :
    List (List UInt8) → LineWindow
  | [] =>
    ⟨request.startLine, max lineno request.startLine - 1, some (lineno - 1), shown,
      false, false, false⟩
  | line :: rest =>
    if request.effectiveEndLine < lineno then
      ⟨request.startLine, max lineno request.startLine - 1, none, shown,
        request.endLine.all fun endLine => lineno ≤ endLine, false, false⟩
    else if lineno < request.startLine then scanLines request shown (lineno + 1) bytesUsed rest
    else if request.maxBytes - bytesUsed < request.size lineno line then
      if shown = [] then
        ⟨request.startLine, lineno, none,
          [Utf8.decodeIgnoring ((Utf8.encode (request.shown lineno line)).take
            (request.maxBytes - bytesUsed).toNat)], true, true, true⟩
      else ⟨request.startLine, max lineno request.startLine - 1, none, shown, true, true, false⟩
    else
      scanLines request (shown ++ [request.shown lineno line]) (lineno + 1)
        (bytesUsed + request.size lineno line) rest

def fileLines (blocks : List (List UInt8)) : List (List UInt8) := byteLinesFrom [] blocks.flatten

/-! ### The fragments of the lines that are left -/

/-- The fragments that are left are those of the lines. -/
structure Remaining (begun : List UInt8) (fragments : List (List UInt8 × Bool))
    (lines : List (List UInt8)) : Prop where
  bytes : begun ++ fragments.flatMap Prod.fst = lines.flatten
  join : joinFragments begun fragments = lines
  filled : ∀ f ∈ fragments, f.2 = false → f.1 ≠ []

theorem begins_line {line : List UInt8} (h : joinFragments begun fragments = line :: lines) :
    begun <+: line := by
  induction fragments generalizing begun with
  | nil => cases h
  | cons f rest ih =>
    obtain ⟨fragment, endsLine⟩ := f
    cases endsLine with
    | true =>
      obtain ⟨rfl, -⟩ := List.cons.inj h
      exact List.prefix_append begun fragment
    | false => exact ( List.prefix_append begun fragment).trans (ih h)

theorem Remaining.goes (h : Remaining begun ((fragment, false) :: rest) lines) :
    Remaining (begun ++ fragment) rest lines where
  bytes := by
    have hbytes := h.bytes
    rwa [List.flatMap_cons, ← List.append_assoc] at hbytes
  join := h.join
  filled f hf := h.filled f (List.mem_cons_of_mem _ hf)

theorem Remaining.ends (h : Remaining begun ((fragment, true) :: rest) lines) :
    ∃ later, lines = (begun ++ fragment) :: later ∧ Remaining [] rest later := by
  refine ⟨joinFragments [] rest, h.join.symm, ?_, rfl, fun f hf =>
    h.filled f (List.mem_cons_of_mem _ hf)⟩
  have hbytes := h.bytes
  rw [← h.join, joinFragments, List.flatMap_cons, List.flatten_cons, ← List.append_assoc] at hbytes
  exact List.append_cancel_left hbytes

theorem Remaining.first {endsLine : Bool}
    (h : Remaining begun ((fragment, endsLine) :: rest) lines) :
    ∃ line later, lines = line :: later ∧ begun ++ fragment <+: line := by
  cases endsLine with
  | true =>
    obtain ⟨later, rfl, -⟩ := h.ends
    exact ⟨_, later, rfl, List.prefix_refl _⟩
  | false =>
    have hgoes := h.goes
    cases lines with
    | nil =>
      have hnil := hgoes.bytes
      simp only [List.flatten_nil, List.append_eq_nil_iff] at hnil
      exact absurd hnil.1.2 (h.filled _ List.mem_cons_self rfl)
    | cons line later => exact ⟨line, later, rfl, begins_line hgoes.join⟩

theorem flatMap_fragmentsFrom (fragment data : List UInt8) :
    (fragmentsFrom fragment data).flatMap Prod.fst = fragment ++ data ∧
      ∀ f ∈ fragmentsFrom fragment data, f.2 = false → f.1 ≠ [] := by
  induction fragment, data using fragmentsFrom.induct with
  | case1 => simp [fragmentsFrom]
  | case2 fragment hne => simp [fragmentsFrom, hne]
  | case3 fragment rest ih => simp [fragmentsFrom, ih.1]; simpa using ih.2
  | case4 fragment b rest hcrlf hb ih =>
    rw [fragmentsFrom.eq_3 _ _ _ hcrlf, if_pos hb]
    simp [ih.1]; simpa using ih.2
  | case5 fragment b rest hcrlf hb ih =>
    rw [fragmentsFrom.eq_3 _ _ _ hcrlf, if_neg hb]
    simpa using ih

theorem flatMap_physicalLineChunks (pendingCr inLine : Bool) (blocks : List (List UInt8)) :
    (physicalLineChunks pendingCr inLine blocks).flatMap Prod.fst =
      (if pendingCr then [0x0D] else []) ++ blocks.flatten ∧
    ∀ f ∈ physicalLineChunks pendingCr inLine blocks, f.2 = false → f.1 ≠ [] := by
  induction blocks generalizing pendingCr inLine with
  | nil => cases pendingCr <;> cases inLine <;> simp [physicalLineChunks]
  | cons chunk rest ih =>
    rw [physicalLineChunks, List.flatten_cons, ← List.append_assoc]
    generalize (if pendingCr = true then [(0x0D : UInt8)] else []) ++ chunk = data
    refine ⟨?_, fun f hf => ?_⟩
    · rw [List.flatMap_append, (flatMap_fragmentsFrom _ _).1, (ih _ _).1, List.nil_append,
        ← List.append_assoc]
      congr 1
      by_cases hcr : (data.getLast? == some 0x0D) = true
      · rw [if_pos hcr, if_pos hcr]
        exact List.dropLast_append_getLast? _ (beq_iff_eq.mp hcr)
      · rw [if_neg hcr, if_neg hcr, List.append_nil]
    · rcases List.mem_append.mp hf with hf | hf
      · exact (flatMap_fragmentsFrom _ _).2 f hf
      · exact (ih _ _).2 f hf

theorem flatten_byteLinesFrom (line bytes : List UInt8) :
    (byteLinesFrom line bytes).flatten = line ++ bytes := by
  induction line, bytes using byteLinesFrom.induct with
  | case1 => simp [byteLinesFrom]
  | case2 line hne => simp [byteLinesFrom, hne]
  | case3 line rest ih => simp [byteLinesFrom, ih]
  | case4 line b rest hcrlf hb ih =>
    rw [byteLinesFrom.eq_3 _ _ _ hcrlf, if_pos hb]
    simp [ih]
  | case5 line b rest hcrlf hb ih =>
    rw [byteLinesFrom.eq_3 _ _ _ hcrlf, if_neg hb, ih]
    simp

theorem remaining_file (blocks : List (List UInt8)) :
    Remaining [] (physicalLineChunks false false blocks) (fileLines blocks) where
  bytes := by
    rw [(flatMap_physicalLineChunks _ _ _).1, fileLines, flatten_byteLinesFrom]
    rfl
  join := joinFragments_chunks (by simp) blocks
  filled := (flatMap_physicalLineChunks _ _ _).2

/-! ### The loop goes line by line -/

structure Following (request : WindowRequest) (scan : Scan) (begun : List UInt8) : Prop where
  ended : scan.actualEndLine = max scan.lineno request.startLine - 1
  early : scan.lineno < request.startLine → scan.decoder = none ∧ scan.lineBuffer = []
  opened : ¬ scan.lineno < request.startLine →
    (scan.open request).1 = (Utf8.run none begun).2 ∧
    (scan.open request).2 = Utf8.encode (request.label scan.lineno ++
      (Utf8.run none begun).1.map Utf8.Piece.shown)

theorem following_fresh (hended : scan.actualEndLine = max scan.lineno request.startLine - 1)
    (hdecoder : scan.decoder = none) (hbuffer : scan.lineBuffer = []) :
    Following request scan [] where
  ended := hended
  early _ := ⟨hdecoder, hbuffer⟩
  opened _ := by simp [Scan.open, hdecoder, hbuffer, Utf8.run]

def shownOf (line : List UInt8) (endsLine : Bool) : List Char :=
  if endsLine then Utf8.decodeReplacing line else (Utf8.run none line).1.map Utf8.Piece.shown

theorem decodeFragment_eq (begun fragment : List UInt8) (endsLine : Bool) :
    (Utf8.run none begun).1.map Utf8.Piece.shown ++
      (decodeFragment (Utf8.run none begun).2 fragment endsLine).1 =
        shownOf (begun ++ fragment) endsLine ∧
    (endsLine = false → (decodeFragment (Utf8.run none begun).2 fragment endsLine).2 =
      (Utf8.run none (begun ++ fragment)).2) := by
  cases endsLine with
  | false => simp [decodeFragment, shownOf, Utf8.run_append]
  | true => simp [decodeFragment, shownOf, Utf8.run_append, Utf8.decodeReplacing, Utf8.decode]

theorem shownOf_begins {line whole : List UInt8} (h : line <+: whole) :
    shownOf line false <+: Utf8.decodeReplacing whole := by
  obtain ⟨more, rfl⟩ := h
  simp [shownOf, Utf8.decodeReplacing, Utf8.decode, Utf8.run_append]

theorem encode_begins {u : List Char} (h : t <+: u) : Utf8.encode t <+: Utf8.encode u := by
  obtain ⟨more, rfl⟩ := h
  exact ⟨Utf8.encode more, (Utf8.encode_append t more).symm⟩

theorem take_buffer {opened decoded whole : List UInt8} {remaining : Int}
    (hwhole : opened ++ decoded <+: whole) (h : remaining < opened.length + decoded.length) :
    (opened ++ decoded.take (remaining - opened.length).toNat).take remaining.toNat =
      whole.take remaining.toNat := by
  obtain ⟨more, rfl⟩ := hwhole
  have hroom : remaining.toNat ≤ (opened ++ decoded).length := by simp; omega
  rw [List.take_append_of_le_length hroom, List.take_append, List.take_append, List.take_take]
  congr 2
  omega

/-- **The loop over the fragments comes to the window of the lines.** -/
theorem scanFragments_eq (hfollow : Following request scan begun)
    (hremaining : Remaining begun fragments lines) :
    scanFragments request scan fragments =
      .ok (scanLines request scan.contentLines scan.lineno scan.bytesUsed lines) := by
  induction fragments generalizing scan begun lines with
  | nil =>
    obtain rfl : [] = lines := hremaining.join
    simp [scanFragments, scanLines, Scan.close, hfollow.ended]
  | cons f rest ih =>
    obtain ⟨fragment, endsLine⟩ := f
    obtain ⟨line, later, rfl, hline⟩ := hremaining.first
    rw [scanFragments, scanLines]
    by_cases hlast : request.effectiveEndLine < scan.lineno
    · rw [if_pos hlast, if_pos hlast]
      simp [Scan.close, hfollow.ended]
    · rw [if_neg hlast, if_neg hlast]
      by_cases hearly : scan.lineno < request.startLine
      · obtain ⟨hdecoder, hbuffer⟩ := hfollow.early hearly
        have hended := hfollow.ended
        rw [if_pos hearly, if_pos hearly]
        cases endsLine with
        | true =>
          obtain ⟨later', heq, hlater⟩ := hremaining.ends
          obtain ⟨-, rfl⟩ := List.cons.inj heq
          refine @ih { scan with lineno := scan.lineno + 1 } [] later
            (following_fresh ?_ hdecoder hbuffer) hlater
          dsimp only
          omega
        | false =>
          have hearlier : Following request scan (begun ++ fragment) :=
            ⟨hended, fun _ => ⟨hdecoder, hbuffer⟩, fun h => absurd hearly h⟩
          have hscan := ih hearlier hremaining.goes
          rwa [scanLines, if_neg hlast, if_pos hearly] at hscan
      · obtain ⟨hheld, hbuffer⟩ := hfollow.opened hearly
        obtain ⟨hshown, hgoes⟩ := decodeFragment_eq begun fragment endsLine
        have hended := hfollow.ended
        have hwhole : (scan.open request).2 ++ Utf8.encode
            (decodeFragment (scan.open request).1 fragment endsLine).1 =
              Utf8.encode (request.label scan.lineno ++ shownOf (begun ++ fragment) endsLine) := by
          rw [hheld, hbuffer, ← Utf8.encode_append, List.append_assoc, hshown]
        have hgrows : Utf8.encode (request.label scan.lineno ++
            shownOf (begun ++ fragment) endsLine) <+:
              Utf8.encode (request.shown scan.lineno line) := by
          refine encode_begins (( List.prefix_append_right_inj _).mpr ?_)
          cases endsLine with
          | true =>
            obtain ⟨later', heq, -⟩ := hremaining.ends
            rw [(List.cons.inj heq).1]
            exact List.prefix_refl _
          | false => exact shownOf_begins hline
        rw [if_neg hearly, if_neg hearly]
        dsimp only
        rw [← hwhole] at hgrows
        have hlength := hgrows.length_le
        rw [List.length_append] at hlength
        by_cases hroom : request.maxBytes - scan.bytesUsed < (scan.open request).2.length +
            (Utf8.encode (decodeFragment (scan.open request).1 fragment endsLine).1).length
        · have hsize : request.maxBytes - scan.bytesUsed < request.size scan.lineno line := by
            unfold WindowRequest.size
            omega
          rw [if_pos hroom, if_pos hsize, take_buffer hgrows hroom]
          by_cases hnone : scan.contentLines = []
          · rw [if_pos hnone, if_pos hnone]
            rfl
          · rw [if_neg hnone, if_neg hnone]
            simp [Scan.close, hended]
        · rw [if_neg hroom, hwhole]
          cases endsLine with
          | true =>
            obtain ⟨later', heq, hlater⟩ := hremaining.ends
            cases heq
            have hsize : ¬ request.maxBytes - scan.bytesUsed <
                request.size scan.lineno (begun ++ fragment) := by
              have hlen := congrArg List.length hwhole
              rw [List.length_append] at hlen
              have hsame : (Utf8.encode (request.label scan.lineno ++
                shownOf (begun ++ fragment) true)).length =
                  request.size scan.lineno (begun ++ fragment) := rfl
              omega
            rw [if_neg hsize, if_pos rfl, Utf8.decodeStrict_encode]
            refine (ih (following_fresh ?_ rfl rfl) hlater).trans rfl
            dsimp only
            omega
          | false =>
            have hnext := @ih { scan with
              lineBuffer := Utf8.encode (request.label scan.lineno ++
                shownOf (begun ++ fragment) false)
              decoder := some (decodeFragment (scan.open request).1 fragment false).2 }
              (begun ++ fragment) (line :: later)
              ⟨hended, fun h => absurd h hearly, fun _ => ⟨by
                rw [hheld]
                exact hgoes rfl, rfl⟩⟩ hremaining.goes
            rwa [scanLines, if_neg hlast, if_neg hearly] at hnext

theorem scan_file (hstart : 1 ≤ request.startLine) (blocks : List (List UInt8)) :
    scanFragments request request.scan (physicalLineChunks false false blocks) =
      .ok (scanLines request [] 1 0 (fileLines blocks)) := by
  refine scanFragments_eq (following_fresh ?_ rfl rfl) (remaining_file blocks)
  simp only [WindowRequest.scan]
  omega

/-! ### The lines of a window -/

def numbered (request : WindowRequest) (lineno : Int) : List (List UInt8) → List (List Char)
  | [] => []
  | line :: rest => request.shown lineno line :: numbered request (lineno + 1) rest

theorem numbered_getElem? (request : WindowRequest) (lineno : Int) (lines : List (List UInt8))
    (i : Nat) :
    (numbered request lineno lines)[i]? = lines[i]?.map (request.shown (lineno + i)) := by
  induction lines generalizing lineno i with
  | nil => rfl
  | cons x rest ih =>
    cases i with
    | zero => simp [numbered]
    | succ i =>
      have hnumber : lineno + 1 + (i : Int) = lineno + ((i + 1 : Nat) : Int) := by omega
      rw [numbered, List.getElem?_cons_succ, ih, List.getElem?_cons_succ, hnumber]

theorem length_numbered_take (request : WindowRequest) (lineno : Int) (lines : List (List UInt8))
    (k : Nat) : (Utf8.encode (numbered request lineno (lines.take k)).flatten).length ≤
      (Utf8.encode (numbered request lineno lines).flatten).length := by
  induction lines generalizing lineno k with
  | nil => simp
  | cons line rest ih =>
    cases k with
    | zero => simp [numbered, Utf8.encode]
    | succ k =>
      simp only [List.take_succ_cons, numbered, List.flatten_cons, Utf8.encode_append,
        List.length_append, Nat.add_le_add_iff_left]
      exact ih _ _

/-- How a window ends: at the end of the file, before a line that is not asked for or does not
fit, or within the first line. -/
inductive Shown (request : WindowRequest) (shown : List (List Char)) (lineno bytesUsed : Int)
    (lines : List (List UInt8)) (window : LineWindow) : Prop where
  | whole (htotal : window.totalLines = some (lineno - 1 + lines.length))
      (htruncated : window.truncated = false)
      (hlines : window.contentLines = shown ++ numbered request lineno lines)
  | cut (k : Nat) (hk : k < lines.length) (htotal : window.totalLines = none)
      (hclipped : window.lineClipped = false)
      (htruncated : request.endLine = none → window.truncated = true)
      (hend : window.endLine = lineno - 1 + k)
      (hlines : window.contentLines = shown ++ numbered request lineno (lines.take k))
      (hstops : request.effectiveEndLine < lineno + k ∨ ((shown ≠ [] ∨ 0 < k) ∧ request.maxBytes <
        bytesUsed + (Utf8.encode (numbered request lineno (lines.take (k + 1))).flatten).length))
  | clipped (line : List UInt8) (hline : lines.head? = some line)
      (hshort : request.maxBytes - bytesUsed < request.size lineno line)
      (hnone : shown = []) (htotal : window.totalLines = none)
      (htruncated : window.truncated = true)

/-- **Every window ends in one of these ways.** -/
theorem scanLines_shown {lineno : Int} (hstart : request.startLine ≤ lineno)
    (shown : List (List Char)) (bytesUsed : Int) (lines : List (List UInt8)) :
    Shown request shown lineno bytesUsed lines
      (scanLines request shown lineno bytesUsed lines) := by
  induction lines generalizing shown lineno bytesUsed with
  | nil => exact .whole (by simp [scanLines]) rfl (by simp [scanLines, numbered])
  | cons line rest ih =>
    have hmax : max lineno request.startLine = lineno := by omega
    rw [scanLines, hmax]
    by_cases hlast : request.effectiveEndLine < lineno
    · rw [if_pos hlast]
      exact .cut 0 (by simp) rfl rfl (by simp +contextual) (by simp) (by simp [numbered])
        (.inl (by simpa using hlast))
    · rw [if_neg hlast, if_neg (by omega)]
      by_cases hroom : request.maxBytes - bytesUsed < request.size lineno line
      · rw [if_pos hroom]
        by_cases hnone : shown = []
        · rw [if_pos hnone]
          exact .clipped line rfl hroom hnone rfl rfl
        · rw [if_neg hnone]
          refine .cut 0 (by simp) rfl rfl (fun _ => rfl) (by simp) (by simp [numbered])
            (.inr ⟨.inl hnone, ?_⟩)
          simp only [List.take_succ_cons, List.take_zero, numbered, List.flatten_cons,
            List.flatten_nil, List.append_nil]
          unfold WindowRequest.size at hroom
          omega
      · rw [if_neg hroom]
        rcases @ih (lineno + 1) (by omega) (shown ++ [request.shown lineno line])
            (bytesUsed + request.size lineno line) with
          ⟨htotal, htruncated, hlines⟩ |
          ⟨k, hk, htotal, hclipped, htruncated, hend, hlines, hstops⟩ | ⟨_, -, -, hnone, -, -⟩
        · refine .whole ?_ htruncated ?_
          · rw [htotal, List.length_cons]
            push_cast
            congr 1
            omega
          · simp [hlines, numbered]
        · refine .cut (k + 1) (by simpa using hk) htotal hclipped htruncated ?_ ?_
            (hstops.imp (fun h => ?_) fun h => ⟨.inr (by omega), ?_⟩)
          · rw [hend]
            push_cast
            omega
          · simp [hlines, numbered]
          · push_cast
            omega
          · have hsize : request.size lineno line =
              (Utf8.encode (request.shown lineno line)).length := rfl
            rw [List.take_succ_cons, numbered, List.flatten_cons, Utf8.encode_append,
              List.length_append]
            push_cast
            omega
        · simp at hnone

theorem scanLines_skip {n : Nat} {lineno : Int} (hn : lineno + n = request.startLine)
    (hlast : request.startLine ≤ request.effectiveEndLine) (hlines : n ≤ lines.length)
    (shown : List (List Char)) (bytesUsed : Int) :
    scanLines request shown lineno bytesUsed lines =
      scanLines request shown request.startLine bytesUsed (lines.drop n) := by
  induction n generalizing lineno lines with
  | zero => simp [← hn]
  | succ n ih =>
    obtain ⟨line, rest, rfl⟩ :=
      List.exists_cons_of_length_pos (Nat.lt_of_lt_of_le n.succ_pos hlines)
    rw [scanLines, if_neg (by omega), if_pos (by omega), List.drop_succ_cons]
    exact ih (by push_cast at hn; omega) (by simpa using hlines)

theorem scanLines_short {n : Nat} {lineno : Int} (hn : lineno + n = request.startLine)
    (hlast : request.startLine ≤ request.effectiveEndLine) (hlines : lines.length ≤ n)
    (shown : List (List Char)) (bytesUsed : Int) :
    (scanLines request shown lineno bytesUsed lines).totalLines =
      some (lineno - 1 + lines.length) := by
  induction lines generalizing lineno n with
  | nil => simp [scanLines]
  | cons line rest ih =>
    obtain ⟨n, rfl⟩ : ∃ m, n = m + 1 := ⟨n - 1, by simp at hlines; omega⟩
    rw [scanLines, if_neg (by omega), if_pos (by omega),
      @ih n (lineno + 1) (by push_cast at hn; omega) (by simpa using hlines), List.length_cons]
    push_cast
    congr 1
    omega

/-- The arguments that are not refused. -/
structure WindowRequest.Valid (request : WindowRequest) : Prop where
  start : 1 ≤ request.startLine
  range : request.endLine.all fun endLine => request.startLine ≤ endLine
  lines : 1 ≤ request.maxLines
  bytes : 1 ≤ request.maxBytes

theorem WindowRequest.Valid.last (h : request.Valid) :
    request.startLine ≤ request.effectiveEndLine := by
  have hrange := h.range
  have hlines := h.lines
  unfold WindowRequest.effectiveEndLine
  cases hend : request.endLine with
  | none => dsimp only; omega
  | some endLine =>
    rw [hend, Option.all_some, decide_eq_true_eq] at hrange
    dsimp only
    omega

/-- **A window shows the lines of the file from the first that is asked for, if there is one.** -/
theorem readLineWindow_eq (hvalid : request.Valid) : readLineWindow request blocks =
      if (fileLines blocks).length < request.startLine then
        .error (.beyondEnd request.startLine (fileLines blocks).length)
      else .ok (scanLines request [] request.startLine 0
        ((fileLines blocks).drop (request.startLine - 1).toNat)) := by
  have hstart := hvalid.start
  have hrange : (request.endLine.any fun endLine => endLine < request.startLine) = false := by
    have hall := hvalid.range
    cases hend : request.endLine <;> simp_all
  have hn : (1 : Int) + ((request.startLine - 1).toNat : Nat) = request.startLine := by omega
  rw [readLineWindow, if_neg (by omega), if_neg (by simp [hrange]),
    if_neg (Int.not_lt.mpr hvalid.lines),
    if_neg (Int.not_lt.mpr hvalid.bytes), scan_file hstart]
  dsimp only
  by_cases hbeyond : (fileLines blocks).length < request.startLine
  · have hlines : (fileLines blocks).length ≤ (request.startLine - 1).toNat := by omega
    have htotal := scanLines_short hn hvalid.last hlines [] 0
    rw [if_pos hbeyond, htotal]
    dsimp only
    rw [if_pos (by omega)]
    congr 2
    omega
  · rw [if_neg hbeyond, scanLines_skip hn hvalid.last (by omega)]
    rcases scanLines_shown (Int.le_refl request.startLine) [] 0
        ((fileLines blocks).drop (request.startLine - 1).toNat) with
      ⟨htotal, -, -⟩ | ⟨_, -, htotal, -⟩ | ⟨_, -, -, -, htotal, -⟩
    · rw [htotal, List.length_drop]
      dsimp only
      rw [if_neg (by omega)]
    · rw [htotal]
    · rw [htotal]

theorem valid_of_ok (h : readLineWindow request blocks = .ok window ∨
    ∃ startLine total, readLineWindow request blocks = .error (.beyondEnd startLine total)) :
    request.Valid := by
  by_contra hnot
  unfold readLineWindow at h
  split_ifs at h with hstart hrange hlines hbytes
  all_goals first
    | simp at h
    | exact hnot ⟨by omega, by cases hend : request.endLine <;> simp_all, by omega, by omega⟩

def LineWindow.Shows (request : WindowRequest) (window : LineWindow) (lineno : Nat)
    (x : List Char) : Prop :=
  request.startLine ≤ lineno ∧
    window.contentLines[(lineno - request.startLine).toNat]? = some (request.label lineno ++ x)

/-! ### The lines of an encoded text -/

theorem fileLines_encode (hfile : blocks.flatten = Utf8.encode t) :
    fileLines blocks = (physicalLines t).map Utf8.encode := by
  rw [fileLines, hfile]
  exact byteLinesFrom_encode [] t

theorem decodeReplacing_encode (t : List Char) : Utf8.decodeReplacing (Utf8.encode t) = t := by
  rw [Utf8.decodeReplacing, Utf8.decode_encode, List.map_map]
  exact List.map_id t

theorem scanned_total (hfile : blocks.flatten = Utf8.encode t)
    (h : readLineWindow request blocks = .ok window) :
    ∀ total, window.totalLines = some total → total = (physicalLines t).length := by
  intro total htotal
  have hvalid := valid_of_ok (.inl h)
  have hstart := hvalid.start
  rw [readLineWindow_eq hvalid, fileLines_encode hfile, List.length_map] at h
  split_ifs at h with hbeyond
  cases h
  rcases scanLines_shown (Int.le_refl request.startLine) [] 0
      (((physicalLines t).map Utf8.encode).drop (request.startLine - 1).toNat) with
    ⟨hwhole, -, -⟩ | ⟨k, -, hnone, -⟩ | ⟨line, -, -, -, hnone, -⟩
  · rw [hwhole, List.length_drop, List.length_map] at htotal
    have htotal := Option.some.inj htotal
    omega
  · rw [hnone] at htotal
    cases htotal
  · rw [hnone] at htotal
    cases htotal

theorem readLineWindow_beyond (hfile : blocks.flatten = Utf8.encode t) {startLine total : Int}
    (h : readLineWindow request blocks = .error (.beyondEnd startLine total)) :
    total = (physicalLines t).length := by
  rw [readLineWindow_eq (@valid_of_ok request ⟨0, 0, none, [], false, false, false⟩ blocks
    (.inr ⟨_, _, h⟩)), fileLines_encode hfile, List.length_map] at h
  split_ifs at h with hbeyond
  cases h
  rfl

/-- **A complete window shows the physical lines of the text under their numbers.** -/
theorem window_shows (hfile : blocks.flatten = Utf8.encode t)
    (h : readLineWindow request blocks = .ok window) (hwhole : window.truncated = false)
    {lineno : Nat} {x : List Char} (hx : window.Shows request lineno x) :
    1 ≤ lineno ∧ (physicalLines t)[lineno - 1]? = some x := by
  obtain ⟨hle, hline⟩ := hx
  have hvalid := valid_of_ok (.inl h)
  have hstart := hvalid.start
  rw [readLineWindow_eq hvalid, fileLines_encode hfile] at h
  split_ifs at h with hbeyond
  cases h
  have hlines : ∃ k, (scanLines request [] request.startLine 0
      (((physicalLines t).map Utf8.encode).drop (request.startLine - 1).toNat)).contentLines =
        numbered request request.startLine
          ((((physicalLines t).map Utf8.encode).drop (request.startLine - 1).toNat).take k) := by
    rcases scanLines_shown (Int.le_refl request.startLine) [] 0
        (((physicalLines t).map Utf8.encode).drop (request.startLine - 1).toNat) with
      ⟨-, -, hlines⟩ | ⟨k, -, -, -, -, -, hlines, -⟩ | ⟨line, -, -, -, -, htruncated⟩
    · exact ⟨_, hlines.trans (by rw [List.take_length]; rfl)⟩
    · exact ⟨k, hlines⟩
    · rw [htruncated] at hwhole
      cases hwhole
  obtain ⟨k, hlines⟩ := hlines
  refine ⟨by omega, ?_⟩
  rw [hlines, numbered_getElem?] at hline
  obtain ⟨y, hy, htext⟩ := Option.map_eq_some_iff.mp hline
  rw [List.getElem?_take] at hy
  split_ifs at hy
  rw [List.getElem?_drop, show (request.startLine - 1).toNat + (lineno - request.startLine).toNat =
    lineno - 1 by omega, List.getElem?_map] at hy
  obtain ⟨z, hz, rfl⟩ := Option.map_eq_some_iff.mp hy
  rw [show request.startLine + ((lineno - request.startLine).toNat : Int) = lineno by omega,
    WindowRequest.shown, decodeReplacing_encode] at htext
  rw [hz, List.append_cancel_left htext]

/-- A request for the whole file, without numbers. -/
def wholeRequest (blocks : List (List UInt8)) : WindowRequest where
  startLine := 1
  endLine := none
  maxLines := (fileLines blocks).length + 1
  includeLineNumbers := false
  maxBytes := blocks.flatten.length + 1

/-- **Some window shows all lines.** -/
theorem window_complete (hfile : blocks.flatten = Utf8.encode t) (ht : t ≠ []) :
    ∃ window, readLineWindow (wholeRequest blocks) blocks = .ok window ∧
      window.truncated = false ∧ window.totalLines = some ((physicalLines t).length : Int) ∧
      ∀ i x, (physicalLines t)[i]? = some x → window.Shows (wholeRequest blocks) (i + 1) x := by
  have hlines := fileLines_encode hfile
  have hflat : (physicalLines t).flatten = t := by
    rw [physicalLines_eq, List.flatten_eq_flatMap, List.flatMap_map]
    exact whole_endedLines t
  have hpos : 0 < (physicalLines t).length := by
    refine List.length_pos_iff.mpr fun hnil => ht ?_
    rw [← hflat, hnil]
    rfl
  have hshown (n : Int) (ls : List (List Char)) :
      numbered (wholeRequest blocks) n (ls.map Utf8.encode) = ls := by
    induction ls generalizing n with
    | nil => rfl
    | cons l ls ih =>
      rw [List.map_cons, numbered, ih, WindowRequest.shown, decodeReplacing_encode]
      rfl
  have hvalid : (wholeRequest blocks).Valid := by
    constructor <;> simp only [wholeRequest] <;> first | rfl | omega
  have hbytes : (Utf8.encode (numbered (wholeRequest blocks) 1 (fileLines blocks)).flatten).length =
      blocks.flatten.length := by rw [hlines, hshown, hflat, hfile]
  have hok : readLineWindow (wholeRequest blocks) blocks =
      .ok (scanLines (wholeRequest blocks) [] 1 0 (fileLines blocks)) := by
    rw [readLineWindow_eq hvalid, if_neg]
    · rfl
    · rw [hlines, List.length_map]
      simp only [wholeRequest]
      omega
  rcases @scanLines_shown (wholeRequest blocks) 1 (Int.le_refl 1) [] 0 (fileLines blocks) with
    ⟨htotal, hwhole, hcontent⟩ | ⟨k, hk, -, -, -, -, -, hstops⟩ | ⟨line, hline, hshort, -⟩
  · have hlength : (fileLines blocks).length = (physicalLines t).length := by simp [hlines]
    rw [hlength] at htotal
    refine ⟨_, hok, hwhole, htotal.trans (by congr 1; omega), fun i x hx => ⟨?_, ?_⟩⟩
    · simp only [wholeRequest]
      omega
    · rw [hcontent, hlines, hshown, show (((i + 1 : Nat) : Int) -
        (wholeRequest blocks).startLine).toNat = i by simp only [wholeRequest]; omega]
      exact hx
  · exfalso
    rcases hstops with hlast | ⟨-, hfull⟩
    · simp only [wholeRequest, WindowRequest.effectiveEndLine] at hlast
      omega
    · have hle := length_numbered_take (wholeRequest blocks) 1 (fileLines blocks) (k + 1)
      simp only [wholeRequest] at hfull hle hbytes
      omega
  · exfalso
    obtain ⟨tail, htail⟩ := List.head?_eq_some_iff.mp hline
    have hmax : (wholeRequest blocks).maxBytes = blocks.flatten.length + 1 := rfl
    have hfits : (wholeRequest blocks).size 1 line ≤ blocks.flatten.length := by
      rw [← hbytes, htail, numbered, List.flatten_cons, Utf8.encode_append, List.length_append]
      exact Nat.le_add_right _ _
    omega

end AlysisCode.Files
