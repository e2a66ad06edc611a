/-
A window of lines, read from the bytes of a file.

The file is read in blocks.  Each block is cut behind the physical line ends, a carriage return at
the end of a block waits for the next one, and the fragments of a line are decoded as they come.  A
window that is not truncated shows physical lines of the text, in whatever blocks the file was
read.
-/
import AlysisCode.Library.EndedLines
import AlysisCode.Library.Utf8

namespace AlysisCode.Files

open Text

/-! ### The fragments of the lines -/

/-- `_PHYSICAL_NEWLINES.finditer(data)` and what stands between: the fragments, and whether a
line ends with each. -/
def fragmentsFrom (fragment : List UInt8) : List UInt8 → List (List UInt8 × Bool)
  | [] => if fragment = [] then [] else [(fragment, false)]
  | 0x0D :: 0x0A :: rest => (fragment ++ [0x0D, 0x0A], true) :: fragmentsFrom [] rest
  | b :: rest =>
    if b = 0x0D ∨ b = 0x0A then (fragment ++ [b], true) :: fragmentsFrom [] rest
    else fragmentsFrom (fragment ++ [b]) rest

/-- `_physical_line_chunks`, over the blocks that `handle.read` returns. -/
def physicalLineChunks (pendingCr inLine : Bool) : List (List UInt8) → List (List UInt8 × Bool)
  | [] => if pendingCr then [([0x0D], true)] else if inLine then [([], true)] else []
  | chunk :: rest =>
    let data := (if pendingCr then [0x0D] else []) ++ chunk
    let endsWithCr := data.getLast? == some 0x0D
    let fragments := fragmentsFrom [] (if endsWithCr then data.dropLast else data)
    let inLine :=
      match fragments.getLast? with
      | none => inLine
      | some (_, endsLine) => !endsLine
    fragments ++ physicalLineChunks endsWithCr inLine rest

/-! ### The window -/

/-- The arguments of `_read_line_window`. -/
structure WindowRequest where
  startLine : Int
  endLine : Option Int
  maxLines : Int
  includeLineNumbers : Bool
  maxBytes : Int

/-- What `_read_line_window` raises. -/
inductive WindowError where
  | invalidStartLine (startLine : Int)
  | invalidLineRange (endLine startLine : Int)
  | invalidMaxLines (maxLines : Int)
  | invalidMaxBytes (maxBytes : Int)
  | beyondEnd (startLine totalLines : Int)
  | undecodable
  deriving DecidableEq

/-- The result; `contentLines` are what its `content` is joined from. -/
structure LineWindow where
  startLine : Int
  endLine : Int
  totalLines : Option Int
  contentLines : List (List Char)
  (truncated byteTruncated lineClipped : Bool)

def LineWindow.content (window : LineWindow) : List Char := window.contentLines.flatten

/-- The variables of the loop.  `decoder` is what a decoder holds, if there is one. -/
structure Scan where
  contentLines : List (List Char)
  (actualEndLine lineno bytesUsed : Int)
  lineBuffer : List UInt8
  decoder : Option (Option Utf8.Partial)

/-- `f"{lineno}: "` -/
def numberLabel (lineno : Int) : List Char := Nat.toDigits 10 lineno.toNat ++ [':', ' ']

variable (request : WindowRequest)

/-- What stands before the text of a line. -/
def WindowRequest.label (lineno : Int) : List Char :=
  if request.includeLineNumbers then numberLabel lineno else []

def WindowRequest.effectiveEndLine : Int :=
  match request.endLine with
  | none => request.startLine + request.maxLines - 1
  | some endLine => min (request.startLine + request.maxLines - 1) endLine

/-- The decoder of the line, and the buffer with its number. -/
def Scan.open (scan : Scan) : Option Utf8.Partial × List UInt8 :=
  match scan.decoder with
  | none => (none, scan.lineBuffer ++ Utf8.encode (request.label scan.lineno))
  | some held => (held, scan.lineBuffer)

/-- `decoder.decode(fragment, final=ends_line)`, with errors replaced. -/
def decodeFragment (held : Option Utf8.Partial) (fragment : List UInt8) (final : Bool) :
    List Char × Option Utf8.Partial :=
  let result := Utf8.run held fragment
  if final then ((result.1 ++ Utf8.flush result.2).map Utf8.Piece.shown, none)
  else (result.1.map Utf8.Piece.shown, result.2)

def Scan.close (scan : Scan) (totalLines : Option Int) (truncated byteTruncated lineClipped : Bool) :
    LineWindow where
  startLine := request.startLine
  endLine := scan.actualEndLine
  totalLines := totalLines
  contentLines := scan.contentLines
  truncated := truncated
  byteTruncated := byteTruncated
  lineClipped := lineClipped

def scanFragments (request : WindowRequest) (scan : Scan) :
    List (List UInt8 × Bool) → Except WindowError LineWindow
  | [] => .ok (scan.close request (some (scan.lineno - 1)) false false false)
  | (fragment, endsLine) :: rest =>
    if request.effectiveEndLine < scan.lineno then
      .ok (scan.close request none (request.endLine.all fun endLine => scan.lineno ≤ endLine)
        false false)
    else if scan.lineno < request.startLine then
      scanFragments request
        { scan with lineno := if endsLine then scan.lineno + 1 else scan.lineno } rest
    else
      let opened := scan.open request
      let decoded := decodeFragment opened.1 fragment endsLine
      let remaining := request.maxBytes - scan.bytesUsed
      if remaining < opened.2.length + (Utf8.encode decoded.1).length then
        -- a first line is shown as far as it goes
        if scan.contentLines = [] then
          let lineBuffer :=
            opened.2 ++ (Utf8.encode decoded.1).take (remaining - opened.2.length).toNat
          .ok <| Scan.close request
            { scan with
              contentLines := [Utf8.decodeIgnoring (lineBuffer.take remaining.toNat)]
              actualEndLine := scan.lineno } none true true true
        else .ok (scan.close request none true true false)
      else
        let lineBuffer := opened.2 ++ Utf8.encode decoded.1
        if endsLine then
          match Utf8.decodeStrict lineBuffer with
          | none => .error .undecodable
          | some line =>
            scanFragments request
              { contentLines := scan.contentLines ++ [line]
                actualEndLine := scan.lineno
                lineno := scan.lineno + 1
                bytesUsed := scan.bytesUsed + lineBuffer.length
                lineBuffer := []
                decoder := none } rest
        else
          scanFragments request
            { scan with
              lineBuffer := lineBuffer
              decoder := some decoded.2 } rest

def WindowRequest.scan : Scan where
  contentLines := []
  actualEndLine := request.startLine - 1
  lineno := 1
  bytesUsed := 0
  lineBuffer := []
  decoder := none

/-- `_read_line_window` of a file that is read in the blocks. -/
def readLineWindow (blocks : List (List UInt8)) :
    Except WindowError LineWindow :=
  if request.startLine < 1 then .error (.invalidStartLine request.startLine)
  else if request.endLine.any fun endLine => endLine < request.startLine then
    .error (.invalidLineRange (request.endLine.getD 0) request.startLine)
  else if request.maxLines < 1 then .error (.invalidMaxLines request.maxLines)
  else if request.maxBytes < 1 then .error (.invalidMaxBytes request.maxBytes)
  else
    match scanFragments request request.scan (physicalLineChunks false false blocks) with
    | .error e => .error e
    | .ok window =>
      match window.totalLines with
      | none => .ok window
      | some totalLines =>
        if totalLines < request.startLine then .error (.beyondEnd request.startLine totalLines)
        else .ok window

/-! ### The fragments put together -/

/-- The physical lines of bytes, from one begun with `line`. -/
def byteLinesFrom (line : List UInt8) : List UInt8 → List (List UInt8)
  | [] => if line = [] then [] else [line]
  | 0x0D :: 0x0A :: rest => (line ++ [0x0D, 0x0A]) :: byteLinesFrom [] rest
  | b :: rest =>
    if b = 0x0D ∨ b = 0x0A then (line ++ [b]) :: byteLinesFrom [] rest
    else byteLinesFrom (line ++ [b]) rest

/-- The lines that fragments make, from one begun with `line`. -/
def joinFragments (line : List UInt8) : List (List UInt8 × Bool) → List (List UInt8)
  | [] => []
  | (fragment, true) :: rest => (line ++ fragment) :: joinFragments [] rest
  | (fragment, false) :: rest => joinFragments (line ++ fragment) rest

/-- What the fragments of a block come to: the lines that are ended, and the one that is begun. -/
structure Cuts (line fragment data : List UInt8) (lines : List (List UInt8))
    (begun : List UInt8) : Prop where
  fragments : ∀ more, joinFragments line (fragmentsFrom fragment data ++ more) =
    lines ++ joinFragments begun more
  bytes : ∀ tail, ¬ (data.getLast? = some 0x0D ∧ tail.head? = some 0x0A) →
    byteLinesFrom (line ++ fragment) (data ++ tail) = lines ++ byteLinesFrom begun tail
  inLine : ∀ last, (fragmentsFrom fragment data).getLast? = some last →
    (last.2 = true ↔ begun = [])
  same : fragmentsFrom fragment data = [] → begun = line

theorem getLast?_cons_of_ne {b : UInt8} {rest : List UInt8} (h : rest ≠ []) :
    (b :: rest).getLast? = rest.getLast? := by
  cases rest with
  | nil => exact absurd rfl h
  | cons d more => exact List.getLast?_cons_cons

theorem Cuts.cons {line fragment rest data begun : List UInt8} {lines : List (List UInt8)}
    (h : Cuts [] [] rest lines begun) (ending : List UInt8)
    (hfragments : fragmentsFrom fragment data = (fragment ++ ending, true) :: fragmentsFrom [] rest)
    (hbytes : ∀ tail, ¬ (data.getLast? = some 0x0D ∧ tail.head? = some 0x0A) →
      byteLinesFrom (line ++ fragment) (data ++ tail) =
        (line ++ fragment ++ ending) :: byteLinesFrom [] (rest ++ tail))
    (hlast : rest ≠ [] → data.getLast? = rest.getLast?) :
    Cuts line fragment data ((line ++ fragment ++ ending) :: lines) begun where
  fragments more := by
    rw [hfragments, List.cons_append, joinFragments, h.fragments, ← List.append_assoc]
    rfl
  bytes tail htail := by
    rw [hbytes tail htail]
    have hrest := h.bytes tail fun ⟨hcr, hlf⟩ => by
      have hne : rest ≠ [] := by
        rintro rfl
        cases hcr
      exact htail ⟨(hlast hne).trans hcr, hlf⟩
    rw [List.nil_append] at hrest
    rw [hrest]
    rfl
  inLine last hlast := by
    rw [hfragments] at hlast
    by_cases hnil : fragmentsFrom [] rest = []
    · rw [hnil] at hlast
      cases hlast
      simp [h.same hnil]
    · obtain ⟨first, others, hcons⟩ := List.exists_cons_of_ne_nil hnil
      refine h.inLine last ?_
      rw [hcons, List.getLast?_cons_cons] at hlast
      rw [hcons]
      exact hlast
  same hnil := by
    rw [hfragments] at hnil
    cases hnil

theorem cuts (line fragment data : List UInt8) :
    ∃ lines begun, Cuts line fragment data lines begun := by
  induction fragment, data using fragmentsFrom.induct generalizing line with
  | case1 =>
    exact ⟨[], line, fun more => rfl, fun tail _ => by simp, by simp [fragmentsFrom], fun _ => rfl⟩
  | case2 fragment hne =>
    have hfragments : fragmentsFrom fragment [] = [(fragment, false)] := by
      rw [fragmentsFrom, if_neg hne]
    refine ⟨[], line ++ fragment, fun more => ?_, fun tail _ => rfl, fun last hlast => ?_,
      fun hnil => ?_⟩
    · rw [hfragments]
      rfl
    · rw [hfragments] at hlast
      cases hlast
      simp [hne]
    · rw [hfragments] at hnil
      cases hnil
  | case3 fragment rest ih =>
    obtain ⟨lines, begun, hcuts⟩ := ih []
    exact ⟨_, begun, hcuts.cons [0x0D, 0x0A] rfl (fun tail _ => rfl) fun hne => by
      rw [List.getLast?_cons_cons, getLast?_cons_of_ne hne]⟩
  | case4 fragment b rest hcrlf hb ih =>
    obtain ⟨lines, begun, hcuts⟩ := ih []
    refine ⟨_, begun, hcuts.cons [b] ?_ (fun tail htail => ?_) getLast?_cons_of_ne⟩
    · rw [fragmentsFrom.eq_3 _ _ _ hcrlf, if_pos hb]
    · have hnext : ∀ t, b = 0x0D → rest ++ tail = 0x0A :: t → False := by
        intro t hcr heq
        cases rest with
        | nil =>
          obtain rfl : tail = 0x0A :: t := heq
          exact htail ⟨by rw [hcr]; rfl, rfl⟩
        | cons d more =>
          obtain ⟨rfl, -⟩ := List.cons.inj heq
          exact hcrlf more hcr rfl
      rw [List.cons_append, byteLinesFrom.eq_3 _ _ _ hnext, if_pos hb]
  | case5 fragment b rest hcrlf hb ih =>
    obtain ⟨lines, begun, hcuts⟩ := ih line
    have hfragments : fragmentsFrom fragment (b :: rest) = fragmentsFrom (fragment ++ [b]) rest := by
      rw [fragmentsFrom.eq_3 _ _ _ hcrlf, if_neg hb]
    refine ⟨lines, begun, fun more => ?_, fun tail htail => ?_, fun last hlast => ?_,
      fun hnil => hcuts.same (hfragments ▸ hnil)⟩
    · rw [hfragments, hcuts.fragments]
    · have hnext : ∀ t, b = 0x0D → rest ++ tail = 0x0A :: t → False := fun t hcr _ =>
        hb (Or.inl hcr)
      rw [List.cons_append, byteLinesFrom.eq_3 _ _ _ hnext, if_neg hb, List.append_assoc]
      refine hcuts.bytes tail fun ⟨hcr, hlf⟩ => htail ⟨?_, hlf⟩
      rw [getLast?_cons_of_ne (by rintro rfl; cases hcr), hcr]
    · exact hcuts.inLine last (hfragments ▸ hlast)

/-- **In whatever blocks a file is read, the fragments make its physical lines.** -/
theorem joinFragments_chunks {pendingCr inLine : Bool} {line : List UInt8}
    (hline : inLine = true ↔ line ≠ []) (blocks : List (List UInt8)) :
    joinFragments line (physicalLineChunks pendingCr inLine blocks) =
      byteLinesFrom line ((if pendingCr then [0x0D] else []) ++ blocks.flatten) := by
  induction blocks generalizing pendingCr inLine line with
  | nil =>
    cases pendingCr with
    | true => rfl
    | false =>
      cases inLine with
      | true =>
        have hne := hline.mp rfl
        show [line ++ []] = if line = [] then [] else [line]
        rw [if_neg hne, List.append_nil]
      | false =>
        have heq : line = [] := by
          by_contra hne
          exact absurd (hline.mpr hne) (by simp)
        rw [heq]
        rfl
  | cons chunk rest ih =>
    rw [physicalLineChunks, List.flatten_cons, ← List.append_assoc]
    generalize (if pendingCr = true then [(0x0D : UInt8)] else []) ++ chunk = data
    -- what is cut now, and what waits
    have hsplit : ∃ now, (if (data.getLast? == some 0x0D) = true then data.dropLast else data) =
        now ∧ data = now ++ (if (data.getLast? == some 0x0D) = true then [0x0D] else []) ∧
        ¬ (now.getLast? = some 0x0D ∧
          ((if (data.getLast? == some 0x0D) = true then [0x0D] else []) ++ rest.flatten).head? =
            some 0x0A) := by
      by_cases hcr : (data.getLast? == some 0x0D) = true
      · rw [if_pos hcr, if_pos hcr]
        refine ⟨_, rfl, ?_, by simp⟩
        exact (List.dropLast_append_getLast? _ (beq_iff_eq.mp hcr)).symm
      · rw [if_neg hcr, if_neg hcr]
        exact ⟨_, rfl, by simp, fun h => hcr (beq_iff_eq.mpr h.1)⟩
    obtain ⟨now, hnow, hdata, hmeets⟩ := hsplit
    obtain ⟨lines, begun, hcuts⟩ := cuts line [] now
    rw [hnow, hcuts.fragments, ih]
    · have hbytes := hcuts.bytes _ hmeets
      rw [← List.append_assoc, ← hdata, List.append_nil] at hbytes
      exact hbytes.symm
    · cases hlast : (fragmentsFrom [] now).getLast? with
      | none =>
        rw [hcuts.same (List.getLast?_eq_none_iff.mp hlast)]
        exact hline
      | some last =>
        have hinLine := hcuts.inLine last hlast
        cases hend : last.2 with
        | true | false => simpa [hend] using hinLine

/-! ### The lines of an encoded text -/

theorem byteLinesFrom_body {body : List UInt8} (h : ∀ b ∈ body, ¬ (b = 0x0D ∨ b = 0x0A))
    (line rest : List UInt8) :
    byteLinesFrom line (body ++ rest) = byteLinesFrom (line ++ body) rest := by
  induction body generalizing line with
  | nil => simp
  | cons b more ih =>
    have hb := h b List.mem_cons_self
    have hcrlf : ∀ t, b = 0x0D → more ++ rest = 0x0A :: t → False := fun t hcr _ =>
      hb (Or.inl hcr)
    rw [List.cons_append, byteLinesFrom.eq_3 _ _ _ hcrlf, if_neg hb,
      ih fun d hd => h d (List.mem_cons_of_mem b hd), List.append_assoc]
    rfl

theorem bytes_of_plain {c : Char} (h : endsLine c = false) :
    ∀ b ∈ String.utf8EncodeChar c, ¬ (b = 0x0D ∨ b = 0x0A) := by
  have hcr : c.val.toNat ≠ 13 := by
    intro heq
    obtain rfl : c = '\r' := Char.ext (UInt32.toNat_inj.mp heq)
    cases h
  have hlf : c.val.toNat ≠ 10 := by
    intro heq
    obtain rfl : c = '\n' := Char.ext (UInt32.toNat_inj.mp heq)
    cases h
  have hvalid := Utf8.val_lt c
  have hval : c.toNat = c.val.toNat := rfl
  rw [hval] at hvalid
  unfold String.utf8EncodeChar
  generalize c.val.toNat = n at *
  -- a byte of a longer sequence is no ASCII character
  have hbyte : ∀ m, m ≠ 13 → m ≠ 10 → m < 256 →
      ¬ (UInt8.ofNat m = 0x0D ∨ UInt8.ofNat m = 0x0A) := by
    intro m hne hne' hlt hends
    rcases hends with heq | heq
    · have := congrArg UInt8.toNat heq
      rw [Utf8.toNat_ofNat_byte hlt] at this
      exact hne this
    · have := congrArg UInt8.toNat heq
      rw [Utf8.toNat_ofNat_byte hlt] at this
      exact hne' this
  intro b hb
  dsimp only at hb
  split at hb
  · rw [List.mem_singleton.mp hb]
    exact hbyte n hcr hlf (by omega)
  · split at hb
    · rcases List.mem_pair.mp hb with rfl | rfl
      · exact hbyte _ (by omega) (by omega) (by omega)
      · exact hbyte _ (by omega) (by omega) (by omega)
    · split at hb
      · simp only [List.mem_cons, List.not_mem_nil, or_false] at hb
        rcases hb with rfl | rfl | rfl <;> exact hbyte _ (by omega) (by omega) (by omega)
      · simp only [List.mem_cons, List.not_mem_nil, or_false] at hb
        rcases hb with rfl | rfl | rfl | rfl <;> exact hbyte _ (by omega) (by omega) (by omega)

theorem encode_cons (c : Char) (t : List Char) :
    Utf8.encode (c :: t) = String.utf8EncodeChar c ++ Utf8.encode t := rfl

theorem encode_snoc (t : List Char) (c : Char) :
    Utf8.encode (t ++ [c]) = Utf8.encode t ++ String.utf8EncodeChar c := by
  rw [Utf8.encode_append, encode_cons]
  simp [Utf8.encode]

theorem encode_eq_nil {t : List Char} : Utf8.encode t = [] ↔ t = [] := by
  constructor
  · intro h
    have hdecode := Utf8.decode_encode t
    rw [h] at hdecode
    exact List.map_eq_nil_iff.mp hdecode.symm
  · rintro rfl
    rfl

theorem head_encode_lf {t : List Char} {rest : List UInt8} (h : Utf8.encode t = 0x0A :: rest) :
    ∃ u, t = '\n' :: u := by
  have hrun := Utf8.run_encode t
  have hfirst : Utf8.run none (0x0A :: rest) =
      ([.char '\n'] ++ (Utf8.run none rest).1, (Utf8.run none rest).2) := Utf8.run_cons rfl rest
  rw [h, hfirst, Prod.mk.injEq] at hrun
  cases t with
  | nil => cases hrun.1
  | cons c u =>
    obtain ⟨hc, -⟩ := List.cons.inj hrun.1
    obtain rfl := Utf8.Piece.char.inj hc
    exact ⟨u, rfl⟩

/-- **The physical lines of the bytes are those of the text.** -/
theorem byteLinesFrom_encode (line t : List Char) :
    byteLinesFrom (Utf8.encode line) (Utf8.encode t) =
      (physicalLinesFrom line t).map Utf8.encode := by
  induction line, t using physicalLinesFrom.induct with
  | case1 line =>
    show (if Utf8.encode line = [] then [] else [Utf8.encode line]) = (field line).map Utf8.encode
    by_cases hline : line = []
    · rw [hline]
      rfl
    · rw [if_neg fun h => hline (encode_eq_nil.mp h), field, if_neg (by simpa using hline)]
      rfl
  | case2 line rest ih =>
    show (Utf8.encode line ++ [0x0D, 0x0A]) :: byteLinesFrom [] (Utf8.encode rest) =
      Utf8.encode (line ++ ['\r', '\n']) :: (physicalLinesFrom [] rest).map Utf8.encode
    rw [← ih, Utf8.encode_append]
    rfl
  | case3 line c rest hcrlf hc ih =>
    rw [physicalLinesFrom.eq_3 _ _ _ hcrlf, if_pos hc, List.map_cons, ← ih, encode_snoc]
    rcases (Bool.or_eq_true _ _).mp hc with hc | hc
    · obtain rfl := beq_iff_eq.mp hc
      exact byteLinesFrom.eq_3 _ _ _ (fun t h => by cases h)
    · obtain rfl := beq_iff_eq.mp hc
      refine byteLinesFrom.eq_3 _ _ _ fun t _ h => ?_
      obtain ⟨u, hu⟩ := head_encode_lf h
      exact hcrlf u rfl hu
  | case4 line c rest hcrlf hc ih =>
    rw [physicalLinesFrom.eq_3 _ _ _ hcrlf, if_neg hc, ← ih, encode_cons,
      byteLinesFrom_body (bytes_of_plain (by simpa using hc)), encode_snoc]

end AlysisCode.Files
