/-
The physical lines of a text.

`io.StringIO(text, newline="")` yields the lines with their ends, and a line ends with `\n`,
`\r` or `\r\n`.  Lines that are put together again can be taken apart again, unless one that
ends with `\r` meets one that begins with `\n`.
-/
import Mathlib.Data.List.Chain
import Mathlib.Data.List.DropRight
import AlysisCode.Library.Text

namespace Text

def endsLine (c : Char) : Bool := c == '\n' || c == '\r'

/-- The lines, from one begun with `line`. -/
def physicalLinesFrom (line : List Char) : List Char → List (List Char)
  | [] => field line
  | '\r' :: '\n' :: rest => (line ++ ['\r', '\n']) :: physicalLinesFrom [] rest
  | c :: rest =>
    if endsLine c then (line ++ [c]) :: physicalLinesFrom [] rest
    else physicalLinesFrom (line ++ [c]) rest

/-- `list(io.StringIO(t, newline=""))`. -/
def physicalLines (t : List Char) : List (List Char) := physicalLinesFrom [] t

structure Closed (l : List Char) : Prop where
  split : ∃ body ending, l = body ++ ending ∧ (∀ c ∈ body, endsLine c = false) ∧
    (ending = ['\n'] ∨ ending = ['\r'] ∨ ending = ['\r', '\n'])

/-- A line, or what there is of the last one. -/
def Piece (l : List Char) : Prop := Closed l ∨ (l ≠ [] ∧ ∀ c ∈ l, endsLine c = false)

/-- Put behind one another, the texts have a line end where they meet. -/
def Meets (l rest : List Char) : Prop := l.getLast? = some '\r' ∧ rest.head? = some '\n'

variable {l : List Char}

theorem Piece.ne_nil (h : Piece l) : l ≠ [] := by
  rcases h with ⟨body, ending, rfl, -, hending⟩ | ⟨hne, -⟩
  · rcases hending with rfl | rfl | rfl <;> simp
  · exact hne

theorem Closed.append {start : List Char} (h : Closed l) (hstart : ∀ c ∈ start, endsLine c = false) :
    Closed (start ++ l) := by
  obtain ⟨body, ending, rfl, hbody, hending⟩ := h
  refine ⟨start ++ body, ending, by simp, fun c hc => ?_, hending⟩
  rcases List.mem_append.mp hc with hc | hc
  · exact hstart c hc
  · exact hbody c hc

theorem Piece.append {l start : List Char} (h : Piece l)
    (hstart : ∀ c ∈ start, endsLine c = false) : Piece (start ++ l) := by
  rcases h with hclosed | ⟨hne, hl⟩
  · exact .inl (hclosed.append hstart)
  · refine .inr ⟨by simp [hne], fun c hc => ?_⟩
    rcases List.mem_append.mp hc with hc | hc
    · exact hstart c hc
    · exact hl c hc

/-! ### Taking lines apart -/

theorem physicalLinesFrom_body {body : List Char} (hbody : ∀ c ∈ body, endsLine c = false)
    (line rest : List Char) :
    physicalLinesFrom line (body ++ rest) = physicalLinesFrom (line ++ body) rest := by
  induction body generalizing line with
  | nil => simp
  | cons c tail ih =>
    have hc := hbody c List.mem_cons_self
    have hcrlf : ∀ t, c = '\r' → tail ++ rest = '\n' :: t → False := by
      rintro t rfl -
      cases hc
    rw [List.cons_append, physicalLinesFrom.eq_3 _ _ _ hcrlf, if_neg (by simp [hc]),
      ih (fun d hd => hbody d (List.mem_cons_of_mem c hd))]
    simp

/-- **A whole line in front is the first line.** -/
theorem physicalLines_append {rest : List Char} (h : Closed l) (hmeets : ¬ Meets l rest) :
    physicalLines (l ++ rest) = l :: physicalLines rest := by
  obtain ⟨body, ending, rfl, hbody, hending⟩ := h
  unfold physicalLines
  rw [List.append_assoc, physicalLinesFrom_body hbody, List.nil_append]
  rcases hending with rfl | rfl | rfl
  · rfl
  · have hcrlf : ∀ t, '\r' = '\r' → rest = '\n' :: t → False := by
      rintro t - rfl
      exact hmeets ⟨by simp, rfl⟩
    exact physicalLinesFrom.eq_3 _ _ _ hcrlf
  · rfl

/-- Every line but the last is whole, and the last is a piece of one. -/
theorem pieces_physicalLinesFrom {line : List Char} (t : List Char)
    (hline : ∀ c ∈ line, endsLine c = false) {i : Nat} (h : (physicalLinesFrom line t)[i]? = some l) :
    Piece l ∧ (i + 1 < (physicalLinesFrom line t).length → Closed l) := by
  induction line, t using physicalLinesFrom.induct generalizing i with
  | case1 line =>
    change (field line)[i]? = some l at h
    obtain ⟨rfl, hne⟩ := mem_field.mp (List.mem_of_getElem? h)
    refine ⟨.inr ⟨hne, hline⟩, fun hlen => ?_⟩
    have hone : (field l).length ≤ 1 := by
      unfold field
      split <;> simp
    change i + 1 < (field l).length at hlen
    omega
  | case2 line rest ih =>
    have hclosed : Closed (line ++ ['\r', '\n']) := ⟨line, _, rfl, hline, by simp⟩
    change ((line ++ ['\r', '\n']) :: physicalLinesFrom [] rest)[i]? = some l at h
    cases i with
    | zero =>
      cases h
      exact ⟨.inl hclosed, fun _ => hclosed⟩
    | succ i =>
      have hrest := ih (by simp) h
      exact ⟨hrest.1, fun hlen => hrest.2 (by simpa [physicalLinesFrom] using hlen)⟩
  | case3 line c rest hcrlf hc ih =>
    have hclosed : Closed (line ++ [c]) := by
      refine ⟨line, _, rfl, hline, ?_⟩
      rcases (Bool.or_eq_true _ _).mp hc with hc | hc
      · exact .inl (by rw [beq_iff_eq.mp hc])
      · exact .inr (.inl (by rw [beq_iff_eq.mp hc]))
    rw [physicalLinesFrom.eq_3 _ _ _ hcrlf, if_pos hc] at h ⊢
    cases i with
    | zero =>
      cases h
      exact ⟨.inl hclosed, fun _ => hclosed⟩
    | succ i =>
      have hrest := ih (by simp) h
      exact ⟨hrest.1, fun hlen => hrest.2 (by simpa using hlen)⟩
  | case4 line c rest hcrlf hc ih =>
    rw [physicalLinesFrom.eq_3 _ _ _ hcrlf, if_neg hc] at h ⊢
    refine ih (fun d hd => ?_) h
    rcases List.mem_append.mp hd with hd | hd
    · exact hline d hd
    · rw [List.mem_singleton.mp hd]
      simpa using hc

/-! ### Putting lines together -/

/-- What closes a piece of a line with a newline. -/
def newlineAfter (l : List Char) : List Char := if l.getLast? = some '\n' then [] else ['\n']

theorem getLast_newlineAfter (l : List Char) : (l ++ newlineAfter l).getLast? = some '\n' := by
  unfold newlineAfter
  split
  · rename_i h
    rw [List.append_nil, h]
  · simp

theorem Piece.closed (h : Piece l) : Closed (l ++ newlineAfter l) := by
  unfold newlineAfter
  rcases h with ⟨body, ending, rfl, hbody, hending⟩ | ⟨-, hl⟩
  · rcases hending with rfl | rfl | rfl
    · rw [if_pos (by simp), List.append_nil]
      exact ⟨body, _, rfl, hbody, by simp⟩
    · rw [if_neg (by simp)]
      exact ⟨body, ['\r', '\n'], by simp, hbody, by simp⟩
    · rw [if_pos (by simp), List.append_nil]
      exact ⟨body, _, rfl, hbody, by simp⟩
  · have hlast : ¬ l.getLast? = some '\n' := by
      intro hlast
      have hend := hl _ (List.mem_of_getLast? hlast)
      cases hend
    rw [if_neg hlast]
    exact ⟨l, _, rfl, hl, by simp⟩

/-- **Lines put together, closed by a newline and followed by anything, can be taken apart
again, if no two of them meet in a line end.** -/
theorem physicalLines_join {lines : List (List Char)} (hlines : ∀ l ∈ lines, Closed l)
    {last : List Char} (hlast : Piece last)
    (hchain : (lines ++ [last]).IsChain fun l next => ¬ Meets l next) (rest : List Char) :
    physicalLines ((lines ++ [last]).flatten ++ (newlineAfter last ++ rest)) =
      lines ++ (last ++ newlineAfter last) :: physicalLines rest := by
  induction lines with
  | nil =>
    have hmeets : ¬ Meets (last ++ newlineAfter last) rest := by
      rintro ⟨h, -⟩
      rw [getLast_newlineAfter] at h
      cases h
    rw [List.nil_append, List.flatten_singleton, ← List.append_assoc,
      physicalLines_append hlast.closed hmeets, List.nil_append]
  | cons l tail ih =>
    obtain ⟨hl, htail⟩ := List.forall_mem_cons.mp hlines
    rw [List.cons_append, List.isChain_cons] at hchain
    obtain ⟨hnext, hchain⟩ := hchain
    have hmeets : ¬ Meets l ((tail ++ [last]).flatten ++ (newlineAfter last ++ rest)) := by
      cases tail with
      | nil =>
        obtain ⟨c, more, hcons⟩ := List.exists_cons_of_ne_nil hlast.ne_nil
        have hl' := hnext last rfl
        rw [hcons] at hl' ⊢
        exact hl'
      | cons next others =>
        have hne : next ≠ [] := Piece.ne_nil (.inl (htail next List.mem_cons_self))
        obtain ⟨c, more, hcons⟩ := List.exists_cons_of_ne_nil hne
        have hl' := hnext next rfl
        rw [hcons] at hl' ⊢
        exact hl'
    rw [List.cons_append, List.flatten_cons, List.append_assoc, physicalLines_append hl hmeets,
      ih htail hchain, List.cons_append]

end Text

/-! ### Lines that were joined

What `str.splitlines` makes of lines that were joined with `\n`.

The writer ends a line at `\n` alone, the reader at every line boundary.  A text is cut at
its boundaries by `splitOnP isLineBreak`, so joined lines come back cut one by one, and what
is joined again has `\n` for every boundary.
-/

namespace Text

/-- A text with `\n` for every line boundary. -/
def flattenBreaks (t : List Char) : List Char := t.map fun c => if isLineBreak c then '\n' else c

theorem splitlinesFrom_concat (line : List Char) {t : List Char} (hcr : '\r' ∉ t) :
    splitlinesFrom line (t ++ ['\n']) = (t.splitOnP isLineBreak).modifyHead (line ++ ·) := by
  induction t generalizing line with
  | nil =>
    show line :: splitlinesFrom [] [] = [line ++ []]
    rw [List.append_nil]
    rfl
  | cons c rest ih =>
    rw [List.mem_cons, not_or] at hcr
    have hcrlf : ∀ rest', c = '\r' → rest ++ ['\n'] = '\n' :: rest' → False :=
      fun _ heq => absurd heq.symm hcr.1
    rw [List.cons_append, splitlinesFrom.eq_3 _ _ _ hcrlf, List.splitOnP_cons_eq_if_modifyHead]
    by_cases hc : isLineBreak c = true
    · rw [if_pos hc, if_pos hc, ih [] hcr.2]
      cases rest.splitOnP isLineBreak <;> simp
    · rw [if_neg hc, if_neg hc, ih _ hcr.2]
      cases rest.splitOnP isLineBreak <;> simp

/-- A text that ends with its last line's `\n` is cut at every boundary in front of it. -/
theorem splitlines_concat {t : List Char} (hcr : '\r' ∉ t) :
    splitlines (t ++ ['\n']) = t.splitOnP isLineBreak := by
  rw [splitlines, splitlinesFrom_concat [] hcr]
  cases t.splitOnP isLineBreak <;> simp

/-- Joined lines are cut one by one. -/
theorem splitOnP_intercalate {lines : List (List Char)} (hne : lines ≠ []) (rest : List Char) :
    (['\n'].intercalate lines ++ '\n' :: rest).splitOnP isLineBreak =
      lines.flatMap (List.splitOnP isLineBreak) ++ rest.splitOnP isLineBreak := by
  induction lines with
  | nil => exact absurd rfl hne
  | cons line lines ih =>
    cases lines with
    | nil =>
      rw [List.intercalate_singleton, List.splitOnP_append_cons _ _ (by decide)]
      simp
    | cons next more =>
      have hjoin : ['\n'].intercalate (line :: next :: more) ++ '\n' :: rest =
          line ++ '\n' :: (['\n'].intercalate (next :: more) ++ '\n' :: rest) := by
        simp [List.intercalate_cons_cons]
      rw [hjoin, List.splitOnP_append_cons _ _ (by decide), ih (by simp)]
      simp

/-- The pieces of a text, joined again. -/
theorem intercalate_splitOnP (t : List Char) :
    ['\n'].intercalate (t.splitOnP isLineBreak) = flattenBreaks t := by
  induction t with
  | nil => rfl
  | cons c rest ih =>
    obtain ⟨piece, pieces, hpieces⟩ :=
      List.exists_cons_of_ne_nil (List.splitOnP_ne_nil isLineBreak rest)
    rw [hpieces] at ih
    rw [List.splitOnP_cons_eq_if_modifyHead, hpieces]
    show _ = (if isLineBreak c then '\n' else c) :: flattenBreaks rest
    by_cases hc : isLineBreak c = true
    · rw [if_pos hc, if_pos hc, List.intercalate_cons_cons, ih]
      rfl
    · rw [if_neg hc, if_neg hc, ← ih]
      cases pieces with
      | nil => rfl
      | cons next more => simp [List.intercalate_cons_cons]

/-- Only the boundaries other than `\n` are lost. -/
theorem flattenBreaks_eq_iff (t : List Char) :
    flattenBreaks t = t ↔ ∀ c ∈ t, isLineBreak c = true → c = '\n' := by
  have hmap : flattenBreaks t = t.map id ↔
      ∀ c ∈ t, (if isLineBreak c then '\n' else c) = id c := List.map_inj_left
  rw [List.map_id] at hmap
  rw [hmap]
  refine forall₂_congr fun c _ => ?_
  by_cases hc : isLineBreak c = true
  · rw [if_pos hc]
    exact ⟨fun h _ => h.symm, fun h => (h hc).symm⟩
  · rw [if_neg hc]
    exact ⟨fun _ h => absurd h hc, fun _ => rfl⟩

/-! ### Stripping the end -/

theorem rdropWhile_append {p : Char → Bool} (s t : List Char) : (s ++ t).rdropWhile p =
      if t.rdropWhile p = [] then s.rdropWhile p else s ++ t.rdropWhile p := by
  unfold List.rdropWhile
  rw [List.reverse_append, List.dropWhile_append]
  by_cases h : t.reverse.dropWhile p = []
  · rw [h]
    simp
  · rw [if_neg (by simpa using h), if_neg (by simpa using h), List.reverse_append,
      List.reverse_reverse]

/-- What is stripped at the end makes no difference to stripping. -/
theorem stripWhere_rdropWhile (p : Char → Bool) (t : List Char) :
    stripWhere p (t.rdropWhile p) = stripWhere p t := by
  induction t using List.reverseRecOn with
  | nil => rfl
  | append_singleton t c ih =>
    by_cases hc : p c = true
    · rw [List.rdropWhile_concat_pos _ _ _ hc, ih, stripWhere_concat hc]
    · rw [List.rdropWhile_concat_neg _ _ _ (by simpa using hc)]

/-- A character that stripping removes is one of those it is to remove. -/
theorem mem_stripWhere {p : Char → Bool} {t : List Char} {c : Char} (hc : c ∈ t)
    (hp : p c = false) : c ∈ stripWhere p t := by
  unfold stripWhere
  rw [List.mem_reverse]
  have hkept : ∀ {s : List Char}, c ∈ s → c ∈ s.dropWhile p := by
    intro s hs
    rw [← List.takeWhile_append_dropWhile (p := p) (l := s)] at hs
    rcases List.mem_append.mp hs with hs | hs
    · rw [List.mem_takeWhile_imp hs] at hp
      cases hp
    · exact hs
  exact hkept (List.mem_reverse.mpr (hkept hc))

end Text
