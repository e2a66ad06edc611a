/-
Lines by what ends them.

Programs disagree on which characters end a line, though for all of them `\r\n` is one end.
`endedLines p` are the lines with their ends where the characters of `p` end one.
`str.splitlines` and `io.StringIO` are two of its instances, and two instances give the same
lines exactly when they agree on the characters of the text.
-/
import AlysisCode.Library.Lines

namespace Text

/-- The lines with their ends, from one begun with `line`. -/
def endedLinesFrom (p : Char → Bool) (line : List Char) : List Char → List (List Char × List Char)
  | [] => (field line).map fun l => (l, [])
  | '\r' :: '\n' :: rest => (line, ['\r', '\n']) :: endedLinesFrom p [] rest
  | c :: rest =>
    if p c then (line, [c]) :: endedLinesFrom p [] rest else endedLinesFrom p (line ++ [c]) rest

def endedLines (p : Char → Bool) (t : List Char) : List (List Char × List Char) :=
  endedLinesFrom p [] t

/-- A line together with its end. -/
def whole (line : List Char × List Char) : List Char := line.1 ++ line.2

/-- `str.splitlines(keepends=True)` -/
def splitlinesKeepends (t : List Char) : List (List Char) := (endedLines isLineBreak t).map whole

/-! ### The instances -/

theorem map_field (line : List Char) :
    ((field line).map fun l => (l, ([] : List Char))).map Prod.fst = field line := by
  simp [Function.comp_def]

theorem whole_field (line : List Char) :
    ((field line).map fun l => (l, ([] : List Char))).map whole = field line := by
  simp [Function.comp_def, whole]

variable (t : List Char)

theorem splitlines_eq : splitlines t = (endedLines isLineBreak t).map Prod.fst := by
  suffices hfrom : ∀ line,
      splitlinesFrom line t = (endedLinesFrom isLineBreak line t).map Prod.fst from hfrom []
  intro line
  induction line, t using splitlinesFrom.induct with
  | case1 line => exact (map_field line).symm
  | case2 line rest ih =>
    show line :: splitlinesFrom [] rest = line :: _
    rw [ih]
  | case3 line c rest hcrlf hc ih =>
    rw [splitlinesFrom.eq_3 _ _ _ hcrlf, endedLinesFrom.eq_3 _ _ _ _ hcrlf, if_pos hc, if_pos hc,
      List.map_cons, ih]
  | case4 line c rest hcrlf hc ih =>
    rw [splitlinesFrom.eq_3 _ _ _ hcrlf, endedLinesFrom.eq_3 _ _ _ _ hcrlf, if_neg hc, if_neg hc,
      ih]

theorem physicalLines_eq : physicalLines t = (endedLines endsLine t).map whole := by
  suffices hfrom : ∀ line,
      physicalLinesFrom line t = (endedLinesFrom endsLine line t).map whole from hfrom []
  intro line
  induction line, t using physicalLinesFrom.induct with
  | case1 line => exact (whole_field line).symm
  | case2 line rest ih =>
    show (line ++ ['\r', '\n']) :: physicalLinesFrom [] rest = (line ++ ['\r', '\n']) :: _
    rw [ih]
  | case3 line c rest hcrlf hc ih =>
    rw [physicalLinesFrom.eq_3 _ _ _ hcrlf, endedLinesFrom.eq_3 _ _ _ _ hcrlf, if_pos hc,
      if_pos hc, List.map_cons, ih, whole]
  | case4 line c rest hcrlf hc ih =>
    rw [physicalLinesFrom.eq_3 _ _ _ hcrlf, endedLinesFrom.eq_3 _ _ _ _ hcrlf, if_neg hc,
      if_neg hc, ih]

/-! ### What the lines hold -/

section
variable {p q : Char → Bool}

variable (line : List Char)

theorem whole_endedLinesFrom (t : List Char) :
    (endedLinesFrom p line t).flatMap whole = line ++ t := by
  induction line, t using endedLinesFrom.induct p with
  | case1 line =>
    rw [endedLinesFrom, List.append_nil, field]
    split
    · rename_i hempty
      simp [List.isEmpty_iff.mp hempty]
    · simp [whole]
  | case2 line rest ih =>
    show (line ++ ['\r', '\n']) ++ (endedLinesFrom p [] rest).flatMap whole = _
    rw [ih]
    simp
  | case3 line c rest hcrlf hc ih =>
    rw [endedLinesFrom.eq_3 _ _ _ _ hcrlf, if_pos hc, List.flatMap_cons, ih]
    simp [whole]
  | case4 line c rest hcrlf hc ih =>
    rw [endedLinesFrom.eq_3 _ _ _ _ hcrlf, if_neg hc, ih]
    simp

/-- The lines put together are the text. -/
theorem whole_endedLines (t : List Char) : (endedLines p t).flatMap whole = t :=
  whole_endedLinesFrom [] t

/-- A line, and what may end it. -/
structure Ended (p : Char → Bool) (l : List Char × List Char) : Prop where
  body : ∀ c ∈ l.1, p c = false
  ending : ∀ c ∈ l.2, p c = true

theorem ended_endedLinesFrom (hcr : p '\r' = true) (hlf : p '\n' = true) {line : List Char}
    (hline : ∀ c ∈ line, p c = false) (t : List Char) :
    ∀ l ∈ endedLinesFrom p line t, Ended p l := by
  induction line, t using endedLinesFrom.induct p with
  | case1 line =>
    intro l hl
    obtain ⟨begun, hbegun, rfl⟩ := List.mem_map.mp hl
    obtain ⟨rfl, -⟩ := mem_field.mp hbegun
    exact ⟨hline, by simp⟩
  | case2 line rest ih =>
    intro l hl
    rcases List.mem_cons.mp hl with rfl | hl
    · exact ⟨hline, by simp [hcr, hlf]⟩
    · exact ih (by simp) l hl
  | case3 line c rest hcrlf hc ih =>
    intro l hl
    rw [endedLinesFrom.eq_3 _ _ _ _ hcrlf, if_pos hc] at hl
    rcases List.mem_cons.mp hl with rfl | hl
    · exact ⟨hline, by simp [hc]⟩
    · exact ih (by simp) l hl
  | case4 line c rest hcrlf hc ih =>
    intro l hl
    rw [endedLinesFrom.eq_3 _ _ _ _ hcrlf, if_neg hc] at hl
    refine ih (fun d hd => ?_) l hl
    rcases List.mem_append.mp hd with hd | hd
    · exact hline d hd
    · rw [List.mem_singleton.mp hd]
      simpa using hc

theorem ended_endedLines (hcr : p '\r' = true) (hlf : p '\n' = true) (t : List Char) :
    ∀ l ∈ endedLines p t, Ended p l := ended_endedLinesFrom hcr hlf (by simp) t

/-! ### Two notions of a line end -/

theorem endedLinesFrom_congr {t : List Char} (h : ∀ c ∈ t, p c = q c) :
    endedLinesFrom p line t = endedLinesFrom q line t := by
  induction line, t using endedLinesFrom.induct p with
  | case1 line => rfl
  | case2 line rest ih =>
    show _ :: endedLinesFrom p [] rest = _ :: endedLinesFrom q [] rest
    rw [ih fun c hc => h c (List.mem_cons_of_mem _ (List.mem_cons_of_mem _ hc))]
  | case3 line c rest hcrlf hc ih =>
    have hq : q c = true := (h c List.mem_cons_self) ▸ hc
    rw [endedLinesFrom.eq_3 _ _ _ _ hcrlf, endedLinesFrom.eq_3 _ _ _ _ hcrlf, if_pos hc, if_pos hq,
      ih fun d hd => h d (List.mem_cons_of_mem _ hd)]
  | case4 line c rest hcrlf hc ih =>
    have hq : ¬ q c = true := (h c List.mem_cons_self) ▸ hc
    rw [endedLinesFrom.eq_3 _ _ _ _ hcrlf, endedLinesFrom.eq_3 _ _ _ _ hcrlf, if_neg hc, if_neg hq,
      ih fun d hd => h d (List.mem_cons_of_mem _ hd)]

theorem endedLines_congr {t : List Char} (h : ∀ c ∈ t, p c = q c) :
    endedLines p t = endedLines q t := endedLinesFrom_congr [] h

/-- **Without their ends, the lines are the same exactly when the notions agree on the text.** -/
theorem bodies_eq_iff (hcr : q '\r' = true) (hlf : q '\n' = true)
    (hle : ∀ c, q c = true → p c = true) (t : List Char) :
    (endedLines p t).map Prod.fst = (endedLines q t).map Prod.fst ↔ ∀ c ∈ t, p c = q c := by
  constructor
  · intro heq c hc
    by_contra hne
    have hq : ¬ q c = true := fun hq => hne (by rw [hle c hq, hq])
    have hp : p c = true := by
      by_contra hp
      exact hne (((Bool.not_eq_true _).mp hp).trans ((Bool.not_eq_true _).mp hq).symm)
    -- the character stands in a line of `q`, and in none of `p`
    rw [← whole_endedLines (p := q) t] at hc
    obtain ⟨l, hl, hcl⟩ := List.mem_flatMap.mp hc
    have hended := ended_endedLines hcr hlf t l hl
    rcases List.mem_append.mp hcl with hbody | hending
    · have hmem : l.1 ∈ (endedLines p t).map Prod.fst := by
        rw [heq]
        exact List.mem_map_of_mem hl
      obtain ⟨l', hl', hl'eq⟩ := List.mem_map.mp hmem
      have hfree := (ended_endedLines (hle _ hcr) (hle _ hlf) t l' hl').body c (hl'eq ▸ hbody)
      rw [hp] at hfree
      cases hfree
    · exact hq (hended.ending c hending)
  · intro h
    rw [endedLines_congr h]

/-- A line that has begun goes on with what comes. -/
theorem whole_head {t : List Char} (ht : t ≠ []) :
    ∃ more rest, more ≠ [] ∧ (endedLinesFrom q line t).map whole = (line ++ more) :: rest := by
  induction line, t using endedLinesFrom.induct q with
  | case1 line => exact absurd rfl ht
  | case2 line rest _ =>
    exact ⟨['\r', '\n'], (endedLinesFrom q [] rest).map whole, by simp, rfl⟩
  | case3 line c rest hcrlf hc _ =>
    refine ⟨[c], (endedLinesFrom q [] rest).map whole, by simp, ?_⟩
    rw [endedLinesFrom.eq_3 _ _ _ _ hcrlf, if_pos hc]
    rfl
  | case4 line c rest hcrlf hc ih =>
    rw [endedLinesFrom.eq_3 _ _ _ _ hcrlf, if_neg hc]
    by_cases hrest : rest = []
    · refine ⟨[c], [], by simp, ?_⟩
      rw [hrest, endedLinesFrom, whole_field, field]
      simp
    · obtain ⟨more, others, -, heq⟩ := ih hrest
      exact ⟨c :: more, others, by simp, by rw [heq, List.append_assoc]; rfl⟩

theorem wholes_from_eq_iff (hcr : q '\r' = true) (hlf : q '\n' = true)
    (hle : ∀ c, q c = true → p c = true) (line t : List Char) :
    (endedLinesFrom p line t).map whole = (endedLinesFrom q line t).map whole ↔
      ∀ c ∈ t.dropLast, p c = q c := by
  induction line, t using endedLinesFrom.induct p with
  | case1 line =>
    rw [endedLinesFrom, endedLinesFrom]
    simp
  | case2 line rest ih =>
    rw [endedLinesFrom, endedLinesFrom, List.map_cons, List.map_cons, List.cons.injEq, ih]
    cases rest with
    | nil => simp [hcr, hle _ hcr]
    | cons d more =>
      rw [List.dropLast_cons_cons, List.dropLast_cons_cons]
      simp [hcr, hlf, hle _ hcr, hle _ hlf]
  | case3 line c rest hcrlf hc ih =>
    rw [endedLinesFrom.eq_3 _ _ _ _ hcrlf, endedLinesFrom.eq_3 _ _ _ _ hcrlf, if_pos hc]
    by_cases hq : q c = true
    · rw [if_pos hq, List.map_cons, List.map_cons, List.cons.injEq, ih]
      cases rest with
      | nil => simp
      | cons d more => simp [hc, hq]
    · rw [if_neg hq]
      cases rest with
      | nil =>
        rw [endedLinesFrom, endedLinesFrom, whole_field]
        simp [field, whole]
      | cons d more =>
        obtain ⟨later, others, hne, heq⟩ :=
          whole_head (q := q) (line ++ [c]) (List.cons_ne_nil d more)
        rw [heq, List.map_cons, List.cons.injEq, List.dropLast_cons_cons]
        constructor
        · rintro ⟨hhead, -⟩
          have hlen := congrArg List.length hhead
          have hpos := List.length_pos_iff.mpr hne
          simp only [whole, List.length_append] at hlen
          omega
        · intro h
          exact absurd ((h c List.mem_cons_self) ▸ hc) hq
  | case4 line c rest hcrlf hc ih =>
    have hq : ¬ q c = true := fun hq => hc (hle c hq)
    rw [endedLinesFrom.eq_3 _ _ _ _ hcrlf, endedLinesFrom.eq_3 _ _ _ _ hcrlf, if_neg hc, if_neg hq,
      ih]
    cases rest with
    | nil => simp
    | cons d more => simp [hc, hq]

/-- **With their ends, they are the same exactly when the notions agree on all but the last
character.** -/
theorem wholes_eq_iff (hcr : q '\r' = true) (hlf : q '\n' = true)
    (hle : ∀ c, q c = true → p c = true) (t : List Char) :
    (endedLines p t).map whole = (endedLines q t).map whole ↔ ∀ c ∈ t.dropLast, p c = q c :=
  wholes_from_eq_iff hcr hlf hle [] t

end

/-! ### Python's two notions -/

/-- A character that ends a line for `str.splitlines` only. -/
def OtherBreak (c : Char) : Prop := isLineBreak c = true ∧ endsLine c = false

instance (c : Char) : Decidable (OtherBreak c) := inferInstanceAs (Decidable (_ ∧ _))

theorem isLineBreak_of_endsLine {c : Char} (h : endsLine c = true) : isLineBreak c = true := by
  rcases (Bool.or_eq_true _ _).mp h with h | h
  · rw [beq_iff_eq.mp h]
    rfl
  · rw [beq_iff_eq.mp h]
    rfl

theorem breaks_eq_iff (c : Char) : isLineBreak c = endsLine c ↔ ¬ OtherBreak c := by
  cases hends : endsLine c with
  | true => simp [OtherBreak, hends, isLineBreak_of_endsLine hends]
  | false => simp [OtherBreak, hends]

theorem splitlines_eq_iff :
    splitlines t = (endedLines endsLine t).map Prod.fst ↔ ∀ c ∈ t, ¬ OtherBreak c := by
  rw [splitlines_eq, bodies_eq_iff rfl rfl (fun _ => isLineBreak_of_endsLine)]
  simp only [breaks_eq_iff]

theorem splitlinesKeepends_eq_iff :
    splitlinesKeepends t = physicalLines t ↔ ∀ c ∈ t.dropLast, ¬ OtherBreak c := by
  rw [splitlinesKeepends, physicalLines_eq,
    wholes_eq_iff rfl rfl (fun _ => isLineBreak_of_endsLine)]
  simp only [breaks_eq_iff]

end Text
