/-
An entry whose frontmatter has no broken line is read back.

The fields are read one after another, each setting its own key; the closing line is found
where the writer put it, and the body comes back with `\n` for every line boundary in it.
-/
import AlysisCode.Knowledge.Lines
import AlysisCode.Knowledge.Write

namespace AlysisCode.Knowledge

open Text

variable {F : Type}

/-- What the reader finds between two boundaries. -/
abbrev cut : List Char → List (List Char) := List.splitOnP isLineBreak

/-! ### Fields in one piece -/

theorem no_break_of_unbroken {s : String} (h : ∀ c ∈ s.toList, isWideBreak c = false) :
    ∀ c ∈ Json.quote false s, isLineBreak c = false := by
  intro c hc
  by_contra hbreak
  rw [Bool.not_eq_false] at hbreak
  obtain ⟨hwide, hmem⟩ := isWideBreak_of_mem_quote hc hbreak
  rw [h c hmem] at hwide
  cases hwide

variable {key : String} {lines : List (List Char)} (t : List Char) {c : Char}

theorem no_break_fieldLines (hkey : PlainKey key) {f : Field} (hf : f.Unbroken) :
    ∀ line ∈ fieldLines (key, f), ∀ c ∈ line, isLineBreak c = false := by
  have hkeyed : ∀ raw : List Char, (∀ c ∈ raw, isLineBreak c = false) →
      ∀ c ∈ key.toList ++ ':' :: raw, isLineBreak c = false := by
    intro raw hraw c hc
    rcases List.mem_append.mp hc with hc | hc
    · exact (hkey.chars c hc).2.2
    · rcases List.mem_cons.mp hc with rfl | hc
      · decide
      · exact hraw c hc
  intro line hline
  cases f with
  | scalar value =>
    obtain rfl := List.mem_singleton.mp hline
    refine hkeyed _ fun c hc => ?_
    rcases List.mem_cons.mp hc with rfl | hc
    · decide
    · cases value with
      | none =>
        have hnull : ∀ c ∈ ['n', 'u', 'l', 'l'], isLineBreak c = false := by decide
        exact hnull c hc
      | some s => exact no_break_of_unbroken (hf s List.mem_cons_self) c hc
  | list items =>
    rcases List.mem_cons.mp hline with rfl | hline
    · exact hkeyed [] (by simp)
    · obtain ⟨item, hitem, rfl⟩ := List.mem_map.mp hline
      intro c hc
      rcases List.mem_append.mp hc with hc | hc
      · have hbullet : ∀ c ∈ bullet, isLineBreak c = false := by decide
        exact hbullet c hc
      · exact no_break_of_unbroken (hf item hitem) c hc

theorem cut_fieldLines (hkey : PlainKey key) {f : Field} (hf : f.Unbroken) :
    (fieldLines (key, f)).flatMap cut = fieldLines (key, f) := by
  have hcut : ∀ line ∈ fieldLines (key, f), cut line = [line] := fun line hline =>
    List.splitOnP_eq_singleton (no_break_fieldLines hkey hf line hline)
  rw [List.flatMap_congr hcut]
  exact List.flatMap_singleton' _

section Reader

variable [Json.Floats F] (python : Python F)

variable (r : Reading F) {key : String}

/-- The lines of the frontmatter, one after another. -/
abbrev readLines (lines : List (List Char)) : Except EntryError (Reading F) :=
  lines.foldlM (readLine python) r

theorem readLines_items {r : Reading F} {read : List (Json F)} (hkey : r.key = some key)
    (hread : r.data.lookup key = some (.arr read)) (items : List String) :
    ∃ r', readLines python r
        (items.map fun item => bullet ++ frontmatterScalar (some item)) = .ok r' ∧
      r'.data.lookup key = some (.arr (read ++ items.map .str)) ∧
      ∀ other ≠ key, r'.data.lookup other = r.data.lookup other := by
  induction items generalizing r read with
  | nil => exact ⟨r, rfl, by simpa using hread, fun _ _ => rfl⟩
  | cons item items ih =>
    have hraw : rstrip (frontmatterScalar (some item)) ≠ [] := by
      have hlast : (Json.quote false item).getLast? = some '"' := List.getLast?_concat
      have hself : rstrip (Json.quote false item) = Json.quote false item := by
        unfold rstrip
        rw [List.rdropWhile_eq_self_iff]
        intro hne
        have hq : (Json.quote false item).getLast hne = '"' := by
          rw [List.getLast?_eq_some_getLast hne] at hlast
          exact Option.some.inj hlast
        rw [hq]
        decide
      show rstrip (Json.quote false item) ≠ []
      rw [hself]
      exact List.cons_ne_nil _ _
    have hline := readLine_item python hkey hread hraw
    rw [parseFrontmatterScalar_written] at hline
    obtain ⟨r', hr', hlookup, hframe⟩ := ih (r := ⟨Json.assign r.data key
      (.arr (read ++ [.str item])), some key⟩) rfl (Json.lookup_assign_self _ _ _)
    refine ⟨r', ?_, by simpa using hlookup, ?_⟩
    · rw [List.map_cons, readLines, List.foldlM_cons, hline]
      exact hr'
    · intro other hother
      rw [hframe other hother]
      exact Json.lookup_assign_of_ne _ _ hother

/-- **An unbroken field is read back, and nothing else is touched.** -/
theorem readLines_field (hkey : PlainKey key) {f : Field} (hf : f.Unbroken) :
    ∃ r', readLines python r ((fieldLines (key, f)).flatMap cut) = .ok r' ∧
      r'.data.lookup key = some f.value ∧
      ∀ other ≠ key, r'.data.lookup other = r.data.lookup other := by
  rw [cut_fieldLines hkey hf]
  cases f with
  | scalar value =>
    have hraw : stripWhere isSpace (' ' :: frontmatterScalar value) ≠ [] := by
      rw [stripWhere_space, strip_frontmatterScalar]
      exact frontmatterScalar_ne_nil value
    have hparse : parseFrontmatterScalar (F := F) (' ' :: frontmatterScalar value) =
        (Field.scalar value).value := by
      rw [← parseFrontmatterScalar_written]
      exact parseFrontmatterScalar_congr (stripWhere_space _)
    have hline := readLine_key python r hkey (' ' :: frontmatterScalar value)
    rw [if_neg hraw, hparse] at hline
    refine ⟨⟨Json.assign r.data key (Field.scalar value).value, none⟩, ?_,
      Json.lookup_assign_self _ _ _, fun other hother => Json.lookup_assign_of_ne _ _ hother⟩
    rw [fieldLines, readLines, List.foldlM_cons, hline]
    rfl
  | list items =>
    have hempty : stripWhere isSpace [] = [] := rfl
    have hline := readLine_key python r hkey []
    rw [if_pos hempty] at hline
    obtain ⟨r', hr', hlookup, hframe⟩ := readLines_items python
      (r := ⟨Json.assign r.data key (.arr []), some key⟩) rfl (Json.lookup_assign_self _ _ _)
      items
    refine ⟨r', ?_, hlookup, ?_⟩
    · rw [fieldLines, readLines, List.foldlM_cons, hline]
      exact hr'
    · intro other hother
      rw [hframe other hother]
      exact Json.lookup_assign_of_ne _ _ hother

theorem readLines_fields {data : List (String × Field)} (hkeys : ∀ f ∈ data, PlainKey f.1)
    (hnodup : (data.map Prod.fst).Nodup) (hdata : ∀ f ∈ data, f.2.Unbroken) :
    ∃ r', readLines python r ((data.flatMap fieldLines).flatMap cut) = .ok r' ∧
      (∀ f ∈ data, r'.data.lookup f.1 = some f.2.value) ∧
      ∀ other ∉ data.map Prod.fst, r'.data.lookup other = r.data.lookup other := by
  induction data generalizing r with
  | nil => exact ⟨r, rfl, by simp, fun _ _ => rfl⟩
  | cons f data ih =>
    rw [List.map_cons, List.nodup_cons] at hnodup
    obtain ⟨r₁, hr₁, hlookup₁, hframe₁⟩ := readLines_field python r
      (hkeys f List.mem_cons_self) (hdata f List.mem_cons_self)
    obtain ⟨r₂, hr₂, hlookup₂, hframe₂⟩ := ih r₁
      (fun g hg => hkeys g (List.mem_cons_of_mem f hg)) hnodup.2
      fun g hg => hdata g (List.mem_cons_of_mem f hg)
    refine ⟨r₂, ?_, ?_, ?_⟩
    · rw [List.flatMap_cons, List.flatMap_append, readLines, List.foldlM_append]
      show (readLines python r _ >>= _) = _
      rw [hr₁]
      exact hr₂
    · intro g hg
      rcases List.mem_cons.mp hg with rfl | hg
      · rw [hframe₂ _ hnodup.1, hlookup₁]
      · exact hlookup₂ g hg
    · intro other hother
      rw [List.map_cons, List.mem_cons, not_or] at hother
      rw [hframe₂ other hother.2, hframe₁ other hother.1]

end Reader

/-! ### The closing line -/

theorem untilMarker_append (h : ∀ line ∈ lines, stripWhere isSpace line ≠ marker)
    (rest : List (List Char)) :
    untilMarker (lines ++ marker :: rest) = some (lines, rest) := by
  induction lines with
  | nil => rfl
  | cons line lines ih =>
    rw [List.cons_append, untilMarker, if_neg (h line List.mem_cons_self),
      ih fun l hl => h l (List.mem_cons_of_mem line hl)]
    rfl

theorem mem_of_marker {line : List Char} (h : stripWhere isSpace line = marker) (hc : c ∈ line)
    (hspace : isSpace c = false) : c = '-' := by
  have hmem := mem_stripWhere hc hspace
  rw [h] at hmem
  simpa [marker] using hmem

theorem fieldLines_ne_marker (f : String × Field) :
    ∀ line ∈ fieldLines f, stripWhere isSpace line ≠ marker := by
  obtain ⟨key, f⟩ := f
  have hkeyed (raw : List Char) : stripWhere isSpace (key.toList ++ ':' :: raw) ≠ marker :=
    fun h => absurd (mem_of_marker h (c := ':') (by simp) (by decide)) (by decide)
  intro line hline
  cases f with
  | scalar value =>
    obtain rfl := List.mem_singleton.mp hline
    exact hkeyed _
  | list items =>
    rcases List.mem_cons.mp hline with rfl | hline
    · exact hkeyed []
    · obtain ⟨item, -, rfl⟩ := List.mem_map.mp hline
      intro h
      exact absurd (mem_of_marker h (c := '"') (by simp [frontmatterScalar, Json.quote])
        (by decide)) (by decide)

/-! ### Line ends in text mode -/

theorem universalNewlines_append {s : List Char} (hs : '\r' ∉ s) (t : List Char) :
    universalNewlines (s ++ t) = s ++ universalNewlines t := by
  induction s with
  | nil => rfl
  | cons c s ih =>
    rw [List.mem_cons, not_or] at hs
    rw [List.cons_append, List.cons_append, universalNewlines.eq_3, ih hs.2]
    · rintro rest rfl
      exact absurd rfl hs.1
    · rintro rfl
      exact absurd rfl hs.1

theorem universalNewlines_concat {t : List Char} (hc : c ≠ '\r')
    (h : c = '\n' → t.getLast? ≠ some '\r') :
    universalNewlines (t ++ [c]) = universalNewlines t ++ [c] := by
  induction t using universalNewlines.induct with
  | case1 rest ih =>
    have hrest : c = '\n' → rest.getLast? ≠ some '\r' := by
      intro heq
      cases rest with
      | nil => simp
      | cons d rest => simpa using h heq
    show '\n' :: universalNewlines (rest ++ [c]) = _
    rw [ih hrest]
    rfl
  | case2 rest hne ih =>
    cases rest with
    | nil =>
      have hne : ∀ rest', [c] = '\n' :: rest' → False := fun _ heq =>
        h (List.cons.inj heq).1 rfl
      have hsingle := universalNewlines_append (s := [c]) (by simpa using hc.symm) []
      show universalNewlines ('\r' :: [c]) = _
      rw [universalNewlines.eq_2 _ hne]
      rw [List.append_nil] at hsingle
      rw [hsingle]
      rfl
    | cons d rest =>
      have hd : d ≠ '\n' := by
        rintro rfl
        exact hne rest rfl
      have hstep (s : List Char) :
          universalNewlines ('\r' :: d :: s) = '\n' :: universalNewlines (d :: s) :=
        universalNewlines.eq_2 _ fun _ heq => hd (List.cons.inj heq).1
      rw [List.cons_append, List.cons_append, hstep, hstep, ← List.cons_append,
        ih fun heq => by simpa using h heq]
      rfl
  | case3 d rest h₁ h₂ ih =>
    have hd : '\r' ≠ d := fun heq => h₂ heq.symm
    have hrest : c = '\n' → rest.getLast? ≠ some '\r' := by
      intro heq
      cases rest with
      | nil => simp
      | cons e rest => simpa using h heq
    have hstep := universalNewlines_append (s := [d]) (by simpa using hd)
    show universalNewlines ([d] ++ (rest ++ [c])) = universalNewlines ([d] ++ rest) ++ [c]
    rw [hstep, hstep, ih hrest]
    rfl
  | case4 =>
    have hsingle := universalNewlines_append (s := [c]) (by simpa using hc.symm) []
    rwa [List.append_nil] at hsingle

theorem no_return_universalNewlines : '\r' ∉ universalNewlines t := by
  induction t using universalNewlines.induct with
  | case1 rest ih =>
    show '\r' ∉ '\n' :: universalNewlines rest
    simpa using ih
  | case2 rest hne ih =>
    rw [universalNewlines.eq_2 _ hne]
    simpa using ih
  | case3 c rest h₁ h₂ ih =>
    rw [universalNewlines.eq_3 _ _ h₁ h₂, List.mem_cons, not_or]
    exact ⟨fun heq => h₂ heq.symm, ih⟩
  | case4 => exact List.not_mem_nil

/-! ### The whole text -/

theorem getLast_rstrip : (rstrip t).getLast? ≠ some '\r' := by
  intro h
  have hne : rstrip t ≠ [] := by
    intro hnil
    rw [hnil] at h
    cases h
  rw [List.getLast?_eq_some_getLast hne] at h
  have hlast := List.rdropWhile_last_not isSpace t hne
  have hchar : (t.rdropWhile isSpace).getLast hne = '\r' := Option.some.inj h
  rw [hchar] at hlast
  exact hlast (by decide)

theorem rstrip_rstrip : rstrip (rstrip t) = rstrip t :=
  List.rdropWhile_idempotent isSpace t

theorem no_return_fieldLines {f : String × Field} (hkey : PlainKey f.1) :
    ∀ line ∈ fieldLines f, '\r' ∉ line := by
  obtain ⟨key, f⟩ := f
  have hscalar (value : Option String) : '\r' ∉ frontmatterScalar value := by
    cases value with
    | none => decide
    | some s => exact no_return_quote s
  have hkey' : '\r' ∉ key.toList := fun h => absurd (hkey.chars _ h).2.2 (by decide)
  intro line hline
  cases f with
  | scalar value =>
    obtain rfl := List.mem_singleton.mp hline
    simp [hkey', hscalar value]
  | list items =>
    rcases List.mem_cons.mp hline with rfl | hline
    · simp [hkey']
    · obtain ⟨item, -, rfl⟩ := List.mem_map.mp hline
      simp [bullet, hscalar (some item)]

theorem mem_joinLines (h : c ∈ joinLines lines) : c = '\n' ∨ ∃ line ∈ lines, c ∈ line := by
  induction lines with
  | nil => cases h
  | cons line lines ih =>
    cases lines with
    | nil =>
      rw [joinLines, List.intercalate_singleton] at h
      exact .inr ⟨line, List.mem_singleton_self line, h⟩
    | cons next more =>
      rw [joinLines, List.intercalate_cons_cons, List.mem_append, List.mem_append] at h
      rcases h with (h | h) | h
      · exact .inr ⟨line, List.mem_cons_self, h⟩
      · exact .inl (List.mem_singleton.mp h)
      · rcases ih h with h | ⟨l, hl, h⟩
        · exact .inl h
        · exact .inr ⟨l, List.mem_cons_of_mem line hl, h⟩

theorem splitlines_markdown {e : KnowledgeEntry}
    (hkeys : ∀ f ∈ e.toFrontmatterPayload, PlainKey f.1) :
    splitlines (universalNewlines e.toMarkdown) =
      marker :: ((e.toFrontmatterPayload.flatMap fieldLines).flatMap cut ++
        marker :: cut (universalNewlines (rstrip e.body))) := by
  let lines := marker :: e.toFrontmatterPayload.flatMap fieldLines ++ [marker]
  have hreturn : '\r' ∉ joinLines lines := by
    intro h
    rcases mem_joinLines h with h | ⟨line, hline, hc⟩
    · exact absurd h (by decide)
    · simp only [lines, List.cons_append, List.mem_cons, List.mem_append, List.mem_flatMap,
        List.not_mem_nil, or_false] at hline
      rcases hline with rfl | ⟨f, hf, hline⟩ | rfl
      · exact absurd hc (by decide)
      · exact no_return_fieldLines (hkeys f hf) line hline hc
      · exact absurd hc (by decide)
  have hread : universalNewlines e.toMarkdown =
      (joinLines lines ++ '\n' :: universalNewlines (rstrip e.body)) ++ ['\n'] := by
    have hfront : '\r' ∉ joinLines lines ++ ['\n'] := by simpa using hreturn
    have hbody := universalNewlines_concat (c := '\n') (by decide) fun _ => getLast_rstrip e.body
    have htext : e.toMarkdown = (joinLines lines ++ ['\n']) ++ (rstrip e.body ++ ['\n']) := by
      simp [KnowledgeEntry.toMarkdown, serializeFrontmatter, lines]
    rw [htext, universalNewlines_append hfront, hbody]
    simp
  have hreturns : '\r' ∉ joinLines lines ++ '\n' :: universalNewlines (rstrip e.body) := by
    have hnone := no_return_universalNewlines (rstrip e.body)
    simp [hreturn, hnone]
  have hcut : (joinLines lines ++ '\n' :: universalNewlines (rstrip e.body)).splitOnP isLineBreak =
      lines.flatMap cut ++ cut (universalNewlines (rstrip e.body)) :=
    splitOnP_intercalate (List.cons_ne_nil _ _) _
  have hmarker : cut marker = [marker] := rfl
  rw [hread, splitlines_concat hreturns, hcut]
  simp [lines, hmarker]

/-- The body as it comes back. -/
def readBody (body : List Char) : List Char :=
  flattenBreaks (universalNewlines (rstrip body)) ++ ['\n']

theorem rstrip_eq_nil_or_concat :
    rstrip t = [] ∨ ∃ s c, rstrip t = s ++ [c] ∧ isSpace c = false := by
  rcases List.eq_nil_or_concat (rstrip t) with h | ⟨s, c, h⟩
  · exact .inl h
  · rw [List.concat_eq_append] at h
    refine .inr ⟨s, c, h, ?_⟩
    have hne : rstrip t ≠ [] := by simp [h]
    have hlast := List.rdropWhile_last_not isSpace t hne
    have hchar : (rstrip t).getLast hne = c := by simp [h]
    have hnot : ¬ isSpace ((rstrip t).getLast hne) = true := hlast
    rw [hchar] at hnot
    simpa using hnot

theorem rstrip_joinLines (body : List Char) :
    rstrip (joinLines (cut (universalNewlines (rstrip body)))) ++ ['\n'] = readBody body := by
  have hjoin : joinLines (cut (universalNewlines (rstrip body))) =
      flattenBreaks (universalNewlines (rstrip body)) := intercalate_splitOnP _
  unfold readBody
  rw [hjoin]
  rcases rstrip_eq_nil_or_concat body with h | ⟨s, c, h, hc⟩
  · rw [h]
    rfl
  · have hne (d : Char) (hd : isSpace d = true) : c ≠ d := by
      rintro rfl
      rw [hd] at hc
      cases hc
    have hbreak : ¬ isLineBreak c = true := fun hbreak => by
      rw [isSpace_of_isLineBreak hbreak] at hc
      cases hc
    have hflat : flattenBreaks (universalNewlines s ++ [c]) =
        flattenBreaks (universalNewlines s) ++ [c] := by
      simp [flattenBreaks, hbreak]
    rw [h, universalNewlines_concat (hne _ (by decide)) fun heq => absurd heq (hne _ (by decide)),
      hflat]
    unfold rstrip
    rw [List.rdropWhile_concat_neg _ _ _ (by simp [hc])]

/-- **A body that ends in one newline is kept if it has no other line ends than `\n`.** -/
theorem readBody_eq_iff {body t : List Char} (hbody : body = rstrip t ++ ['\n']) :
    readBody body = body ↔ ∀ c ∈ body, isLineBreak c = true → c = '\n' := by
  have hstrip : rstrip body = rstrip t := by
    rw [hbody]
    unfold rstrip
    rw [List.rdropWhile_concat_pos _ _ _ (by decide), List.rdropWhile_idempotent]
  have hiff : readBody body = body ↔ flattenBreaks (universalNewlines (rstrip t)) = rstrip t := by
    unfold readBody
    rw [hstrip]
    conv_lhs => rhs; rw [hbody]
    exact List.append_left_inj _
  rw [hiff, hbody]
  constructor
  · intro h c hc hbreak
    rcases List.mem_append.mp hc with hc | hc
    · rw [← h] at hc
      obtain ⟨d, -, rfl⟩ := List.mem_map.mp hc
      by_cases hd : isLineBreak d = true
      · rw [if_pos hd]
      · rw [if_neg hd] at hbreak
        exact absurd hbreak hd
    · exact List.mem_singleton.mp hc
  · intro h
    have hplain : ∀ c ∈ rstrip t, isLineBreak c = true → c = '\n' := fun c hc =>
      h c (List.mem_append_left _ hc)
    have hreturn : '\r' ∉ rstrip t := fun hmem =>
      absurd (hplain _ hmem (by decide)) (by decide)
    have hself := universalNewlines_append hreturn []
    rw [List.append_nil] at hself
    rw [hself, universalNewlines, List.append_nil]
    exact (flattenBreaks_eq_iff _).mpr hplain

end AlysisCode.Knowledge
