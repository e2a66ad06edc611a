/-
Which knowledge entries survive their file.

An entry is read back, trimmed, exactly if no string of its frontmatter holds one of the line
ends that are written unescaped, its body has no line end but `\n`, and its status is one that
the reader leaves alone.
-/
import AlysisCode.Knowledge.Broken

namespace AlysisCode.Knowledge

open Text

variable {F P : Type}

/-- What an entry has to be like to survive. -/
structure KnowledgeEntry.Survivable (e : KnowledgeEntry) : Prop where
  frontmatter : ∀ f ∈ e.toFrontmatterPayload, f.2.Unbroken
  body : ∀ c ∈ e.body, isLineBreak c = true → c = '\n'
  status : e.KeepsStatus

/-! ### What an entry says of the dict it was made of -/

/-- What `from_markdown` leaves of a value. -/
def Reads (python : Python F) (v : Json F) : Field → Prop
  | .scalar value => colons (value.getD "").toList ≤ colonCount v
  | .list items => strippedItems python v = .ok items

section Reads

variable {python : Python F} (hpython : ShowsColons python)
include hpython

theorem colons_text_orElse (v : Json F) :
    colons (python.text (python.orElse v (.str ""))).toList ≤ colonCount v := by
  unfold Python.orElse
  split
  · exact hpython.text v
  · exact Nat.zero_le _

theorem colons_strippedText (v : Json F) :
    colons (strippedText python v).toList ≤ colonCount v := by
  have hlist (s : String) : (strip s).toList = stripWhere isSpace s.toList := String.toList_ofList
  unfold strippedText
  rw [hlist, colons_strip]
  exact colons_text_orElse hpython v

theorem colons_optionalText (v : Json F) :
    colons ((optionalText python v).getD "").toList ≤ colonCount v := by
  unfold optionalText stripped
  split
  · exact Nat.zero_le _
  · exact colons_strippedText hpython v

end Reads

theorem normalizeStatus_cases (kind : KnowledgeEntryKind) (status : String)
    (result : Option String) :
    normalizeTaskAttemptStatus kind (strip status) result = strip status ∨
      normalizeTaskAttemptStatus kind (strip status) result ∈ ["accepted", "rejected"] := by
  unfold normalizeTaskAttemptStatus
  rw [strip_strip]
  dsimp only
  split_ifs
  · exact .inl rfl
  · exact .inl rfl
  · exact .inr List.mem_cons_self
  · exact .inr (List.mem_cons_of_mem _ List.mem_cons_self)
  · exact .inr List.mem_cons_self
  · exact .inr (List.mem_cons_of_mem _ List.mem_cons_self)
  · exact .inl rfl

theorem normalizeResult_cases (kind : KnowledgeEntryKind) (result : Option String)
    (status : String) :
    normalizeTaskAttemptResult kind result status = result ∨
      normalizeTaskAttemptResult kind result status ∈
        [none, some (strip (result.getD "")), some "success", some "failure"] := by
  unfold normalizeTaskAttemptResult
  dsimp only
  split_ifs with hkind htext hlegacy
  · exact .inl rfl
  · right
    simp
  · right
    have hmem : strip status = "success" ∨ strip status = "failure" := by simpa using hlegacy
    rcases hmem with hword | hword
    · simp [hword]
    · simp [hword]
  · right
    simp

section Reads

variable {python : Python F} (hpython : ShowsColons python)
include hpython

theorem colons_status (v : Json F) (kind : KnowledgeEntryKind) (result : Option String) :
    colons (normalizeTaskAttemptStatus kind (strippedText python v) result).toList ≤
      colonCount v := by
  have hwords : ∀ word ∈ ["accepted", "rejected"], colons word.toList = 0 := by decide
  rcases normalizeStatus_cases kind (python.text (python.orElse v (.str ""))) result with h | h
  · show colons (normalizeTaskAttemptStatus kind (strip _) result).toList ≤ _
    rw [h]
    exact colons_strippedText hpython v
  · show colons (normalizeTaskAttemptStatus kind (strip _) result).toList ≤ _
    rw [hwords _ h]
    exact Nat.zero_le _

theorem colons_result (v : Json F) (kind : KnowledgeEntryKind) (status : String) :
    colons ((normalizeTaskAttemptResult kind (optionalText python v) status).getD "").toList ≤
      colonCount v := by
  have hwords : ∀ word ∈ [none, some "success", some "failure"],
      colons (Option.getD word "").toList = 0 := by decide
  have hread := colons_optionalText hpython v
  rcases normalizeResult_cases kind (optionalText python v) status with h | h
  · rw [h]
    exact hread
  · generalize normalizeTaskAttemptResult kind (optionalText python v) status = result at h ⊢
    simp only [List.mem_cons, List.not_mem_nil, or_false] at h
    rcases h with rfl | rfl | rfl | rfl
    · exact Nat.zero_le _
    · show colons (strip _).toList ≤ _
      have hlist (s : String) : (strip s).toList = stripWhere isSpace s.toList :=
        String.toList_ofList
      rw [hlist, colons_strip]
      exact hread
    · rw [hwords _ (by simp)]
      exact Nat.zero_le _
    · rw [hwords _ (by simp)]
      exact Nat.zero_le _

theorem colons_strippedItems {v : Json F} {items : List String}
    (h : strippedItems python v = .ok items) :
    (items.map fun s => colons s.toList).sum ≤ colonCount v := by
  obtain ⟨read, hread, hitems⟩ := Runs.bind_eq_ok.mp h
  obtain rfl := Except.ok.inj hitems
  have hkept : ((((read.map fun item => strip (python.text item)).filter (· != "")).map
      fun s => colons s.toList)).sum ≤ (read.map colonCount).sum := by
    clear hread h hitems
    induction read with
    | nil => exact Nat.le_refl 0
    | cons item read ih =>
      have hlist : (strip (python.text item)).toList =
          stripWhere isSpace (python.text item).toList := String.toList_ofList
      have hitem := hpython.text item
      have hstrip := colons_strip (python.text item).toList
      rw [List.map_cons, List.map_cons, List.sum_cons, List.filter_cons]
      split
      · rw [List.map_cons, List.sum_cons, hlist, hstrip]
        omega
      · omega
  refine Nat.le_trans hkept ?_
  unfold Python.orElse at hread
  split at hread
  · cases v with
    | arr items =>
      cases hread
      rw [colonCount_arr]
    | str s =>
      cases hread
      have hchars (t : List Char) : ((t.map fun c => (Json.str (String.ofList [c]) : Json F)).map
          colonCount).sum = colons t := by
        induction t with
        | nil => rfl
        | cons c t ih =>
          rw [List.map_cons, List.map_cons, List.sum_cons, ih]
          show colons (String.ofList [c]).toList + colons t = colons ([c] ++ t)
          rw [String.toList_ofList]
          exact List.count_append.symm
      rw [hchars]
      exact Nat.le_refl _
    | obj members =>
      cases hread
      have hkeys (members : List (String × Json F)) :
          ((members.map fun m => (Json.str m.1 : Json F)).map colonCount).sum ≤
            membersColons members := by
        induction members with
        | nil => exact Nat.le_refl _
        | cons m members ih =>
          obtain ⟨key, v⟩ := m
          rw [List.map_cons, List.map_cons, List.sum_cons, membersColons]
          show colons key.toList + _ ≤ _
          omega
      exact hkeys members
    | null | bool b | int n | float x => cases hread
  · cases hread
    exact Nat.zero_le _

end Reads

/-! ### The entry that was read -/

variable [Json.Floats F] {python : Python F}

variable {e : KnowledgeEntry}

/-- **Every field of the entry is bounded by the value it was read from.** -/
theorem fromMarkdown_reads (hpython : ShowsColons python) {text : List Char}
    (h : fromMarkdown python text = .ok e) :
    ∃ data, parseFrontmatter python text = .ok (data, e.body) ∧
      ∀ f ∈ e.toFrontmatterPayload, Reads python (Json.get data f.1) f.2 := by
  unfold fromMarkdown at h
  obtain ⟨⟨data, body⟩, hparse, h⟩ := Runs.bind_eq_ok.mp h
  dsimp only at h
  split at h
  · cases h
  rename_i kind hkind
  simp only [Runs.bind_eq_ok] at h
  obtain ⟨paths, hpaths, related, hrelated, tags, htags, resolves, hresolves, h⟩ := h
  cases h
  refine ⟨data, hparse, ?_⟩
  have htext := colons_strippedText hpython
  have hoptional := colons_optionalText hpython
  have hkindText : colons kind.text.toList ≤ colonCount (Json.get data "kind") := by
    have hnone : colons kind.text.toList = 0 := by
      cases kind with
      | taskAttempt | issue | fact | decision => decide
    omega
  simp only [KnowledgeEntry.toFrontmatterPayload, List.forall_mem_cons]
  exact ⟨hkindText, htext _, htext _, htext _, htext _, htext _, colons_status hpython _ _ _,
    colons_result hpython _ _ _, hpaths, hrelated, htags, hoptional _, hoptional _, hoptional _,
    hoptional _, hoptional _, hoptional _, hoptional _, hresolves, hoptional _, by simp⟩

def Trims : Field → Field → Prop
  | .scalar value, .scalar trimmed =>
    colons (trimmed.getD "").toList = colons (value.getD "").toList
  | .list items, .list trimmed => trimmed = trimmedItems items
  | _, _ => False

theorem trims_text (s : String) : Trims (.scalar (some s)) (.scalar (some (strip s))) := by
  have hlist : (strip s).toList = stripWhere isSpace s.toList := String.toList_ofList
  show colons (strip s).toList = colons s.toList
  rw [hlist, colons_strip]

theorem trims_optional (value : Option String) :
    Trims (.scalar value) (.scalar (value.bind stripped)) := by
  cases value with
  | none => exact rfl
  | some s =>
    have hstrip := trims_text s
    show colons ((stripped s).getD "").toList = colons s.toList
    unfold stripped
    split
    · rename_i hempty
      have hzero : colons (strip s).toList = colons s.toList := hstrip
      rwa [hempty] at hzero
    · exact hstrip

theorem trimmed_fields (e : KnowledgeEntry) :
    ∀ f ∈ e.toFrontmatterPayload, ∃ f', (f.1, f') ∈ e.trimmed.toFrontmatterPayload ∧
      Trims f.2 f' := by
  have htext := trims_text
  have hoptional := trims_optional
  have hlist (items : List String) : Trims (.list items) (.list (trimmedItems items)) := rfl
  intro f hf
  simp only [KnowledgeEntry.toFrontmatterPayload, List.mem_cons, List.not_mem_nil, or_false] at hf
  rcases hf with rfl | rfl | rfl | rfl | rfl | rfl | rfl | rfl | rfl | rfl | rfl | rfl | rfl | rfl |
    rfl | rfl | rfl | rfl | rfl | rfl
  · exact ⟨.scalar (some e.kind.text), by
      simp [KnowledgeEntry.toFrontmatterPayload, KnowledgeEntry.trimmed], rfl⟩
  all_goals first
    | exact ⟨_, by simp [KnowledgeEntry.toFrontmatterPayload, KnowledgeEntry.trimmed], htext _⟩
    | exact ⟨_, by simp [KnowledgeEntry.toFrontmatterPayload, KnowledgeEntry.trimmed], hoptional _⟩
    | exact ⟨_, by simp [KnowledgeEntry.toFrontmatterPayload, KnowledgeEntry.trimmed], hlist _⟩

theorem colons_trimmedItems (items : List String) :
    ((trimmedItems items).map fun s => colons s.toList).sum =
      (items.map fun s => colons s.toList).sum := by
  unfold trimmedItems
  induction items with
  | nil => rfl
  | cons s items ih =>
    have hlist : (strip s).toList = stripWhere isSpace s.toList := String.toList_ofList
    have hstrip : colons (strip s).toList = colons s.toList := by rw [hlist, colons_strip]
    rw [List.map_cons, List.filter_cons, List.map_cons, List.sum_cons, ← ih, ← hstrip]
    split
    · rw [List.map_cons, List.sum_cons]
    · rename_i hempty
      have hs : strip s = "" := by simpa using hempty
      rw [hs]
      exact (Nat.zero_add _).symm

/-- **No broken field is read back.** -/
theorem not_trims_of_broken (hpython : ShowsColons python) {key : String} (hkey : PlainKey key)
    {f f' : Field} (hbroken : ¬ f.Unbroken) (htrims : Trims f f') {r r' : Reading F}
    (h : readLines python r ((fieldLines (key, f)).flatMap cut) = .ok r') :
    ¬ Reads python (Json.get r'.data key) f' := by
  intro hreads
  cases f with
  | scalar value =>
    cases value with
    | none => exact hbroken fun s hs => absurd hs List.not_mem_nil
    | some s =>
      cases f' with
      | list items => exact htrims
      | scalar trimmed =>
        have hs : Broken s := by
          by_contra hs
          refine hbroken fun t ht c hc => ?_
          obtain rfl := List.mem_singleton.mp ht
          by_contra hwide
          exact hs ⟨c, hc, by simpa using hwide⟩
        have hlt := readLines_broken_scalar hpython hkey hs h
        have heq : colons (trimmed.getD "").toList = colons s.toList := htrims
        have hle : colons (trimmed.getD "").toList ≤ colonCount (Json.get r'.data key) := hreads
        omega
  | list items =>
    cases f' with
    | scalar trimmed => exact htrims
    | list trimmed =>
      have hs : ∃ s ∈ items, Broken s := by
        by_contra hs
        refine hbroken fun s hmem c hc => ?_
        by_contra hwide
        exact hs ⟨s, hmem, c, hc, by simpa using hwide⟩
      have heq : trimmed = trimmedItems items := htrims
      have hitems : strippedItems python (Json.get r'.data key) = .ok (trimmedItems items) :=
        heq ▸ hreads
      rcases readLines_broken_list hpython hkey hs h with hlt | ⟨read, hget, hlt⟩
      · have hle := colons_strippedItems hpython hitems
        have hsum := colons_trimmedItems items
        omega
      · have hread : strippedItems python (.arr read) =
            .ok ((read.map fun item => strip (python.text item)).filter (· != "")) := by
          cases read with
          | nil | cons item read => rfl
        rw [hget, hread] at hitems
        have hlength := congrArg List.length (Except.ok.inj hitems)
        rw [trimmedItems, ← List.countP_eq_length_filter, ← List.countP_eq_length_filter,
          List.countP_map, List.countP_map] at hlength
        exact absurd hlength (Nat.ne_of_gt hlt)

/-! ### The closing line is the writer's -/

theorem untilMarker_cases {lines rest : List (List Char)}
    {found : List (List Char) × List (List Char)}
    (h : untilMarker (lines ++ marker :: rest) = some found) :
    found = (lines, rest) ∨ ∃ between, found.2 = between ++ marker :: rest := by
  induction lines generalizing found with
  | nil =>
    left
    exact (Option.some.inj h).symm
  | cons line lines ih =>
    rw [List.cons_append, untilMarker] at h
    split at h
    · right
      exact ⟨lines, by rw [← Option.some.inj h]⟩
    · obtain ⟨found', hfound, rfl⟩ := Option.map_eq_some_iff.mp h
      rcases ih hfound with rfl | ⟨between, hbetween⟩
      · exact .inl rfl
      · exact .inr ⟨between, hbetween⟩

theorem count_joinLines {d : Char} (hd : isSpace d = false) (lines : List (List Char)) :
    (joinLines lines).count d = (lines.map (List.count d)).sum := by
  have hne : ('\n' == d) = false := by
    rw [beq_eq_false_iff_ne]
    rintro rfl
    exact absurd hd (by decide)
  induction lines with
  | nil => rfl
  | cons line lines ih =>
    cases lines with
    | nil => rw [joinLines, List.intercalate_singleton, List.map_singleton, List.sum_singleton]
    | cons next more =>
      have hjoin : joinLines (line :: next :: more) = line ++ '\n' :: joinLines (next :: more) := by
        simp [joinLines, List.intercalate_cons_cons]
      rw [hjoin, List.count_append, List.count_cons, hne, ih, List.map_cons, List.sum_cons]
      rfl

theorem count_universalNewlines {d : Char} (hd : isSpace d = false) (t : List Char) :
    (universalNewlines t).count d = t.count d := by
  have hne (c : Char) (hc : isSpace c = true) : (c == d) = false := by
    rw [beq_eq_false_iff_ne]
    rintro rfl
    rw [hc] at hd
    cases hd
  have hcr := hne '\r' (by decide)
  have hlf := hne '\n' (by decide)
  induction t using universalNewlines.induct with
  | case1 rest ih =>
    show ('\n' :: universalNewlines rest).count d = _
    simp [List.count_cons, hcr, hlf, ih]
  | case2 rest h ih =>
    rw [universalNewlines.eq_2 _ h]
    simp [List.count_cons, hcr, hlf, ih]
  | case3 c rest h₁ h₂ ih =>
    rw [universalNewlines.eq_3 _ _ h₁ h₂, List.count_cons, List.count_cons, ih]
  | case4 => rfl

theorem body_ne_of_marker {body : List Char} {between : List (List Char)} :
    rstrip (joinLines (between ++ marker :: cut (universalNewlines (rstrip body)))) ++ ['\n'] ≠
      body := by
  intro h
  have hspace : isSpace '-' = false := by decide
  have hcount := congrArg (List.count '-') h
  have hmarker : marker.count '-' = 3 := by decide
  have hend : ['\n'].count '-' = 0 := by decide
  rw [List.count_append, count_rstrip hspace, count_joinLines hspace, List.map_append,
    List.sum_append, List.map_cons, List.sum_cons, sum_count_cut hspace,
    count_universalNewlines hspace, count_rstrip hspace, hmarker, hend] at hcount
  omega

/-! ### Which entries survive -/

theorem exists_last {α : Type*} {p : α → Prop} {items : List α} (h : ∃ a ∈ items, ¬ p a) :
    ∃ pre a post, items = pre ++ a :: post ∧ ¬ p a ∧ ∀ b ∈ post, p b := by
  induction items with
  | nil =>
    obtain ⟨a, ha, -⟩ := h
    cases ha
  | cons b items ih =>
    by_cases hrest : ∃ a ∈ items, ¬ p a
    · obtain ⟨pre, a, post, rfl, ha, hpost⟩ := ih hrest
      exact ⟨b :: pre, a, post, rfl, ha, hpost⟩
    · have hall : ∀ a ∈ items, p a := by simpa using hrest
      obtain ⟨a, ha, hpa⟩ := h
      rcases List.mem_cons.mp ha with rfl | ha
      · exact ⟨[], a, items, rfl, hpa, hall⟩
      · exact absurd (hall a ha) hpa

/-- **An entry that is read back has an unbroken frontmatter.** -/
theorem unbroken_of_loadPublished (hpython : ShowsColons python)
    (h : loadPublished python e = .ok e.trimmed) :
    ∀ f ∈ e.toFrontmatterPayload, f.2.Unbroken := by
  by_contra hbroken
  have hkeys := plainKey_payload e
  have hnodup := nodup_payload e
  obtain ⟨data, hparse, hreads⟩ := fromMarkdown_reads hpython h
  obtain ⟨pre, f, post, hpayload, hf, hpost⟩ :=
    exists_last (p := fun f : String × Field => f.2.Unbroken) (by simpa using hbroken)
  unfold parseFrontmatter at hparse
  rw [splitlines_markdown hkeys] at hparse
  dsimp only at hparse
  have hstrip : stripWhere isSpace marker = marker := by decide
  rw [if_neg (not_not_intro hstrip)] at hparse
  split at hparse
  · cases hparse
  rename_i lines bodyLines hfound
  obtain ⟨r, hr, hdata⟩ := Runs.bind_eq_ok.mp hparse
  obtain ⟨rfl, hbody⟩ := Prod.mk.inj (Except.ok.inj hdata)
  rcases untilMarker_cases hfound with heq | ⟨between, hbetween⟩
  · -- the frontmatter ends where it should: its last broken field is not read back
    obtain ⟨rfl, -⟩ := Prod.mk.inj heq
    rw [List.flatMap_assoc, hpayload, List.flatMap_append, List.flatMap_cons,
      List.foldlM_append] at hr
    obtain ⟨r₀, -, hr⟩ := Runs.bind_eq_ok.mp hr
    rw [List.foldlM_append] at hr
    obtain ⟨r₁, hfield, hr⟩ := Runs.bind_eq_ok.mp hr
    rw [hpayload, List.map_append, List.map_cons] at hnodup
    have hnodupCons := (List.nodup_append.mp hnodup).2.1
    have hmem (g : String × Field) (hg : g ∈ f :: post) : g ∈ e.toFrontmatterPayload := by
      rw [hpayload]
      exact List.mem_append_right _ hg
    obtain ⟨r₂, hr₂, -, hframe⟩ := readLines_fields python r₁
      (fun g hg => hkeys g (hmem g (List.mem_cons_of_mem f hg))) (List.nodup_cons.mp hnodupCons).2
      hpost
    rw [List.flatMap_assoc] at hr₂
    obtain rfl : r₂ = r := Except.ok.inj (hr₂.symm.trans hr)
    have hget : Json.get r₂.data f.1 = Json.get r₁.data f.1 := by
      unfold Json.get
      rw [hframe f.1 (List.nodup_cons.mp hnodupCons).1]
    obtain ⟨f', hf', htrims⟩ := trimmed_fields e f (hmem f List.mem_cons_self)
    have hread := hreads _ hf'
    rw [hget] at hread
    exact not_trims_of_broken hpython (hkeys f (hmem f List.mem_cons_self)) hf htrims hfield hread
  · -- a piece was taken for the closing line: the body is too long
    dsimp only at hbetween
    rw [hbetween] at hbody
    exact body_ne_of_marker hbody

/-- **Which entries survive their file**: those with no wide line end in the frontmatter, no line
end but `\n` in the body and a status that the reader keeps, and no others. -/
theorem loadPublished_iff (hpython : ShowsColons python) {t : List Char}
    (hbody : e.body = rstrip t ++ ['\n']) :
    loadPublished python e = .ok e.trimmed ↔ e.Survivable := by
  constructor
  · intro h
    have hunbroken := unbroken_of_loadPublished hpython h
    rw [loadPublished_of_unbroken python hunbroken] at h
    have heq := Except.ok.inj h
    have hread : readBody e.body = e.body := congrArg KnowledgeEntry.body heq
    exact ⟨hunbroken, (readBody_eq_iff hbody).mp hread, (keepsStatus_iff e).mp
      ⟨congrArg KnowledgeEntry.status heq, congrArg KnowledgeEntry.result heq⟩⟩
  · intro h
    obtain ⟨hstatus, hresult⟩ := (keepsStatus_iff e).mpr h.status
    have hread := (readBody_eq_iff hbody).mpr h.body
    rw [loadPublished_of_unbroken python h.frontmatter, KnowledgeEntry.asRead, hstatus, hresult,
      hread]
    rfl

/-- **So for every entry that one of the writers builds.** -/
theorem published_survives_iff (hpython : ShowsColons python) (host : Host P) (draft : Draft P) :
    loadPublished python (draft.entry host) = .ok (draft.entry host).trimmed ↔
      (draft.entry host).Survivable := by
  obtain ⟨t, ht⟩ := body_entry host draft
  exact loadPublished_iff hpython ht

/-! ### Two entries -/

/-- `str` of the constants; no other value of the examples is shown. -/
def constantsPython : Python Unit where
  str
    | .null => "None"
    | .bool true => "True"
    | .bool false => "False"
    | _ => ""
  isZero _ := false

theorem showsColons_constants : ShowsColons constantsPython := by
  intro v
  cases v with
  | bool b => cases b <;> exact Nat.zero_le _
  | null | int n | float x | str s | arr items | obj members => exact Nat.zero_le _

def exampleHost : Host Unit := ⟨"2026-01-02T03:04:05+00:00", "0123abcd", fun _ => "report.md"⟩

def taggedIssue (title tag : String) : Draft Unit :=
  .issue {
    taskId := "T1", source := "worker", title := title, summary := "", artifacts := {}
    tags := [tag] }

/-- A title and a tag that look like frontmatter survive. -/
theorem published_survives_lookalike :
    loadPublished constantsPython ((taggedIssue "---: x" "- a: \"b\"").entry exampleHost) =
      .ok ((taggedIssue "---: x" "- a: \"b\"").entry exampleHost).trimmed := by
  refine (published_survives_iff showsColons_constants exampleHost _).mpr ⟨?_, ?_, ?_⟩
  · decide +kernel
  · decide +kernel
  · intro h
    cases h

/-- With U+2028 in its title, what follows is read as a line without a key. -/
theorem published_lost :
    loadPublished constantsPython ((taggedIssue "A\u2028B" "t").entry exampleHost) =
      .error (.value "invalid knowledge frontmatter line: B\"") := by
  decide +kernel

end AlysisCode.Knowledge
