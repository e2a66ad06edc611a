/-
What is read of an entry whose frontmatter is unbroken.

It is the entry with its fields trimmed, except that the body has `\n` for every line end and
that a task attempt with one of the old status words is given the word in use now.
-/
import Mathlib.Algebra.Order.BigOperators.Group.List
import AlysisCode.Knowledge.ReadBack
import AlysisCode.Library.JsonQuotes

namespace AlysisCode.Knowledge

open Text

variable {F : Type}

/-! ### The keys of an entry -/

def payloadKeys : List String :=
  ["kind", "id", "title", "created_at", "task_id", "source", "status", "result", "paths",
    "related_tasks", "tags", "report_path", "patch_path", "verify_artifact_path",
    "budget_artifact_path", "session_artifact_dir", "signature", "decision_key", "resolves",
    "capture_artifact_path"]

variable (e : KnowledgeEntry)

theorem map_fst_payload : e.toFrontmatterPayload.map Prod.fst = payloadKeys := rfl

theorem plainKey_payload : ∀ f ∈ e.toFrontmatterPayload, PlainKey f.1 := by
  have hkeys : ∀ key ∈ payloadKeys, key.toList ≠ [] ∧
      ∀ c ∈ key.toList, isSpace c = false ∧ c ≠ ':' ∧ isLineBreak c = false := by
    decide +kernel
  intro f hf
  have hmem : f.1 ∈ payloadKeys := map_fst_payload e ▸ List.mem_map_of_mem hf
  exact ⟨(hkeys f.1 hmem).1, (hkeys f.1 hmem).2⟩

theorem nodup_payload : (e.toFrontmatterPayload.map Prod.fst).Nodup := by
  rw [map_fst_payload]
  decide

/-! ### What is made of the values -/

section Values

variable (python : Python F)

theorem text_orElse_str (s : String) : python.text (python.orElse (.str s) (.str "")) = s := by
  by_cases h : s = ""
  · subst h
    rfl
  · rw [python.orElse_str h]
    rfl

theorem strippedText_str (s : String) : strippedText python (.str s) = strip s := by
  rw [strippedText, text_orElse_str]

theorem optionalText_value (value : Option String) :
    optionalText python (Field.scalar value).value = value.bind stripped := by
  cases value with
  | none => rfl
  | some s =>
    show stripped _ = _
    rw [Field.value, text_orElse_str]
    rfl

theorem strippedItems_value (items : List String) :
    strippedItems python (Field.list items).value = .ok (trimmedItems items) := by
  have helse : python.orElse ((Field.list items).value) (.arr []) = (Field.list items).value := by
    cases items with
    | nil | cons item items => rfl
  have hmap : (items.map (Json.str (F := F))).map (fun item => strip (python.text item)) =
      items.map strip := by
    rw [List.map_map]
    rfl
  unfold strippedItems
  rw [helse]
  show Except.ok (((items.map (Json.str (F := F))).map fun item =>
    strip (python.text item)).filter (· != "")) = _
  rw [hmap]
  rfl

theorem ofText_strip_text (kind : KnowledgeEntryKind) :
    KnowledgeEntryKind.ofText (strip kind.text) = some kind := by
  cases kind with
  | taskAttempt | issue | fact | decision => decide +kernel

end Values

/-! ### The entry that is read -/

/-- The entry trimmed, with the status and the result of a task attempt brought up to date and
the body as it is read. -/
def KnowledgeEntry.asRead (body : List Char) : KnowledgeEntry :=
  { e.trimmed with
    status := normalizeTaskAttemptStatus e.kind (strip e.status) (e.result.bind stripped)
    result := normalizeTaskAttemptResult e.kind (e.result.bind stripped) (strip e.status)
    body := body }

variable [Json.Floats F] (python : Python F)

theorem fromMarkdown_of_parse {e : KnowledgeEntry} {text body : List Char}
    {data : List (String × Json F)} (hparse : parseFrontmatter python text = .ok (data, body))
    (hdata : ∀ f ∈ e.toFrontmatterPayload, data.lookup f.1 = some f.2.value) :
    fromMarkdown python text = .ok (e.asRead body) := by
  have hget : ∀ f ∈ e.toFrontmatterPayload, Json.get data f.1 = f.2.value := by
    intro f hf
    rw [Json.get, hdata f hf]
    rfl
  simp only [KnowledgeEntry.toFrontmatterPayload, List.forall_mem_cons] at hget
  obtain ⟨hkind, hid, htitle, hcreated, htask, hsource, hstatus, hresult, hpaths, hrelated, htags,
    hreport, hpatch, hverify, hbudget, hsession, hsignature, hdecision, hresolves, hcapture, -⟩ :=
    hget
  have hstr (s : String) : ((Field.scalar (some s)).value : Json F) = .str s := rfl
  unfold fromMarkdown
  rw [hparse]
  simp only [Runs.ok_bind, hkind, hid, htitle, hcreated, htask, hsource, hstatus, hresult, hpaths,
    hrelated, htags, hreport, hpatch, hverify, hbudget, hsession, hsignature, hdecision, hresolves,
    hcapture, hstr, strippedText_str, optionalText_value, strippedItems_value, ofText_strip_text]
  rfl

/-- **An unbroken entry is read as itself, trimmed and brought up to date.** -/
theorem loadPublished_of_unbroken {e : KnowledgeEntry}
    (h : ∀ f ∈ e.toFrontmatterPayload, f.2.Unbroken) :
    loadPublished python e = .ok (e.asRead (readBody e.body)) := by
  have hkeys := plainKey_payload e
  have hlines : (e.toFrontmatterPayload.flatMap fieldLines).flatMap cut =
      e.toFrontmatterPayload.flatMap fieldLines := by
    rw [List.flatMap_assoc]
    exact List.flatMap_congr fun f hf => cut_fieldLines (hkeys f hf) (h f hf)
  have hmarker : ∀ line ∈ (e.toFrontmatterPayload.flatMap fieldLines).flatMap cut,
      stripWhere isSpace line ≠ marker := by
    intro line hline
    rw [hlines] at hline
    obtain ⟨f, -, hf⟩ := List.mem_flatMap.mp hline
    exact fieldLines_ne_marker f line hf
  obtain ⟨r, hr, hdata, -⟩ := readLines_fields python ⟨[], none⟩ hkeys (nodup_payload e) h
  have hstrip : stripWhere isSpace marker = marker := by decide
  have hparse : parseFrontmatter python (universalNewlines e.toMarkdown) =
      .ok (r.data, readBody e.body) := by
    unfold parseFrontmatter
    rw [splitlines_markdown hkeys]
    dsimp only
    rw [if_neg (not_not_intro hstrip), untilMarker_append hmarker]
    show (readLines python ⟨[], none⟩ _ >>= _) = _
    rw [hr, Runs.ok_bind, rstrip_joinLines]
    rfl
  exact fromMarkdown_of_parse python hparse hdata

/-! ### Status words -/

/-- The reader leaves the status and the result of the entry alone: it is no task attempt, or
its status is a word in use, or neither its status nor its result is one of the old words. -/
def KnowledgeEntry.KeepsStatus : Prop :=
  e.kind = .taskAttempt → strip e.status ∈ ["accepted", "pending", "rejected"] ∨
      (strip e.status ∉ ["success", "failure"] ∧
        e.result.bind stripped ∉ [some "success", some "failure"])

theorem keepsStatus_iff :
    (normalizeTaskAttemptStatus e.kind (strip e.status) (e.result.bind stripped) = strip e.status ∧
      normalizeTaskAttemptResult e.kind (e.result.bind stripped) (strip e.status) =
        e.result.bind stripped) ↔ e.KeepsStatus := by
  have hresult : e.result.bind stripped = none ∨
      ∃ t, e.result.bind stripped = some t ∧ strip t = t ∧ t ≠ "" := by
    cases hr : e.result.bind stripped with
    | none => exact .inl rfl
    | some t =>
      obtain ⟨s, -, hs⟩ := Option.bind_eq_some_iff.mp hr
      have ht : strip s = t ∧ strip s ≠ "" := by
        unfold stripped at hs
        split at hs
        · cases hs
        · rename_i hne
          exact ⟨Option.some.inj hs, hne⟩
      refine .inr ⟨t, rfl, ?_, ?_⟩
      · rw [← ht.1, strip_strip]
      · rw [← ht.1]
        exact ht.2
  have hempty : strip "" = "" := by decide
  unfold KnowledgeEntry.KeepsStatus normalizeTaskAttemptStatus normalizeTaskAttemptResult
  by_cases hkind : e.kind = .taskAttempt
  · simp only [hkind, strip_strip, ne_eq, not_true_eq_false, if_false, true_implies]
    generalize strip e.status = s
    rcases hresult with hr | ⟨t, hr, hstrip, hne⟩
    · rw [hr]
      simp [hempty]
      grind
    · rw [hr]
      simp [hstrip, hne]
      grind
  · simp [hkind]

end AlysisCode.Knowledge

/-! ### Lines that were cut

What lines that were cut can put into the dict, counted in colons.

A piece of a broken field that the reader takes for a line of its own has to have a colon,
and that colon is lost: it separates a key from its value.  So no value grows by more colons
than the lines that were read have, and by one less for every line that is no item.
-/

namespace AlysisCode.Knowledge

open Text

variable {F : Type}

abbrev colons (t : List Char) : Nat := t.count ':'

mutual
/-- The colons that `str` of the value can have. -/
def colonCount : Json F → Nat
  | .str s => colons s.toList
  | .arr items => itemsColons items
  | .obj members => membersColons members
  | _ => 0
def itemsColons : List (Json F) → Nat
  | [] => 0
  | v :: rest => colonCount v + itemsColons rest
def membersColons : List (String × Json F) → Nat
  | [] => 0
  | (key, v) :: rest => colons key.toList + 1 + colonCount v + membersColons rest
end

theorem itemsColons_eq (items : List (Json F)) :
    itemsColons items = (items.map colonCount).sum := by
  induction items with
  | nil => rfl
  | cons v rest ih => rw [itemsColons, ih, List.map_cons, List.sum_cons]

theorem colonCount_arr (items : List (Json F)) :
    colonCount (.arr items) = (items.map colonCount).sum := itemsColons_eq items

theorem colonCount_of_stringless {v : Json F} (h : Json.Stringless v) : colonCount v = 0 := by
  induction h with
  | null | bool b | int n | float x => rfl
  | arr _ ih =>
    rw [colonCount_arr, List.sum_eq_zero_iff]
    intro n hn
    obtain ⟨v, hv, rfl⟩ := List.mem_map.mp hn
    exact ih v hv
  | empty => rfl

/-- `str` of a value that is no text shows no colon that is not between or inside its texts. -/
def ShowsColons (python : Python F) : Prop := ∀ v, colons (python.str v).toList ≤ colonCount v

theorem ShowsColons.text {python : Python F} (h : ShowsColons python) (v : Json F) :
    colons (python.text v).toList ≤ colonCount v := by
  cases v with
  | str s => exact Nat.le_refl _
  | null | bool b | int n | float x | arr items | obj members => exact h _

/-! ### Stripping and cutting keep the colons -/

variable {d : Char} (t : List Char)

theorem count_spaces (hd : isSpace d = false) {t : List Char} (h : ∀ c ∈ t, isSpace c = true) :
    t.count d = 0 := by
  rw [List.count_eq_zero]
  intro hmem
  rw [h d hmem] at hd
  cases hd

theorem count_strip (hd : isSpace d = false) (t : List Char) :
    (stripWhere isSpace t).count d = t.count d := by
  obtain ⟨a, b, heq, ha, hb⟩ := stripWhere_split isSpace t
  have hcount := congrArg (List.count d) heq
  rw [List.count_append, List.count_append, count_spaces hd ha, count_spaces hd hb] at hcount
  omega

theorem colons_strip : colons (stripWhere isSpace t) = colons t :=
  count_strip (by decide) t

theorem rstrip_split : ∃ b, t = rstrip t ++ b ∧ ∀ c ∈ b, isSpace c = true := by
  refine ⟨t.rtakeWhile isSpace, List.rdropWhile_append_rtakeWhile.symm, ?_⟩
  intro c hc
  exact List.mem_takeWhile_imp (List.mem_reverse.mp hc)

theorem count_rstrip (hd : isSpace d = false) (t : List Char) : (rstrip t).count d = t.count d := by
  rw [← count_strip hd (rstrip t), ← count_strip hd t]
  congr 1
  exact stripWhere_rdropWhile isSpace t

theorem colons_rstrip : colons (rstrip t) = colons t := count_rstrip (by decide) t

theorem exists_first {p : Char → Bool} {t : List Char} (h : ∃ c ∈ t, p c = true) :
    ∃ x b y, t = x ++ b :: y ∧ (∀ c ∈ x, p c = false) ∧ p b = true := by
  induction t with
  | nil =>
    obtain ⟨c, hc, -⟩ := h
    cases hc
  | cons d t ih =>
    by_cases hd : p d = true
    · exact ⟨[], d, t, rfl, by simp, hd⟩
    · rw [Bool.not_eq_true] at hd
      obtain ⟨c, hc, hpc⟩ := h
      rcases List.mem_cons.mp hc with rfl | hc
      · rw [hd] at hpc
        cases hpc
      · obtain ⟨x, b, y, rfl, hx, hb⟩ := ih ⟨c, hc, hpc⟩
        refine ⟨d :: x, b, y, rfl, fun e he => ?_, hb⟩
        rcases List.mem_cons.mp he with rfl | he
        · exact hd
        · exact hx e he

theorem cut_induction {P : List Char → Prop} (whole : ∀ t, (∀ c ∈ t, isLineBreak c = false) → P t)
    (broken : ∀ x b y, (∀ c ∈ x, isLineBreak c = false) → isLineBreak b = true → P y →
      P (x ++ b :: y)) (t : List Char) : P t := by
  induction hn : t.length using Nat.strong_induction_on generalizing t with
  | _ n ih =>
    by_cases h : ∃ c ∈ t, isLineBreak c = true
    · obtain ⟨x, b, y, rfl, hx, hb⟩ := exists_first h
      refine broken x b y hx hb (ih y.length ?_ y rfl)
      rw [List.length_append, List.length_cons] at hn
      omega
    · refine whole t fun c hc => ?_
      by_contra hbreak
      exact h ⟨c, hc, by simpa using hbreak⟩

theorem cut_whole {t : List Char} (h : ∀ c ∈ t, isLineBreak c = false) : cut t = [t] :=
  List.splitOnP_eq_singleton h

theorem cut_broken {x y : List Char} {b : Char} (hx : ∀ c ∈ x, isLineBreak c = false)
    (hb : isLineBreak b = true) : cut (x ++ b :: y) = x :: cut y := by
  show (x ++ b :: y).splitOnP isLineBreak = _
  rw [List.splitOnP_append_cons _ _ hb, List.splitOnP_eq_singleton hx]
  rfl

theorem sum_count_cut (hd : isSpace d = false) (t : List Char) :
    ((cut t).map (List.count d)).sum = t.count d := by
  induction t using cut_induction with
  | whole t h => rw [cut_whole h, List.map_singleton, List.sum_singleton]
  | broken x b y hx hb ih =>
    have hne : (b == d) = false := by
      rw [beq_eq_false_iff_ne]
      rintro rfl
      rw [isSpace_of_isLineBreak hb] at hd
      cases hd
    rw [cut_broken hx hb, List.map_cons, List.sum_cons, ih]
    simp [List.count_append, List.count_cons, hne]

theorem sum_colons_cut : ((cut t).map colons).sum = colons t :=
  sum_count_cut (by decide) t

/-! ### Single lines -/

theorem get_assign (data : List (String × Json F)) (key other : String) (v : Json F) :
    Json.get (Json.assign data key v) other = if other = key then v else Json.get data other := by
  unfold Json.get
  split
  · rename_i heq
    rw [heq, Json.lookup_assign_self]
    rfl
  · rename_i hne
    rw [Json.lookup_assign_of_ne _ _ hne]

section Lines

variable [Json.Floats F] {python : Python F}

/-- What is read of the text has no more colons than the text. -/
def Tame (F : Type) [Json.Floats F] (raw : List Char) : Prop :=
  colonCount (parseFrontmatterScalar (F := F) raw) ≤ colons raw

structure TameLine (F : Type) [Json.Floats F] (line : List Char) : Prop where
  item : ∀ raw, rstrip line = bullet ++ raw → Tame F raw
  value : ∀ key raw, bullet.isPrefixOf (rstrip line) = false →
    rstrip line = key ++ ':' :: raw → Tame F raw

def keyLines (line : List Char) : Nat := if bullet.isPrefixOf (rstrip line) then 0 else 1

variable {r r' : Reading F}

/-- **A line adds no more colons to a value than it has, and one less if it is no item.** -/
theorem readLine_colons (hpython : ShowsColons python) {line : List Char} (htame : TameLine F line)
    (h : readLine python r line = .ok r') (key : String) :
    colonCount (Json.get r'.data key) + keyLines line ≤
      colonCount (Json.get r.data key) + colons line := by
  have hstrip := colons_rstrip line
  unfold readLine at h
  dsimp only at h
  unfold keyLines
  by_cases hbullet : bullet.isPrefixOf (rstrip line) = true
  · rw [if_pos hbullet] at h ⊢
    split at h
    · cases h
    · rename_i current _
      split at h
      · rename_i items hitems
        cases h
        obtain ⟨raw, hraw⟩ := List.isPrefixOf_iff_prefix.mp hbullet
        have hdrop : (rstrip line).drop 4 = raw := by
          rw [← hraw]
          rfl
        have hitem := Nat.le_trans (hpython.text _) (htame.item raw hraw.symm)
        have hcount : colons raw ≤ colons line := by
          rw [← hstrip, ← hraw]
          simp [colons, List.count_append]
        rw [get_assign, hdrop]
        split
        · rename_i heq
          have hold : colonCount (Json.get r.data key) = itemsColons items := by
            unfold Json.get
            cases hlookup : r.data.lookup current with
            | none =>
              rw [hlookup] at hitems
              rw [heq, hlookup, ← Json.arr.inj hitems]
              rfl
            | some v =>
              rw [hlookup] at hitems
              obtain rfl : v = .arr items := hitems
              rw [heq, hlookup]
              rfl
          rw [colonCount_arr, List.map_append, List.sum_append, ← itemsColons_eq, hold,
            List.map_singleton, List.sum_singleton]
          have hstr : colonCount (.str (python.text (parseFrontmatterScalar (F := F) raw)) : Json F) =
              colons (python.text (parseFrontmatterScalar (F := F) raw)).toList := rfl
          rw [hstr]
          omega
        · omega
      · cases h
  · rw [if_neg hbullet] at h ⊢
    rw [Bool.not_eq_true] at hbullet
    split at h
    · cases h
    · rename_i c raw hspan
      have hsplit := List.takeWhile_append_dropWhile (p := (· != ':')) (l := rstrip line)
      have hcolon : c = ':' := by
        have hhead := head_dropWhile (p := (· != ':')) (rstrip line) c (by rw [hspan]; rfl)
        simpa using hhead
      rw [hspan, hcolon] at hsplit
      have hraw := htame.value _ raw hbullet hsplit.symm
      have hcount : colons raw + 1 ≤ colons line := by
        rw [← hstrip, ← hsplit]
        simp only [colons, List.count_append, List.count_cons_self]
        omega
      have hempty : colonCount (.arr [] : Json F) = 0 := rfl
      unfold Tame at hraw
      split at h
      · cases h
      · split at h
        · cases h
          rw [get_assign]
          split <;> omega
        · cases h
          rw [get_assign]
          split <;> omega

/-- **So do lines one after another.** -/
theorem readLines_colons (hpython : ShowsColons python) {lines : List (List Char)}
    (htame : ∀ line ∈ lines, TameLine F line) (h : readLines python r lines = .ok r') (key : String) :
    colonCount (Json.get r'.data key) + (lines.map keyLines).sum ≤
      colonCount (Json.get r.data key) + (lines.map colons).sum := by
  induction lines generalizing r with
  | nil =>
    cases h
    simp
  | cons line lines ih =>
    rw [readLines, List.foldlM_cons] at h
    obtain ⟨r₁, hline, hlines⟩ := (Runs.bind_eq_ok).mp h
    have hfirst := readLine_colons hpython (htame line List.mem_cons_self) hline key
    have hrest := ih (fun l hl => htame l (List.mem_cons_of_mem line hl)) hlines
    simp only [List.map_cons, List.sum_cons]
    omega

end Lines

end AlysisCode.Knowledge
