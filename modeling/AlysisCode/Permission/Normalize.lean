/-
Normalising a selector twice.

A selector is normalised when its rule is granted and again whenever the file is read, so a
rule survives the file exactly if its selectors are fixed by their normalisers.  Tools,
commands and sources are.  A path pattern is stripped *before* its leading `./` is dropped,
so whitespace behind the `./` gets to the front and is stripped the next time: `Padded` are
the patterns this happens to.
-/
import AlysisCode.Permission.Basic

namespace AlysisCode.Permission

open Runs Text

/-! ### Whitespace and folding -/

theorem isSpace_foldTargets : ∀ n ∈ foldTargets, isSpace (Char.ofNat n) = false := by
  have hall : foldTargets.all (fun n => !isSpace (Char.ofNat n)) = true := by decide +kernel
  intro n hn
  simpa using List.all_eq_true.mp hall n hn

variable {value q : List Char} {c : Char}

theorem validateSelector_ok {message : String} (h : validateSelector value message = .ok ()) :
    value ≠ [] := by
  rintro rfl
  cases h

/-! ### Tools -/

/-- **A normalised tool pattern is normalised.** -/
theorem normalizeToolPattern_idem (h : normalizeToolPattern value = .ok q) :
    normalizeToolPattern q = .ok q := by
  have hq : casefold (stripWhere isSpace value) = q := by
    unfold normalizeToolPattern at h
    obtain ⟨-, -, h⟩ := bind_eq_ok.mp h
    split at h
    · cases h
    · exact Except.ok.inj h
  have hbare : Bare isSpace q := by
    rw [← hq]
    exact bare_casefold isSpace_foldTargets (bare_stripWhere isSpace value)
  have hsame : casefold (stripWhere isSpace q) = casefold (stripWhere isSpace value) := by
    rw [hbare.stripWhere_eq, ← hq, casefold_casefold]
  unfold normalizeToolPattern at h ⊢
  rw [hsame]
  exact h

/-! ### Paths -/

theorem normalizePathPattern_ok (h : normalizePathPattern value = .ok q) :
    pathPatternText value = q ∧ q ≠ [] := by
  dsimp only [normalizePathPattern] at h
  obtain ⟨_, hselector, h⟩ := bind_eq_ok.mp h
  have hne := validateSelector_ok hselector
  simp only [guard_eq_ok] at h
  obtain ⟨-, -, h⟩ := h
  have hq := Except.ok.inj h
  exact ⟨hq, hq ▸ hne⟩

theorem normalizePathPattern_congr {value' : List Char}
    (h : pathPatternText value = pathPatternText value') :
    normalizePathPattern value = normalizePathPattern value' := by
  unfold normalizePathPattern
  rw [h]

theorem pathPatternText_eq (value : List Char) : pathPatternText value =
      dropDotSlashes (squeeze '/' (replaceBackslash (stripWhere isSpace value))) := by
  dsimp only [pathPatternText]
  rw [squeezeLoop_eq (Nat.le_refl _)]

theorem isSpace_replaceBackslash (c : Char) :
    isSpace (if c = '\\' then '/' else c) = isSpace c := by
  split
  · rename_i h
    rw [h]
    rfl
  · rfl

theorem last_replaceBackslash {t : List Char} (h : ∀ c ∈ t.getLast?, isSpace c = false) :
    ∀ c ∈ (replaceBackslash t).getLast?, isSpace c = false := by
  intro c hc
  rw [replaceBackslash, List.getLast?_map] at hc
  obtain ⟨d, hd, rfl⟩ := Option.map_eq_some_iff.mp hc
  rw [isSpace_replaceBackslash]
  exact h d hd

section PathPattern

variable (value : List Char)

theorem pathPatternText_suffix :
    pathPatternText value <:+ squeeze '/' (replaceBackslash (stripWhere isSpace value)) := by
  rw [pathPatternText_eq]
  exact dropDotSlashes_suffix _

theorem pathPatternText_no_backslash : '\\' ∉ pathPatternText value := fun h =>
  replaceBackslash_no_backslash _ (mem_of_mem_squeeze ((pathPatternText_suffix value).subset h))

theorem pathPatternText_squeezed : doubled '/' (pathPatternText value) = false := by
  obtain ⟨before, hbefore⟩ := pathPatternText_suffix value
  apply doubled_append (s := before)
  rw [hbefore]
  exact doubled_squeeze '/' _

theorem pathPatternText_dropped :
    dropDotSlashes (pathPatternText value) = pathPatternText value := by
  rw [pathPatternText_eq, dropDotSlashes_idem]

theorem pathPatternText_last : ∀ c ∈ (pathPatternText value).getLast?, isSpace c = false := by
  intro c hc
  obtain ⟨before, hbefore⟩ := pathPatternText_suffix value
  apply last_replaceBackslash (bare_stripWhere isSpace value).last
  rw [← getLast_squeeze '/', ← hbefore, List.getLast?_append, hc]
  rfl

end PathPattern

theorem pathPatternText_twice (value : List Char) : pathPatternText (pathPatternText value) =
      dropDotSlashes ((pathPatternText value).dropWhile isSpace) := by
  obtain ⟨before, hbefore⟩ :=
    List.dropWhile_suffix (l := pathPatternText value) isSpace
  have hback : '\\' ∉ (pathPatternText value).dropWhile isSpace := fun h =>
    pathPatternText_no_backslash value (List.dropWhile_subset _ h)
  have hsqueezed : doubled '/' ((pathPatternText value).dropWhile isSpace) = false := by
    apply doubled_append (s := before)
    rw [hbefore]
    exact pathPatternText_squeezed value
  rw [pathPatternText_eq (pathPatternText value),
    stripWhere_of_last (pathPatternText_last value), replaceBackslash_eq hback,
    squeeze_of_not_doubled hsqueezed]

/-- **A normalised path pattern is normalised exactly if no whitespace is in front.** -/
theorem pathPatternText_fixed_iff (value : List Char) :
    pathPatternText (pathPatternText value) = pathPatternText value ↔
      ∀ c ∈ (pathPatternText value).head?, isSpace c = false := by
  rw [pathPatternText_twice]
  constructor
  · intro h c hc
    by_contra hspace
    obtain ⟨rest, hrest⟩ := List.head?_eq_some_iff.mp hc
    have hdrop : (pathPatternText value).dropWhile isSpace = rest.dropWhile isSpace := by
      rw [hrest]
      exact List.dropWhile_cons_of_pos (by simpa using hspace)
    have hlength := (dropDotSlashes_suffix (rest.dropWhile isSpace)).length_le
    have hle := (List.dropWhile_suffix (l := rest) isSpace).length_le
    rw [hdrop] at h
    rw [h, hrest, List.length_cons] at hlength
    omega
  · intro h
    rw [dropWhile_of_head h, pathPatternText_dropped]

/-! ### Commands -/

theorem commandTextFrom_space (h : isSpace c = true) (escaped pending started : Bool)
    (rest : List Char) :
    commandTextFrom none escaped pending started (c :: rest) =
      commandTextFrom none escaped true started rest :=
  if_pos h

/-- The quotation a character opens. -/
def opens (c : Char) : Option Char := if c = '\'' ∨ c = '"' then some c else none

theorem commandTextFrom_word (h : isSpace c = false) (escaped pending started : Bool)
    (rest : List Char) :
    commandTextFrom none escaped pending started (c :: rest) =
      (if pending && started then [' '] else []) ++
        c :: commandTextFrom (opens c) escaped false true rest := by
  have hword : commandTextFrom none escaped pending started (c :: rest) =
      if pending && started then ' ' :: c :: commandTextFrom (opens c) escaped false true rest
      else c :: commandTextFrom (opens c) escaped false true rest := if_neg (by simp [h])
  rw [hword]
  split <;> rfl

theorem commandTextFrom_quoted (q : Char) (escaped : Bool) (c : Char) :
    ∃ quote escaped', ∀ pending started t, commandTextFrom (some q) escaped pending started
      (c :: t) = c :: commandTextFrom quote escaped' pending true t := by
  by_cases he : escaped = true
  · exact ⟨some q, false, fun pending _ t => congrArg (c :: ·) (if_pos he)⟩
  · by_cases hback : c = '\\' ∧ q = '"'
    · exact ⟨some q, true, fun pending _ t =>
        congrArg (c :: ·) ((if_neg he).trans (if_pos hback))⟩
    · by_cases hclose : c = q
      · exact ⟨none, false, fun pending _ t =>
          congrArg (c :: ·) ((if_neg he).trans ((if_neg hback).trans (if_pos hclose)))⟩
      · exact ⟨some q, false, fun pending _ t =>
          congrArg (c :: ·) ((if_neg he).trans ((if_neg hback).trans (if_neg hclose)))⟩

/-- The loop run over what it wrote, with no more pending than the first time. -/
theorem commandTextFrom_idem (quote : Option Char) (escaped pending pending' started : Bool)
    (t : List Char) (h : pending' = true → pending = true) :
    commandTextFrom quote escaped pending' started
      (commandTextFrom quote escaped pending started t) =
      commandTextFrom quote escaped pending started t := by
  induction t generalizing quote escaped pending pending' started with
  | nil => rfl
  | cons c rest ih =>
    cases quote with
    | some q =>
      obtain ⟨quote, escaped', hkeep⟩ := commandTextFrom_quoted q escaped c
      rw [hkeep, hkeep, ih quote escaped' pending pending' true h]
    | none =>
      by_cases hspace : isSpace c = true
      · rw [commandTextFrom_space hspace]
        exact ih none escaped true pending' started fun _ => rfl
      · have hword : isSpace c = false := by simpa using hspace
        have hrest := ih (opens c) escaped false false true id
        rw [commandTextFrom_word hword]
        by_cases hsep : (pending && started) = true
        · -- the separator that was written is whitespace again
          obtain ⟨-, rfl⟩ := Bool.and_eq_true_iff.mp hsep
          rw [if_pos hsep, List.singleton_append, commandTextFrom_space (by rfl),
            commandTextFrom_word hword, hrest]
          rfl
        · have hsep' : (pending' && started) = false := by
            cases pending' with
            | false => rfl
            | true => simpa [h rfl] using hsep
          rw [if_neg hsep, List.nil_append, commandTextFrom_word hword, hsep', hrest]
          rfl

theorem mem_commandTextFrom {quote : Option Char} {escaped pending started : Bool} {d : Char}
    {t : List Char} (h : d ∈ commandTextFrom quote escaped pending started t) :
    d = ' ' ∨ d ∈ t := by
  induction t generalizing quote escaped pending started with
  | nil => cases h
  | cons c rest ih =>
    cases quote with
    | some q =>
      obtain ⟨quote, escaped', hkeep⟩ := commandTextFrom_quoted q escaped c
      rw [hkeep, List.mem_cons] at h
      rcases h with rfl | h
      · exact .inr List.mem_cons_self
      · exact (ih h).imp_right (List.mem_cons_of_mem c)
    | none =>
      by_cases hspace : isSpace c = true
      · rw [commandTextFrom_space hspace] at h
        exact (ih h).imp_right (List.mem_cons_of_mem c)
      · rw [commandTextFrom_word (by simpa using hspace), List.mem_append, List.mem_cons] at h
        rcases h with h | rfl | h
        · split at h
          · exact .inl (List.mem_singleton.mp h)
          · cases h
        · exact .inr List.mem_cons_self
        · exact (ih h).imp_right (List.mem_cons_of_mem c)

variable (t : List Char)

theorem replaceNewlines_no_return : '\r' ∉ replaceNewlines t := by
  induction t using replaceNewlines.induct with
  | case1 rest ih => simpa [replaceNewlines] using ih
  | case2 rest h ih =>
    rw [replaceNewlines.eq_2 _ h]
    simpa using ih
  | case3 c rest h1 h2 ih =>
    rw [replaceNewlines.eq_3 _ _ h1 h2, List.mem_cons, not_or]
    exact ⟨fun heq => h2 heq.symm, ih⟩
  | case4 => exact List.not_mem_nil

theorem replaceNewlines_eq {t : List Char} (h : '\r' ∉ t) : replaceNewlines t = t := by
  induction t with
  | nil => rfl
  | cons c rest ih =>
    rw [List.mem_cons, not_or] at h
    rw [replaceNewlines.eq_3 _ _ (fun _ heq _ => h.1 heq.symm) (fun heq => h.1 heq.symm), ih h.2]

/-- **A normalised command is normalised.** -/
theorem normalizeCommandText_idem (value : List Char) :
    normalizeCommandText (normalizeCommandText value) = normalizeCommandText value := by
  have hreturn : '\r' ∉ normalizeCommandText value := by
    intro h
    rcases mem_commandTextFrom h with h | h
    · cases h
    · exact replaceNewlines_no_return value h
  conv_lhs => rw [normalizeCommandText]
  rw [replaceNewlines_eq hreturn]
  exact commandTextFrom_idem none false false false false _ id

theorem normalizeCommandPattern_idem (h : normalizeCommandPattern value = .ok q) :
    normalizeCommandPattern q = .ok q := by
  have hq : normalizeCommandText value = q := by
    obtain ⟨_, -, h⟩ := bind_eq_ok.mp h
    exact Except.ok.inj h
  have hsame : normalizeCommandText q = normalizeCommandText value := by
    rw [← hq, normalizeCommandText_idem]
  unfold normalizeCommandPattern at h ⊢
  rw [hsame]
  exact h

/-! ### Sources -/

/-- **A validated source is validated to itself.** -/
theorem validateSource_idem {F G : Type} {value : Json F} {source : String}
    (h : validateSource value = .ok source) : validateSource (.str source : Json G) = .ok source := by
  cases value with
  | str s =>
    dsimp only [validateSource] at h
    obtain ⟨hvalid, hsource⟩ := guard_eq_ok.mp h
    have hlist : stripWhere isSpace source.toList = stripWhere isSpace s.toList := by
      rw [← Except.ok.inj hsource, String.toList_ofList]
      exact (bare_stripWhere isSpace s.toList).stripWhere_eq
    dsimp only [validateSource]
    rw [hlist]
    exact guard_eq_ok.mpr ⟨hvalid, hsource⟩
  | _ => cases h

/-! ### Padded path patterns -/

/-- Where a reader of the `./` in front of a pattern is: before one, behind its dot, or among
its slashes. -/
inductive Lead where
  | start
  | dot
  | slash

/-- Whitespace follows one or more `./`, each with any number of slashes of either kind. -/
def paddedFrom : Lead → List Char → Bool
  | _, [] => false
  | .start, c :: rest => c == '.' && paddedFrom .dot rest
  | .dot, c :: rest => (c == '/' || c == '\\') && paddedFrom .slash rest
  | .slash, c :: rest =>
    if c = '/' ∨ c = '\\' then paddedFrom .slash rest
    else isSpace c || (c == '.' && paddedFrom .dot rest)

/-- A path pattern with whitespace behind the `./` it begins with. -/
def Padded (value : List Char) : Prop := paddedFrom .start (stripWhere isSpace value) = true

/-- The normalised text still to be cut, for what was read and what was not. -/
def Lead.text : Lead → List Char → List Char
  | .start, t => squeeze '/' (replaceBackslash t)
  | .dot, t => '.' :: squeeze '/' (replaceBackslash t)
  | .slash, t => (squeeze '/' ('/' :: replaceBackslash t)).tail

def frontSpace (t : List Char) : Bool := t.head?.any isSpace

theorem squeeze_slash : squeeze '/' ('/' :: t) = '/' :: (squeeze '/' ('/' :: t)).tail := by
  have hhead := head_squeeze '/' ('/' :: t)
  obtain ⟨rest, hrest⟩ := List.head?_eq_some_iff.mp hhead
  rw [hrest]
  rfl

def isSlash (c : Char) : Prop := c = '/' ∨ c = '\\'

instance : DecidablePred isSlash := fun _ => inferInstanceAs (Decidable (_ ∨ _))

theorem replaceBackslash_slash (h : isSlash c) (t : List Char) :
    replaceBackslash (c :: t) = '/' :: replaceBackslash t := by
  rcases h with rfl | rfl <;> rfl

theorem replaceBackslash_of_not_slash (h : ¬ isSlash c) (t : List Char) :
    replaceBackslash (c :: t) = c :: replaceBackslash t := by
  have hc : c ≠ '\\' := fun heq => h (.inr heq)
  unfold replaceBackslash
  rw [List.map_cons, if_neg hc]

theorem Lead.text_dot_slash (h : isSlash c) (t : List Char) :
    dropDotSlashes (Lead.dot.text (c :: t)) = dropDotSlashes (Lead.slash.text t) := by
  show dropDotSlashes ('.' :: squeeze '/' (replaceBackslash (c :: t))) = _
  rw [replaceBackslash_slash h, squeeze_slash]
  rfl

theorem Lead.text_slash_slash (h : isSlash c) (t : List Char) :
    Lead.slash.text (c :: t) = Lead.slash.text t := by
  show (squeeze '/' ('/' :: replaceBackslash (c :: t))).tail = _
  rw [replaceBackslash_slash h, squeeze_cons_cons]
  rfl

theorem Lead.text_slash_of_not_slash (h : ¬ isSlash c) (t : List Char) :
    Lead.slash.text (c :: t) = c :: squeeze '/' (replaceBackslash t) := by
  have hc : c ≠ '/' := fun heq => h (.inl heq)
  have hhead : ¬ ('/' = '/' ∧ (c :: replaceBackslash t).head? = some '/') := by
    simpa using hc
  have heq : squeeze '/' ('/' :: c :: replaceBackslash t) =
      '/' :: squeeze '/' (c :: replaceBackslash t) := if_neg hhead
  show (squeeze '/' ('/' :: replaceBackslash (c :: t))).tail = _
  rw [replaceBackslash_of_not_slash h, heq, squeeze_cons_of_ne hc]
  rfl

/-- Behind the first dot, the reader sees whether whitespace will be in front. -/
theorem paddedFrom_eq : paddedFrom .dot t = frontSpace (dropDotSlashes (Lead.dot.text t)) ∧
      paddedFrom .slash t = frontSpace (dropDotSlashes (Lead.slash.text t)) := by
  induction t with
  | nil => exact ⟨rfl, rfl⟩
  | cons c rest ih =>
    by_cases h : isSlash c
    · constructor
      · have hc : (c == '/' || c == '\\') = true := by simpa [isSlash] using h
        rw [Lead.text_dot_slash h, ← ih.2]
        show ((c == '/' || c == '\\') && paddedFrom .slash rest) = _
        rw [hc, Bool.true_and]
      · rw [Lead.text_slash_slash h, ← ih.2]
        exact if_pos h
    · constructor
      · have hc : (c == '/' || c == '\\') = false := by simpa [isSlash] using h
        have hhead : (squeeze '/' (replaceBackslash (c :: rest))).head? ≠ some '/' := by
          rw [head_squeeze, replaceBackslash_of_not_slash h]
          intro heq
          exact h (.inl (Option.some.inj heq))
        show ((c == '/' || c == '\\') && paddedFrom .slash rest) =
          frontSpace (dropDotSlashes ('.' :: squeeze '/' (replaceBackslash (c :: rest))))
        rw [hc, Bool.false_and, dropDotSlashes_dot_of_ne hhead]
        rfl
      · have heq : paddedFrom .slash (c :: rest) =
            (isSpace c || (c == '.' && paddedFrom .dot rest)) := if_neg h
        rw [heq, Lead.text_slash_of_not_slash h]
        by_cases hdot : c = '.'
        · rw [hdot, ih.1]
          rfl
        · have hne : (c == '.') = false := by simpa using hdot
          rw [dropDotSlashes_of_ne hdot, hne, Bool.false_and, Bool.or_false]
          rfl

/-- **A path pattern is padded exactly if normalising it brings whitespace to the front.** -/
theorem padded_iff (value : List Char) :
    Padded value ↔ frontSpace (pathPatternText value) = true := by
  have hbare := (bare_stripWhere isSpace value).first
  unfold Padded
  rw [pathPatternText_eq]
  cases hstrip : stripWhere isSpace value with
  | nil => simp [paddedFrom, replaceBackslash, squeeze, dropDotSlashes, frontSpace]
  | cons c rest =>
    rw [hstrip] at hbare
    have hspace : isSpace c = false := hbare c rfl
    by_cases hdot : c = '.'
    · rw [hdot]
      show ('.' == '.' && paddedFrom .dot rest) = true ↔ _
      rw [(paddedFrom_eq rest).1, replaceBackslash_of_not_slash (by decide),
        squeeze_cons_of_ne (by decide)]
      rfl
    · have hne : (c == '.') = false := by simpa using hdot
      have hpad : paddedFrom .start (c :: rest) = false := by
        show (c == '.' && paddedFrom .dot rest) = false
        rw [hne, Bool.false_and]
      have hhead := head_squeeze '/' (replaceBackslash (c :: rest))
      obtain ⟨tail, htail⟩ := List.head?_eq_some_iff.mp hhead
      have hkeep : (if c = '\\' then '/' else c) ≠ '.' := by
        split
        · decide
        · exact hdot
      rw [hpad, htail, dropDotSlashes_of_ne hkeep]
      have hfront : frontSpace ((if c = '\\' then '/' else c) :: tail) = false := by
        show isSpace (if c = '\\' then '/' else c) = false
        rw [isSpace_replaceBackslash, hspace]
      rw [hfront]

theorem normalizePathPattern_fixed_iff (h : normalizePathPattern value = .ok q) :
    normalizePathPattern q = .ok q ↔ ¬ Padded value := by
  have hq := (normalizePathPattern_ok h).1
  have hfixed := pathPatternText_fixed_iff value
  rw [hq] at hfixed
  rw [padded_iff, hq]
  constructor
  · intro hagain hfront
    have hsame := hfixed.mp (normalizePathPattern_ok hagain).1
    obtain ⟨c, hc, hspace⟩ := (Option.any_eq_true _ _).mp hfront
    rw [hsame c hc] at hspace
    cases hspace
  · intro hfront
    have hsame : pathPatternText q = q := by
      apply hfixed.mpr
      intro c hc
      by_contra hspace
      apply hfront
      rw [frontSpace, Option.mem_def.mp hc]
      simpa using hspace
    rw [← h]
    exact normalizePathPattern_congr (hsame.trans hq.symm)

end AlysisCode.Permission
