/-
When two claims without a pattern cover a common path.

A claim as the scheduler keeps it is a clean path.  It covers itself, its sibling spellings
when it is the readme of the root, and everything below it when it is a directory of the
repository.  So two claims overlap if they are one path, if both are the readme, or if one is
a directory and the other lies in it; `Clash` says so, and `overlap_iff` that these are all.
-/
import Mathlib.Data.List.TakeWhile
import AlysisCode.Plan.Scope

namespace AlysisCode.Plan

open Text

/-! ### Trailing slashes -/

variable {t : List Char} (value : List Char) {n name : List Char}

theorem rstripSlash_eq (h : t.getLast? ≠ some '/') : rstripSlash t = t := by
  have hhead : ∀ c ∈ t.reverse.head?, (c == '/') = false := by
    intro c hc
    rw [List.head?_reverse, Option.mem_def] at hc
    rw [hc] at h
    simpa using h
  unfold rstripSlash
  rw [dropWhile_of_head hhead, List.reverse_reverse]

theorem rstripSlash_append {slashes : List Char} (h : ∀ c ∈ slashes, c = '/') :
    rstripSlash (t ++ slashes) = rstripSlash t := by
  have hall : ∀ c ∈ slashes.reverse, (c == '/') = true := by
    intro c hc
    simp [h c (List.mem_reverse.mp hc)]
  unfold rstripSlash
  rw [List.reverse_append, List.dropWhile_append_of_pos hall]

theorem rstripSlash_split (t : List Char) :
    ∃ slashes, (∀ c ∈ slashes, c = '/') ∧ t = rstripSlash t ++ slashes := by
  refine ⟨(t.reverse.takeWhile (· == '/')).reverse, ?_, ?_⟩
  · intro c hc
    have hslash := List.all_eq_true.mp List.all_takeWhile c (List.mem_reverse.mp hc)
    exact beq_iff_eq.mp hslash
  · unfold rstripSlash
    rw [← List.reverse_append, List.takeWhile_append_dropWhile, List.reverse_reverse]

/-! ### The readme -/

def ReadmeName (name : List Char) : Prop := name = "README".toList ∨ name = "README.md".toList

theorem ReadmeName.no_slash (h : ReadmeName name) : '/' ∉ name := by
  rcases h with rfl | rfl <;> decide

theorem ofList_eq_iff {s : String} : String.ofList t = s ↔ t = s.toList := by
  constructor
  · intro h
    rw [← h, String.toList_ofList]
  · intro h
    rw [h, String.ofList_toList]

theorem isRootReadmeAlias_iff :
    isRootReadmeAlias value = true ↔ ReadmeName (rstripSlash (normalizePath value)) := by
  have hname : ∀ t : List Char,
      ["README", "README.md"].contains (String.ofList t) = true ↔ ReadmeName t := by
    intro t
    simp only [List.contains_iff_mem, List.mem_cons, List.not_mem_nil, or_false, ofList_eq_iff,
      ReadmeName]
  show (!(rstripSlash (normalizePath value)).contains '/' &&
    ["README", "README.md"].contains (String.ofList (rstripSlash (normalizePath value)))) = true ↔ _
  rw [Bool.and_eq_true, hname]
  constructor
  · exact And.right
  · intro h
    exact ⟨by simpa using h.no_slash, h⟩

/-! ### Clean paths -/

/-- A normalised path of the repository, as `normalize_repo_path_entry` returns one that is no
pattern. -/
structure Clean (n : List Char) : Prop where
  nonempty : n ≠ []
  relative : n.head? ≠ some '/'
  below : ¬ "../".toList <+: n
  noBackslash : '\\' ∉ n
  lastNoSpace : ∀ c ∈ n.getLast?, isSpace c = false
  lastNoSlash : n.getLast? ≠ some '/'
  noDotSlash : dropDotSlashes n = n
  notDot : n ≠ ['.']
  notUp : n ≠ ['.', '.']

theorem outsideRepo_eq_false (h : outsideRepo n = false) :
    n ≠ [] ∧ n.head? ≠ some '/' ∧ ¬ "../".toList <+: n := by
  unfold outsideRepo at h
  simp only [Bool.or_eq_false_iff] at h
  obtain ⟨⟨⟨⟨⟨hempty, hroot⟩, hup⟩, -⟩, -⟩, -⟩ := h
  refine ⟨by simpa using hempty, by simpa using hroot, ?_⟩
  intro hprefix
  rw [List.isPrefixOf_iff_prefix.mpr hprefix] at hup
  cases hup

theorem last_normalizePath :
    ∀ c ∈ (normalizePath value).getLast?, isSpace c = false := by
  intro c hc
  obtain ⟨before, hbefore⟩ := dropDotSlashes_suffix (replaceBackslash (stripWhere isSpace value))
  have hlast : (replaceBackslash (stripWhere isSpace value)).getLast? = some c := by
    rw [← hbefore, List.getLast?_append]
    change (dropDotSlashes _).getLast? = some c at hc
    rw [hc]
    rfl
  unfold replaceBackslash at hlast
  rw [List.getLast?_map, Option.map_eq_some_iff] at hlast
  obtain ⟨d, hd, hmap⟩ := hlast
  split at hmap
  · rw [← hmap]
    rfl
  · rw [← hmap]
    exact (bare_stripWhere isSpace value).last d hd

theorem normalizePath_no_backslash : '\\' ∉ normalizePath value := by
  intro h
  exact replaceBackslash_no_backslash _ ((dropDotSlashes_suffix _).mem h)

theorem hasGlob_expandSlash {cleaned : List Char} (h : hasGlob (expandSlash cleaned) = false) :
    cleaned.getLast? ≠ some '/' ∧ expandSlash cleaned = cleaned := by
  unfold expandSlash at h ⊢
  split at h
  · simp [hasGlob] at h
  · rename_i hlast
    exact ⟨hlast, if_neg hlast⟩

/-- **A claim without a pattern is a clean path.** -/
theorem clean_of_normalizeRepoPathEntry {value : List Char}
    (h : normalizeRepoPathEntry value = some n) (hglob : hasGlob n = false) : Clean n := by
  unfold normalizeRepoPathEntry at h
  dsimp only at h
  split at h
  · cases h
  · rename_i hin
    simp only [Bool.or_eq_true, decide_eq_true_eq, not_or] at hin
    obtain ⟨⟨⟨houtside, -⟩, hdot⟩, hup⟩ := hin
    have hexpand : expandSlash (normalizePath (stripWrappingPunctuation value)) = n := by
      repeat' split at h
      all_goals first | exact Option.some.inj h | cases h
    rw [← hexpand] at hglob
    obtain ⟨hslash, hsame⟩ := hasGlob_expandSlash hglob
    rw [hsame] at hexpand
    obtain ⟨hnil, hroot, hbelow⟩ := outsideRepo_eq_false (Bool.not_eq_true _ ▸ houtside)
    rw [← hexpand]
    exact
      { nonempty := hnil
        relative := hroot
        below := hbelow
        noBackslash := normalizePath_no_backslash _
        lastNoSpace := last_normalizePath _
        lastNoSlash := hslash
        noDotSlash := dropDotSlashes_idem _
        notDot := hdot
        notUp := hup }

/-! ### Paths that normalise to what they should -/

variable {n m : List Char}

theorem normalizePath_dotSlash (hlast : ∀ c ∈ n.getLast?, isSpace c = false)
    (hback : '\\' ∉ n) (hdot : dropDotSlashes n = n) :
    normalizePath ('.' :: '/' :: n) = n := by
  have hbare : Bare isSpace ('.' :: '/' :: n) := by
    refine ⟨fun c hc => ?_, fun c hc => ?_⟩
    · rw [← Option.some.inj hc]
      rfl
    · cases n with
      | nil =>
        rw [← Option.some.inj hc]
        rfl
      | cons d rest => exact hlast c (by simpa using hc)
  have hclean : '\\' ∉ '.' :: '/' :: n := by simpa using hback
  unfold normalizePath
  rw [hbare.stripWhere_eq, replaceBackslash_eq hclean]
  exact hdot

theorem Clean.path (h : Clean n) : rstripSlash (normalizePath ('.' :: '/' :: n)) = n := by
  rw [normalizePath_dotSlash h.lastNoSpace h.noBackslash h.noDotSlash,
    rstripSlash_eq h.lastNoSlash]

/-- Behind a clean path nothing is dropped. -/
theorem Clean.dropDotSlashes_append (h : Clean n) (t : List Char) :
    dropDotSlashes (n ++ '/' :: t) = n ++ '/' :: t := by
  have hnil := h.nonempty
  have hdot := h.notDot
  have hsame := h.noDotSlash
  match n with
  | [] => exact absurd rfl hnil
  | [c] =>
    refine dropDotSlashes_of_ne ?_ _
    rintro rfl
    exact hdot rfl
  | '.' :: '/' :: rest =>
    have hlen := (dropDotSlashes_suffix rest).length_le
    change dropDotSlashes rest = _ at hsame
    rw [hsame] at hlen
    simp only [List.length_cons] at hlen
    omega
  | c :: d :: rest =>
    apply dropDotSlashes.eq_2
    intro tail heq
    simp only [List.cons_append, List.cons.injEq] at heq
    obtain ⟨rfl, rfl, -⟩ := heq
    have hlen := (dropDotSlashes_suffix rest).length_le
    change dropDotSlashes rest = _ at hsame
    rw [hsame] at hlen
    simp only [List.length_cons] at hlen
    omega

theorem Clean.child (h : Clean n) (hname : ReadmeName name) :
    Clean (n ++ '/' :: name) := by
  have hlast : (n ++ '/' :: name).getLast? = name.getLast? := by
    rcases hname with rfl | rfl <;> simp [List.getLast?_append]
  obtain ⟨c, rest, hn⟩ := List.exists_cons_of_ne_nil h.nonempty
  have hhead : (n ++ '/' :: name).head? = n.head? := by
    rw [hn]
    rfl
  have hlen : 8 ≤ (n ++ '/' :: name).length := by
    have hname : 6 ≤ name.length := by rcases hname with rfl | rfl <;> decide
    rw [hn]
    simp only [List.length_append, List.length_cons]
    omega
  exact
    { nonempty := by simp
      relative := by
        rw [hhead]
        exact h.relative
      below := by
        intro hup
        have hbelow := h.below
        have htwo := h.notUp
        rcases n with - | ⟨c, - | ⟨d, - | ⟨e, rest⟩⟩⟩
        · cases hn
        · simp at hup
        · simp at hup htwo
          exact htwo hup.1.symm hup.2.symm
        · simp at hup hbelow
          exact hbelow hup.1 hup.2.1 hup.2.2
      noBackslash := by
        have hb : '\\' ∉ name := by rcases hname with rfl | rfl <;> decide
        have hn := h.noBackslash
        simp [hb, hn]
      lastNoSpace := by
        rw [hlast]
        rcases hname with rfl | rfl <;> decide
      lastNoSlash := by
        rw [hlast]
        rcases hname with rfl | rfl <;> decide
      noDotSlash := h.dropDotSlashes_append name
      notDot := by
        intro heq
        rw [heq] at hlen
        contradiction
      notUp := by
        intro heq
        rw [heq] at hlen
        contradiction }

/-! ### A directory that hides the readme

`_normalize_path` drops whitespace and `./` in front, so what lies in a directory whose name is
`.` but for whitespace can be taken for the readme of the root. -/

theorem dropDotSlashes_below (m : List Char) :
    (∀ y, dropDotSlashes (m ++ '/' :: y) = dropDotSlashes y) ∨
      ∀ y, dropDotSlashes (m ++ '/' :: y) = dropDotSlashes m ++ '/' :: y := by
  induction m using dropDotSlashes.induct with
  | case1 _ ih => exact ih
  | case2 m h =>
    rcases m with - | ⟨c, rest⟩
    · exact Or.inr fun y => rfl
    · by_cases hc : c = '.'
      · subst hc
        rcases rest with - | ⟨d, rest⟩
        · exact Or.inl fun y => rfl
        · have hd : d ≠ '/' := by
            rintro rfl
            exact h rest rfl
          refine Or.inr fun y => ?_
          rw [dropDotSlashes_dot_of_ne (by simpa using hd)]
          exact dropDotSlashes_dot_of_ne (by simpa using hd)
      · refine Or.inr fun y => ?_
        rw [dropDotSlashes_of_ne hc]
        exact dropDotSlashes_of_ne hc _

theorem Clean.noBackslash_dropWhile (h : Clean n) : '\\' ∉ n.dropWhile isSpace := by
  intro hmem
  exact h.noBackslash ((List.dropWhile_suffix isSpace).mem hmem)

theorem Clean.normalizePath_eq (h : Clean n) :
    normalizePath n = dropDotSlashes (n.dropWhile isSpace) := by
  unfold normalizePath
  rw [stripWhere_of_last h.lastNoSpace, replaceBackslash_eq h.noBackslash_dropWhile]

theorem Clean.normalizePath_below (h : Clean n) (y : List Char) :
    normalizePath (n ++ '/' :: y) = dropDotSlashes
      (n.dropWhile isSpace ++ '/' :: replaceBackslash (y.reverse.dropWhile isSpace).reverse) := by
  have hne : n.dropWhile isSpace ≠ [] := by
    intro hnil
    have hlast := h.lastNoSpace _ (List.getLast?_eq_some_getLast h.nonempty)
    have hall := List.dropWhile_eq_nil_iff.mp hnil _ (List.getLast_mem h.nonempty)
    rw [hlast] at hall
    cases hall
  unfold normalizePath
  rw [stripWhere_append_cons rfl hne]
  unfold replaceBackslash
  rw [List.map_append, List.map_cons]
  exact congrArg (dropDotSlashes <| · ++ _) (replaceBackslash_eq h.noBackslash_dropWhile)

theorem Clean.alias_below (h : Clean n) {y : List Char}
    (halias : isRootReadmeAlias (n ++ '/' :: y) = true) :
    isRootReadmeAlias n = true ∨ isRootReadmeAlias (n ++ "/README".toList) = true := by
  rw [isRootReadmeAlias_iff, h.normalizePath_below] at halias
  rcases dropDotSlashes_below (n.dropWhile isSpace) with hgone | hkept
  · right
    show isRootReadmeAlias (n ++ '/' :: "README".toList) = true
    rw [isRootReadmeAlias_iff, h.normalizePath_below, hgone]
    exact Or.inl (by decide)
  · left
    rw [hkept, ← h.normalizePath_eq] at halias
    rw [isRootReadmeAlias_iff]
    obtain ⟨slashes, hslashes, hsplit⟩ := rstripSlash_split (normalizePath n ++ '/' :: _)
    generalize rstripSlash (normalizePath n ++ '/' :: _) = name at halias hsplit
    have hname : rstripSlash name = name := by
      refine rstripSlash_eq fun hlast => halias.no_slash ?_
      exact List.mem_of_getLast? hlast
    -- the slash after the path is behind the name, so the path is the name and slashes
    rcases List.append_eq_append_iff.mp hsplit with ⟨between, hlong, hrest⟩ | ⟨between, hlong, hrest⟩
    · rcases between with - | ⟨c, tail⟩
      · rw [List.append_nil] at hlong
        rw [← hlong, hname]
        exact halias
      · obtain ⟨rfl, -⟩ := List.cons.inj hrest
        exact absurd (by rw [hlong]; simp) halias.no_slash
    · have hall : ∀ c ∈ between, c = '/' := by
        intro c hc
        exact hslashes c (by rw [hrest]; exact List.mem_append_left _ hc)
      rw [hlong, rstripSlash_append hall, hname]
      exact halias

/-! ### Matching a claim without a pattern -/

/-- The claim `q` is the path `n`, and no pattern. -/
def Names (q n : List Char) : Prop := normalizeRepoPathEntry q = some n ∧ hasGlob n = false

variable {q p : List Char} {root : Root}

theorem isExplicitRepoPathPattern_iff :
    isExplicitRepoPathPattern q = true ↔ ∃ n, Names q n := by
  unfold isExplicitRepoPathPattern Names
  rw [Option.any_eq_true]
  simp only [Bool.not_eq_true']

theorem Names.clean (h : Names q n) : Clean n :=
  clean_of_normalizeRepoPathEntry h.1 h.2

/-- A normalised path that no scope covers. -/
def NoFile (p : List Char) : Prop := p = [] ∨ p.head? = some '/' ∨ "../".toList <+: p

/-- How a path, normalised to `p`, is in the scope of `n`. -/
inductive Covers (root : Root) (n p : List Char) : Prop where
  | same (h : p = n)
  | readme (hn : isRootReadmeAlias n = true) (hp : isRootReadmeAlias p = true)
  | below (hdir : isExistingDirectoryScope root n = true) (h : n ++ ['/'] <+: p)

theorem scopePathMatchesPattern_iff {path : List Char} (hq : Names q n) :
    scopePathMatchesPattern root path q = true ↔
      ¬ NoFile (rstripSlash (normalizePath path)) ∧
        Covers root n (rstripSlash (normalizePath path)) := by
  have hscope : normalizeScopeMatchPattern q = some n := by
    unfold normalizeScopeMatchPattern
    rw [hq.1]
  have hfirst : (isRootReadmeAlias (rstripSlash (normalizePath path)) &&
      isRootReadmeAlias n) = true → Covers root n (rstripSlash (normalizePath path)) := by
    intro h
    rw [Bool.and_eq_true] at h
    exact .readme h.2 h.1
  unfold scopePathMatchesPattern
  rw [hscope]
  dsimp only
  rw [hq.2, rstripSlash_eq hq.clean.lastNoSlash]
  generalize rstripSlash (normalizePath path) = p at hfirst ⊢
  by_cases hnil : p = []
  · rw [if_pos (by simp [hnil])]
    exact iff_of_false Bool.false_ne_true fun h => h.1 (Or.inl hnil)
  · rw [if_neg (by simp [hnil, hq.clean.nonempty])]
    by_cases hout : p.head? = some '/' ∨ "../".toList <+: p
    · rw [if_pos (by simpa [List.isPrefixOf_iff_prefix] using hout)]
      exact iff_of_false Bool.false_ne_true fun h => h.1 (Or.inr hout)
    · rw [if_neg (by simpa [List.isPrefixOf_iff_prefix] using hout)]
      have hfile : ¬ NoFile p := fun h => h.elim hnil hout
      rw [and_iff_right hfile]
      split
      · rename_i halias
        exact iff_of_true rfl (hfirst halias)
      · rename_i halias
        rw [if_neg (by simp)]
        split
        · rename_i hsame
          exact iff_of_true rfl (.same hsame)
        · rename_i hsame
          rw [Bool.and_eq_true, List.isPrefixOf_iff_prefix]
          constructor
          · intro h
            exact .below h.1 h.2
          · intro h
            cases h with
            | same h => exact absurd h hsame
            | readme hn hp => exact absurd (by simp [hn, hp]) halias
            | below hdir h => exact ⟨hdir, h⟩

/-- The directory `n` covers the claim `m`, or what can be taken for it. -/
def Under (root : Root) (n m : List Char) : Prop :=
  isExistingDirectoryScope root n = true ∧
    (n ++ ['/'] <+: m ∨
      (isRootReadmeAlias m = true ∧ isRootReadmeAlias (n ++ "/README".toList) = true))

/-- Two claims that cover a common path. -/
inductive Clash (root : Root) (n m : List Char) : Prop where
  | same (h : n = m)
  | readme (hn : isRootReadmeAlias n = true) (hm : isRootReadmeAlias m = true)
  | under (h : Under root n m)
  | over (h : Under root m n)

/-! ### Clashing claims cover a common path -/

theorem Clean.not_noFile (h : Clean n) : ¬ NoFile n := by
  rintro (hnil | hroot | hup)
  · exact h.nonempty hnil
  · exact h.relative hroot
  · exact h.below hup

theorem matches_of_covers (hq : Names q n) (hp : Clean p) (h : Covers root n p) :
    scopePathMatchesPattern root ('.' :: '/' :: p) q = true := by
  rw [scopePathMatchesPattern_iff hq, hp.path]
  exact ⟨hp.not_noFile, h⟩

theorem Under.covers (hn : Clean n) (hm : Clean m) (h : Under root n m) :
    ∃ p, Clean p ∧ Covers root n p ∧ Covers root m p := by
  obtain ⟨hdir, hbelow | ⟨hreadme, hchild⟩⟩ := h
  · exact ⟨m, hm, .below hdir hbelow, .same rfl⟩
  · refine ⟨n ++ "/README".toList, hn.child (Or.inl rfl), .below hdir ?_, .readme hreadme hchild⟩
    exact ⟨"README".toList, by simp⟩

theorem Clash.covers (hn : Clean n) (hm : Clean m) (h : Clash root n m) :
    ∃ p, Clean p ∧ Covers root n p ∧ Covers root m p := by
  cases h with
  | same h => exact ⟨n, hn, .same rfl, .same h⟩
  | readme hnr hmr => exact ⟨n, hn, .same rfl, .readme hmr hnr⟩
  | under h => exact h.covers hn hm
  | _ h =>
    obtain ⟨p, hp, hpm, hpn⟩ := h.covers hm hn
    exact ⟨p, hp, hpn, hpm⟩

/-! ### A common path makes claims clash -/

theorem under_of_readme (hm : Clean m) (hdir : isExistingDirectoryScope root m = true)
    (hbelow : m ++ ['/'] <+: p) (hn : isRootReadmeAlias n = true) (hp : isRootReadmeAlias p = true) :
    Under root m n := by
  obtain ⟨y, hy⟩ := hbelow
  rw [List.append_assoc, List.singleton_append] at hy
  rw [← hy] at hp
  rcases hm.alias_below hp with hself | hchild
  · unfold isExistingDirectoryScope at hdir
    cases root with
    | none => cases hdir
    | some isDir => simp [hself] at hdir
  · exact ⟨hdir, Or.inr ⟨hn, hchild⟩⟩

theorem prefix_of_common (h₁ : n ++ ['/'] <+: p) (h₂ : m ++ ['/'] <+: p)
    (hlen : n.length ≤ m.length) : n = m ∨ n ++ ['/'] <+: m := by
  have hshort : n ++ ['/'] <+: m ++ ['/'] := by
    refine List.prefix_of_prefix_length_le h₁ h₂ ?_
    simp only [List.length_append]
    omega
  rcases List.prefix_concat_iff.mp hshort with heq | hprefix
  · exact Or.inl (List.append_cancel_right heq)
  · exact Or.inr hprefix

theorem clash_of_below (hn : isExistingDirectoryScope root n = true) (h₁ : n ++ ['/'] <+: p)
    (hm : isExistingDirectoryScope root m = true) (h₂ : m ++ ['/'] <+: p) : Clash root n m := by
  rcases Nat.le_total n.length m.length with hlen | hlen
  · rcases prefix_of_common h₁ h₂ hlen with heq | hprefix
    · exact .same heq
    · exact .under ⟨hn, Or.inl hprefix⟩
  · rcases prefix_of_common h₂ h₁ hlen with heq | hprefix
    · exact .same heq.symm
    · exact .over ⟨hm, Or.inl hprefix⟩

theorem clash_of_covers (hn : Clean n) (hm : Clean m) (h₁ : Covers root n p) (h₂ : Covers root m p) :
    Clash root n m := by
  cases h₁ with
  | same h =>
    subst h
    cases h₂ with
    | same h => exact .same h
    | readme hmr hp => exact .readme hp hmr
    | below hdir h => exact .over ⟨hdir, Or.inl h⟩
  | readme hnr hp =>
    cases h₂ with
    | same h => exact .readme hnr (h ▸ hp)
    | readme hmr _ => exact .readme hnr hmr
    | below hdir h => exact .over (under_of_readme hm hdir h hnr hp)
  | below hdir h =>
    cases h₂ with
    | same hsame => exact .under ⟨hdir, Or.inl (hsame ▸ h)⟩
    | readme hmr hp => exact .under (under_of_readme hn hdir h hmr hp)
    | below hdir' h' => exact clash_of_below hdir h hdir' h'

/-- **Two claims without a pattern share a path if and only if they clash.** -/
theorem overlap_iff {q₁ q₂ : List Char} (h₁ : Names q₁ n) (h₂ : Names q₂ m) :
    (∃ path, scopePathMatchesPattern root path q₁ = true ∧
      scopePathMatchesPattern root path q₂ = true) ↔ Clash root n m := by
  constructor
  · rintro ⟨path, hpath₁, hpath₂⟩
    rw [scopePathMatchesPattern_iff h₁] at hpath₁
    rw [scopePathMatchesPattern_iff h₂] at hpath₂
    exact clash_of_covers h₁.clean h₂.clean hpath₁.2 hpath₂.2
  · intro h
    obtain ⟨p, hp, hpn, hpm⟩ := h.covers h₁.clean h₂.clean
    exact ⟨_, matches_of_covers h₁ hp hpn, matches_of_covers h₂ hp hpm⟩

end AlysisCode.Plan
