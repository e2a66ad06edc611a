/-
Which paths a claim made of them covers.

A path and the claim written from it go through different normalisations: only the claim loses
the quotes and the punctuation around it.  What is left of the claim is a part of the path, so
if it has no `*` it covers the path only if it is the path and nothing in it is read as a
class (`scopePathMatchesPattern_self_iff`).  The routing names of file systems, such as
`app/[id]/page.tsx`, have classes.
-/
import AlysisCode.Library.GlobClass
import AlysisCode.Plan.Overlap

namespace AlysisCode.Scope

open Glob Plan Text

/-! ### What wrapping punctuation is -/

def isQuote (c : Char) : Bool := c == '`' || c == '\'' || c == '"'

/-- A character that may be taken away in front of a claim. -/
def isFront (c : Char) : Bool :=
  isSpace c || isQuote c || "([\x7b:".toList.contains c

/-- A character that may be taken away behind a claim. -/
def isBack (c : Char) : Bool :=
  isSpace c || isQuote c || ",;:.)]\x7d".toList.contains c

theorem trimLoop_split (p : Char → Bool) (t : List Char) :
    ∃ a, t = a ++ trimLoop p t ∧ ∀ c ∈ a, p c = true ∨ isSpace c = true := by
  unfold trimLoop
  split
  · refine ⟨t.takeWhile fun c => p c || isSpace c, List.takeWhile_append_dropWhile.symm, ?_⟩
    intro c hc
    have hboth := List.all_eq_true.mp List.all_takeWhile c hc
    simpa using hboth
  · exact ⟨[], rfl, by simp⟩

/-- The text of a claim, with what stands around it. -/
theorem unwrapped_split (p : List Char) : ∃ a b, stripWhere isSpace p =
        a ++ (stripWhere isSpace (stripWrappingPunctuation p) ++ b) ∧
      (∀ c ∈ a, isFront c = true) ∧ ∀ c ∈ b, isBack c = true := by
  have htrim : stripWrappingPunctuation p = trimLoop ("([\x7b:".toList.contains ·)
      (trimLoop (",;:.)]\x7d".toList.contains ·)
        (stripWhere isQuote (stripWhere isSpace p)).reverse).reverse := rfl
  obtain ⟨a₁, b₁, h₁, ha₁, hb₁⟩ := stripWhere_split isQuote (stripWhere isSpace p)
  generalize stripWhere isQuote (stripWhere isSpace p) = unquoted at htrim h₁
  obtain ⟨b₂, h₂, hb₂⟩ := trimLoop_split (",;:.)]\x7d".toList.contains ·) unquoted.reverse
  generalize trimLoop (",;:.)]\x7d".toList.contains ·) unquoted.reverse = back at htrim h₂
  obtain ⟨a₃, h₃, ha₃⟩ := trimLoop_split ("([\x7b:".toList.contains ·) back.reverse
  rw [← htrim] at h₃
  obtain ⟨a₄, b₄, h₄, ha₄, hb₄⟩ := stripWhere_split isSpace (stripWrappingPunctuation p)
  have h₂' := congrArg List.reverse h₂
  rw [List.reverse_reverse, List.reverse_append] at h₂'
  refine ⟨a₁ ++ (a₃ ++ a₄), b₄ ++ (b₂.reverse ++ b₁), ?_, ?_, ?_⟩
  · calc stripWhere isSpace p = a₁ ++ (unquoted ++ b₁) := h₁
      _ = a₁ ++ ((back.reverse ++ b₂.reverse) ++ b₁) := by rw [← h₂']
      _ = a₁ ++ (((a₃ ++ stripWrappingPunctuation p) ++ b₂.reverse) ++ b₁) := by rw [← h₃]
      _ = a₁ ++ (((a₃ ++ (a₄ ++ (stripWhere isSpace (stripWrappingPunctuation p) ++ b₄))) ++
            b₂.reverse) ++ b₁) := by rw [← h₄]
      _ = _ := by simp only [List.append_assoc]
  · intro c hc
    have hcases : isQuote c = true ∨ isSpace c = true ∨ "([\x7b:".toList.contains c = true := by
      simp only [List.mem_append] at hc
      rcases hc with hc | hc | hc
      · exact .inl (ha₁ c hc)
      · exact .inr (ha₃ c hc).symm
      · exact .inr (.inl (ha₄ c hc))
    unfold isFront
    rcases hcases with h | h | h <;> rw [h] <;> simp
  · intro c hc
    have hcases : isQuote c = true ∨ isSpace c = true ∨ ",;:.)]\x7d".toList.contains c = true := by
      simp only [List.mem_append, List.mem_reverse] at hc
      rcases hc with hc | hc | hc
      · exact .inr (.inl (hb₄ c hc))
      · exact .inr (hb₂ c hc).symm
      · exact .inl (hb₁ c hc)
    unfold isBack
    rcases hcases with h | h | h <;> rw [h] <;> simp

/-! ### The claim's text is a part of the path -/

theorem isFront_ne {c : Char} (h : isFront c = true) : c ≠ '.' ∧ c ≠ '\\' ∧ c ≠ '*' := by
  refine ⟨?_, ?_, ?_⟩ <;> rintro rfl <;> revert h <;> decide

theorem isBack_ne {c : Char} (h : isBack c = true) : c ≠ '/' ∧ c ≠ '\\' ∧ c ≠ '*' := by
  refine ⟨?_, ?_, ?_⟩ <;> rintro rfl <;> revert h <;> decide

theorem replaceBackslash_append (s t : List Char) :
    replaceBackslash (s ++ t) = replaceBackslash s ++ replaceBackslash t :=
  List.map_append

theorem dropDotSlashes_append {t : List Char} (ht : '/' ∉ t) (s : List Char) :
    dropDotSlashes (s ++ t) = dropDotSlashes s ++ t := by
  induction s using dropDotSlashes.induct with
  | case1 _ ih => exact ih
  | case2 s h =>
    rw [dropDotSlashes.eq_2 s h]
    refine dropDotSlashes.eq_2 _ fun rest heq => ?_
    cases s with
    | nil =>
      rw [List.nil_append] at heq
      exact ht (heq ▸ by simp)
    | cons c s =>
      cases s with
      | nil =>
        rw [List.singleton_append, List.cons.injEq] at heq
        exact ht (heq.2 ▸ by simp)
      | cons d s =>
        simp only [List.cons_append, List.cons.injEq] at heq
        exact h s (by rw [heq.1, heq.2.1])

/-- The text of a claim, normalised, is a part of the path. -/
theorem normalized_sublist (p : List Char) :
    (normalizePath (stripWrappingPunctuation p)).Sublist (normalizePath p) := by
  obtain ⟨a, b, h, ha, hb⟩ := unwrapped_split p
  unfold normalizePath
  rw [h, replaceBackslash_append, replaceBackslash_append]
  generalize replaceBackslash (stripWhere isSpace (stripWrappingPunctuation p)) = k
  have hslash : '/' ∉ replaceBackslash b := by
    intro hmem
    obtain ⟨c, hc, hmap⟩ := List.mem_map.mp hmem
    obtain ⟨hne, hback, -⟩ := isBack_ne (hb c hc)
    rw [if_neg hback] at hmap
    exact hne hmap
  rw [← List.append_assoc, dropDotSlashes_append hslash]
  refine List.Sublist.trans ?_ (List.sublist_append_left _ _)
  cases a with
  | nil => exact List.Sublist.refl _
  | cons c a =>
    -- what stands in front is no dot, so nothing is dropped there
    obtain ⟨hdot, hback, -⟩ := isFront_ne (ha c List.mem_cons_self)
    have hcons : replaceBackslash (c :: a) = c :: replaceBackslash a := by
      unfold replaceBackslash
      rw [List.map_cons, if_neg hback]
    rw [hcons, List.cons_append, dropDotSlashes_of_ne hdot]
    exact (dropDotSlashes_suffix k).sublist.trans
      ((List.sublist_append_right _ _).trans (List.sublist_cons_self c _))

variable {n p : List Char}

theorem sublist_rstripSlash {t : List Char} (hlast : n.getLast? ≠ some '/') (h : n.Sublist t) :
    n.Sublist (rstripSlash t) := by
  obtain ⟨slashes, hslashes, hsplit⟩ := rstripSlash_split t
  rw [hsplit] at h
  obtain ⟨front, back, rfl, hfront, hback⟩ := List.sublist_append_iff.mp h
  have hnil : back = [] := by
    by_contra hne
    apply hlast
    rw [List.getLast?_append, List.getLast?_eq_some_getLast hne]
    have hmem := hback.subset (List.getLast_mem hne)
    rw [hslashes _ hmem]
    rfl
  rw [hnil, List.append_nil]
  exact hfront

theorem expandSlash_of_no_star {cleaned : List Char} (h : '*' ∉ expandSlash cleaned) :
    cleaned.getLast? ≠ some '/' ∧ expandSlash cleaned = cleaned := by
  unfold expandSlash at h ⊢
  split at h
  · simp at h
  · rename_i hlast
    exact ⟨hlast, if_neg hlast⟩

theorem normalizeRepoPathEntry_eq (h : normalizeRepoPathEntry p = some n) :
    n = expandSlash (normalizePath (stripWrappingPunctuation p)) ∧
      outsideRepo (normalizePath (stripWrappingPunctuation p)) = false := by
  unfold normalizeRepoPathEntry at h
  dsimp only at h
  split at h
  · cases h
  · rename_i hin
    simp only [Bool.or_eq_true, not_or, Bool.not_eq_true] at hin
    refine ⟨?_, hin.1.1.1⟩
    repeat' split at h
    all_goals first | exact (Option.some.inj h).symm | cases h

theorem normalizeScopeMatchPattern_eq (h : normalizeScopeMatchPattern p = some n) :
    n = expandSlash (normalizePath (stripWrappingPunctuation p)) := by
  unfold normalizeScopeMatchPattern at h
  split at h
  · rename_i m hentry
    rw [← Option.some.inj h]
    exact (normalizeRepoPathEntry_eq hentry).1
  · dsimp only at h
    split at h
    · cases h
    · exact (Option.some.inj h).symm

theorem pattern_sublist (h : normalizeScopeMatchPattern p = some n) (hstar : '*' ∉ n) :
    n.Sublist (rstripSlash (normalizePath p)) := by
  rw [normalizeScopeMatchPattern_eq h] at hstar ⊢
  obtain ⟨hlast, heq⟩ := expandSlash_of_no_star hstar
  rw [heq]
  exact sublist_rstripSlash hlast (normalized_sublist p)

/-! ### What covers itself -/

/-- The text names something below the root. -/
def InsideRepo (path : List Char) : Prop :=
  path ≠ [] ∧ path.head? ≠ some '/' ∧ "../".toList.isPrefixOf path = false

/-- How the pattern `n` of a claim comes to cover the path it was made from. -/
inductive CoversItself (root : Root) (path n : List Char) : Prop where
  | readme (hpath : isRootReadmeAlias path = true) (hn : isRootReadmeAlias n = true)
  /-- The claim is the path, and no part of it is read as a class. -/
  | same (hsame : n = path) (hplain : ¬HasClass n)
  /-- A pattern with `*`, which reads its own text. -/
  | star (hstar : '*' ∈ n) (v : List Char) (hv : v ∈ scopeGlobVariants n)
      (hmatch : fnmatchcase path v = true)
  /-- What was taken from the end left a directory. -/
  | below (hdir : isExistingDirectoryScope root n = true) (hbelow : rstripSlash n ++ ['/'] <+: path)

/-- The claim made of `p` covers `p`. -/
def SelfCovered (root : Root) (p : List Char) : Prop :=
  InsideRepo (rstripSlash (normalizePath p)) ∧ ∃ n, normalizeScopeMatchPattern p = some n ∧
      CoversItself root (rstripSlash (normalizePath p)) n

theorem hasGlob_of_star (h : '*' ∈ n) : hasGlob n = true := by
  unfold hasGlob
  rw [List.any_eq_true]
  exact ⟨'*', h, rfl⟩

theorem dropAnyDirectories_eq (h : '*' ∉ n) : dropAnyDirectories n = n := by
  induction n using dropAnyDirectories.induct with
  | case1 rest _ => simp at h
  | case2 c rest hne ih =>
    rw [List.mem_cons, not_or] at h
    rw [dropAnyDirectories.eq_2 c rest hne, ih h.2]
  | case3 => rfl

theorem scopeGlobVariants_of_no_star (h : '*' ∉ n) : scopeGlobVariants n = [n] := by
  unfold scopeGlobVariants
  rw [dropAnyDirectories_eq h]
  simp

theorem mem_scopeGlobVariants (n : List Char) : n ∈ scopeGlobVariants n := by
  unfold scopeGlobVariants
  split
  · exact List.mem_cons_self
  · exact List.mem_cons_self

theorem hasGlob_of_class (h : HasClass n) : hasGlob n = true := by
  unfold hasGlob
  rw [List.any_eq_true]
  exact ⟨'[', h.mem, rfl⟩

theorem CoversItself.nonempty {root : Root} {path : List Char} (hin : InsideRepo path)
    (h : CoversItself root path n) : n ≠ [] := by
  rintro rfl
  cases h with
  | readme hpath hn => exact absurd hn (by decide)
  | same hsame hplain => exact hin.1 hsame.symm
  | star hstar v hv hmatch => cases hstar
  | below hdir hbelow =>
    obtain ⟨rest, hrest⟩ := hbelow
    exact hin.2.1 (hrest ▸ rfl)

/-- **A claim covers the path it was made from exactly if nothing of it is read as a class, or
a `*` of it makes up for that.** -/
theorem scopePathMatchesPattern_self_iff (root : Root) (p : List Char) :
    scopePathMatchesPattern root p p = true ↔ SelfCovered root p := by
  unfold SelfCovered scopePathMatchesPattern
  have hsub : ∀ n, normalizeScopeMatchPattern p = some n → '*' ∉ n →
      n.Sublist (rstripSlash (normalizePath p)) := fun n => pattern_sublist
  generalize rstripSlash (normalizePath p) = path at hsub ⊢
  generalize normalizeScopeMatchPattern p = found at hsub ⊢
  cases found with
  | none => simp
  | some n =>
    have hpart := hsub n rfl
    simp only [Option.some.injEq, exists_eq_left']
    constructor
    · intro h
      split at h
      · cases h
      rename_i hne
      split at h
      · cases h
      rename_i hin
      simp only [Bool.or_eq_true, decide_eq_true_eq, not_or, Bool.not_eq_true,
        List.isEmpty_eq_false_iff] at hne hin
      refine ⟨⟨hne.1, hin.1, hin.2⟩, ?_⟩
      split at h
      · rename_i halias
        rw [Bool.and_eq_true] at halias
        exact .readme halias.1 halias.2
      split at h
      · by_cases hstar : '*' ∈ n
        · obtain ⟨v, hv, hmatch⟩ := List.any_eq_true.mp h
          exact .star hstar v hv hmatch
        · rw [scopeGlobVariants_of_no_star hstar, List.any_cons, List.any_nil, Bool.or_false] at h
          -- what is matched is no longer than the pattern, and the pattern is a part of it
          obtain ⟨hle, hlt⟩ := fnmatchcase_length hstar h
          have hsame := (hpart hstar).eq_of_length_le hle
          refine .same hsame fun hclass => ?_
          have hshort := hlt hclass
          rw [hsame] at hshort
          exact Nat.lt_irrefl _ hshort
      rename_i hglob
      split at h
      · rename_i hsame
        exact .same hsame.symm fun hclass => hglob (hasGlob_of_class hclass)
      · rw [Bool.and_eq_true, List.isPrefixOf_iff_prefix] at h
        exact .below h.1 h.2
    · intro ⟨hin, h⟩
      have hnonempty := h.nonempty hin
      have hne : ¬(path.isEmpty || n.isEmpty) = true := by
        simp [hin.1, hnonempty]
      have hinside : ¬(path.head? = some '/' || "../".toList.isPrefixOf path) = true := by
        rw [hin.2.2]
        simpa using hin.2.1
      rw [if_neg hne, if_neg hinside]
      split
      · rfl
      rename_i halias
      cases h with
      | readme hpath hn => rw [hpath, hn] at halias; exact absurd rfl halias
      | same hsame hplain =>
        rw [hsame]
        split
        · rw [List.any_eq_true]
          exact ⟨path, mem_scopeGlobVariants path, fnmatchcase_self (hsame ▸ hplain)⟩
        · rw [if_pos rfl]
      | star hstar v hv hmatch =>
        rw [if_pos (hasGlob_of_star hstar), List.any_eq_true]
        exact ⟨v, hv, hmatch⟩
      | below hdir hbelow =>
        have hglob : hasGlob n = false := by
          unfold isExistingDirectoryScope at hdir
          cases root with
          | none => cases hdir
          | some isDir =>
            simp only [Bool.and_eq_true] at hdir
            simpa using hdir.1.1
        rw [hglob, if_neg Bool.false_ne_true]
        split
        · rfl
        · rw [hdir, List.isPrefixOf_iff_prefix.mpr hbelow]
          rfl

/-! ### Paths that are accepted as they stand -/

theorem count_star_replaceBackslash (t : List Char) :
    (replaceBackslash t).count '*' = t.count '*' := by
  induction t with
  | nil => rfl
  | cons c t ih =>
    have hcons : replaceBackslash (c :: t) =
        (if c = '\\' then '/' else c) :: replaceBackslash t := rfl
    rw [hcons, List.count_cons, List.count_cons, ih]
    by_cases hc : c = '\\'
    · rw [if_pos hc, hc]
      rfl
    · rw [if_neg hc]

theorem count_star_dropDotSlashes (t : List Char) : (dropDotSlashes t).count '*' = t.count '*' := by
  induction t using dropDotSlashes.induct with
  | case1 rest ih => rw [dropDotSlashes, ih]; simp
  | case2 t h => rw [dropDotSlashes.eq_2 t h]

theorem count_star_normalized (p : List Char) :
    (normalizePath (stripWrappingPunctuation p)).count '*' = p.count '*' := by
  obtain ⟨a₁, b₁, h₁, ha₁, hb₁⟩ := stripWhere_split isSpace p
  obtain ⟨a, b, h, ha, hb⟩ := unwrapped_split p
  have hnone {t : List Char} (ht : ∀ c ∈ t, c ≠ '*') : t.count '*' = 0 :=
    List.count_eq_zero.mpr fun hmem => ht '*' hmem rfl
  have hspace {t : List Char} (ht : ∀ c ∈ t, isSpace c = true) : t.count '*' = 0 := by
    refine hnone fun c hc heq => ?_
    have hc' := ht c hc
    rw [heq] at hc'
    exact absurd hc' (by decide)
  have hstrip := congrArg (List.count '*') h₁
  have hunwrap := congrArg (List.count '*') h
  simp only [List.count_append, hspace ha₁, hspace hb₁, Nat.zero_add, Nat.add_zero] at hstrip
  simp only [List.count_append, hnone fun c hc => (isFront_ne (ha c hc)).2.2,
    hnone fun c hc => (isBack_ne (hb c hc)).2.2, Nat.zero_add, Nat.add_zero] at hunwrap
  unfold normalizePath
  rw [count_star_dropDotSlashes, count_star_replaceBackslash, hstrip, hunwrap]

/-- A path that is accepted as it stands has nothing to normalise. -/
structure Verbatim (p : List Char) : Prop where
  path : rstripSlash (normalizePath p) = p
  inside : InsideRepo p
  pattern : normalizeScopeMatchPattern p = some p
  lastNoSlash : p.getLast? ≠ some '/'

theorem length_normalizePath (p : List Char) : (normalizePath p).length ≤ p.length := by
  obtain ⟨a, b, h, -, -⟩ := stripWhere_split isSpace p
  have hlength := congrArg List.length h
  rw [List.length_append, List.length_append] at hlength
  have hdrop := (dropDotSlashes_suffix (replaceBackslash (stripWhere isSpace p))).length_le
  have hmap : (replaceBackslash (stripWhere isSpace p)).length = (stripWhere isSpace p).length :=
    List.length_map _
  unfold normalizePath
  omega

theorem verbatim_of_accepted (h : normalizeRepoPathEntry p = some p) : Verbatim p := by
  obtain ⟨heq, hinside⟩ := normalizeRepoPathEntry_eq h
  have hcount := count_star_normalized p
  have hsub := normalized_sublist p
  generalize normalizePath (stripWrappingPunctuation p) = cleaned at heq hinside hcount hsub
  have hlast : cleaned.getLast? ≠ some '/' := by
    intro hlast
    -- the two stars that stand for everything below were not there before
    rw [heq, expandSlash, if_pos hlast] at hcount
    obtain ⟨slashes, hslashes, hsplit⟩ := rstripSlash_split cleaned
    have hnone : slashes.count '*' = 0 :=
      List.count_eq_zero.mpr fun hmem => absurd (hslashes '*' hmem) (by decide)
    have hcleaned := congrArg (List.count '*') hsplit
    rw [List.count_append, hnone] at hcleaned
    rw [List.count_append] at hcount
    have htwo : "/**".toList.count '*' = 2 := by decide
    omega
  have hsame : p = cleaned := by rw [heq, expandSlash, if_neg hlast]
  rw [← hsame] at hlast hinside hsub
  have hpath : normalizePath p = p :=
    (hsub.eq_of_length_le (length_normalizePath p)).symm
  refine ⟨?_, ?_, ?_, hlast⟩
  · rw [hpath, rstripSlash_eq hlast]
  · unfold outsideRepo at hinside
    simp only [Bool.or_eq_false_iff, List.isEmpty_eq_false_iff, beq_eq_false_iff_ne] at hinside
    exact ⟨hinside.1.1.1.1.1, hinside.1.1.1.1.2, hinside.1.1.1.2⟩
  · unfold normalizeScopeMatchPattern
    rw [h]

/-- **A path that is accepted as it stands is covered by the claim made of it exactly if it has
no class, or `*` makes up for that.** -/
theorem accepted_self_iff (root : Root) (h : normalizeRepoPathEntry p = some p) :
    scopePathMatchesPattern root p p = true ↔
      ¬HasClass p ∨ ('*' ∈ p ∧ ∃ v ∈ scopeGlobVariants p, fnmatchcase p v = true) := by
  have hp := verbatim_of_accepted h
  rw [scopePathMatchesPattern_self_iff, SelfCovered, hp.path, hp.pattern]
  constructor
  · intro ⟨_, n, hn, hcovers⟩
    cases hn
    cases hcovers with
    | readme hpath =>
      rw [isRootReadmeAlias_iff, hp.path] at hpath
      refine .inl fun hclass => ?_
      rcases hpath with rfl | rfl
      · exact absurd hclass.mem (by decide)
      · exact absurd hclass.mem (by decide)
    | same _ hplain => exact .inl hplain
    | star hstar v hv hmatch => exact .inr ⟨hstar, v, hv, hmatch⟩
    | below _ hbelow =>
      rw [rstripSlash_eq hp.lastNoSlash] at hbelow
      have hlength := hbelow.length_le
      rw [List.length_append, List.length_singleton] at hlength
      omega
  · intro h
    refine ⟨hp.inside, p, rfl, ?_⟩
    rcases h with hplain | ⟨hstar, v, hv, hmatch⟩
    · exact .same rfl hplain
    · exact .star hstar v hv hmatch

end AlysisCode.Scope
