/-
Assessing again after the scope was amended.

A changed file next to the declared ones is amended into the scope under its own name, and the
next assessment has to find it there.  It does if the claim made of the file covers it, if no
entry has the same key and stands for another file, and if no file that was refused has become
adjacent to the longer scope without being covered by it (`Tidy`).  The first is what fails
for names with brackets in them.
-/
import AlysisCode.Scope.Classified
import AlysisCode.Scope.Reflexive

namespace AlysisCode.Scope

open Collect Glob Plan Text

variable {inputs : Inputs} {changed scope : List (List Char)}

/-! ### The amended scope -/

/-- The entries of a write scope, as `apply_scope_amendments` reads them. -/
def strippedEntries (scope : List (List Char)) : List (List Char) :=
  (scope.map (stripWhere isSpace)).filter (!·.isEmpty)

/-- The entry that an amendment for the file becomes. -/
def entryOf (rel : List Char) : List Char := rstripSlash (normalizePath rel)

/-- The write scope after the amendments of its own assessment. -/
def amendedScope (inputs : Inputs) (changed scope : List (List Char)) : List (List Char) :=
  (applyScopeAmendments scope (assessScopeChanges inputs changed scope).amendments).1

def adjacentFiles (inputs : Inputs) (changed scope : List (List Char)) : List (List Char) :=
  (assessedPaths inputs.workspace changed).filter fun rel =>
    (forbiddenRecord inputs rel).isNone && !isProtectedScopePath rel &&
      !passes inputs.workspace scope rel &&
        (inputs.amendAdjacent && adjacentTo inputs.normalizedNewPaths scope rel)

/-- The scope with an entry for every adjacent file. -/
def extendedScope (inputs : Inputs) (changed scope : List (List Char)) : List (List Char) :=
  strippedEntries scope ++ (adjacentFiles inputs changed scope).map entryOf

theorem adjacentPaths_eq_adjacentFiles : (assessScopeChanges inputs changed scope).adjacentPaths =
      adjacentFiles inputs changed scope := by
  rw [adjacentPaths_eq]
  refine List.filter_congr fun rel _ => ?_
  rw [Bool.eq_iff_iff, isAdjacent_iff]
  simp [and_assoc]

theorem amendments_eq : (assessScopeChanges inputs changed scope).amendments.map (·.pattern) =
      (assessScopeChanges inputs changed scope).adjacentPaths := by
  rw [adjacentPaths_eq]
  have h := @recordAll_list inputs changed scope _
    (fun recorded => recorded.amendments.map (·.pattern)) (fun rel _ => rel) Rule.isAdjacent
    (fun recorded rel r => by cases r <;> simp [record, Recorded.block, Rule.isAdjacent])
  simpa [assessScopeChanges] using h

theorem foldl_addAmendment {amendments : List ScopeAmendment} (existing added : List (List Char))
    (h : ∀ a ∈ amendments, entryOf a.pattern ≠ []) :
    (amendments.foldl addAmendment (existing, added)).1 =
        (amendments.map fun a => entryOf a.pattern).foldl (keepOne foldedKey) existing ∧
      ∃ new, (amendments.foldl addAmendment (existing, added)).2 = added ++ new ∧
        (amendments.foldl addAmendment (existing, added)).1 = existing ++ new := by
  induction amendments generalizing existing added with
  | nil => exact ⟨rfl, [], by simp, by simp⟩
  | cons a rest ih =>
    have hrest : ∀ b ∈ rest, entryOf b.pattern ≠ [] := fun b hb =>
      h b (List.mem_cons_of_mem a hb)
    have hempty : (entryOf a.pattern).isEmpty = false := by
      simpa using h a List.mem_cons_self
    rw [List.foldl_cons, List.map_cons, List.foldl_cons]
    by_cases hkey : foldedKey (entryOf a.pattern) ∈ existing.map foldedKey
    · have hstep : addAmendment (existing, added) a = (existing, added) := by
        show (if (entryOf a.pattern).isEmpty || (existing.map foldedKey).contains
          (foldedKey (entryOf a.pattern)) then _ else _) = _
        rw [hempty, List.contains_iff_mem.mpr hkey]
        rfl
      rw [hstep, keepOne, if_pos hkey]
      exact ih existing added hrest
    · have hstep : addAmendment (existing, added) a =
          (existing ++ [entryOf a.pattern], added ++ [entryOf a.pattern]) := by
        show (if (entryOf a.pattern).isEmpty || (existing.map foldedKey).contains
          (foldedKey (entryOf a.pattern)) then _ else _) = _
        have hnone : (existing.map foldedKey).contains (foldedKey (entryOf a.pattern)) = false := by
          simpa using hkey
        rw [hempty, hnone]
        rfl
      rw [hstep, keepOne, if_neg hkey]
      obtain ⟨hscope, new, hnew, hlonger⟩ := ih (existing ++ [entryOf a.pattern])
        (added ++ [entryOf a.pattern]) hrest
      refine ⟨hscope, entryOf a.pattern :: new, ?_, ?_⟩
      · rw [hnew, List.append_assoc, List.singleton_append]
      · rw [hlonger, List.append_assoc, List.singleton_append]

/-! ### Stripped entries -/

theorem normalizeRepoPathEntry_strip (e : List Char) :
    normalizeRepoPathEntry (stripWhere isSpace e) = normalizeRepoPathEntry e := by
  unfold normalizeRepoPathEntry stripWrappingPunctuation
  rw [(bare_stripWhere isSpace e).stripWhere_eq]

theorem flatMap_strippedEntries {α : Type} {f : List Char → List α} (hnil : f [] = [])
    (hstrip : ∀ e, f (stripWhere isSpace e) = f e) (scope : List (List Char)) :
    (strippedEntries scope).flatMap f = scope.flatMap f := by
  unfold strippedEntries
  induction scope with
  | nil => rfl
  | cons e rest ih =>
    rw [List.map_cons, List.filter_cons, List.flatMap_cons]
    by_cases he : stripWhere isSpace e = []
    · rw [if_neg (by simp [he]), ih, ← hstrip e, he, hnil, List.nil_append]
    · rw [if_pos (by simpa using he), List.flatMap_cons, ih, hstrip]

variable (workspace : Workspace)

theorem contributed_strip (e : List Char) :
    contributed workspace (stripWhere isSpace e) = contributed workspace e := by
  unfold contributed
  rw [normalizeRepoPathEntry_strip]

theorem companionExpansionsOf_strip (e : List Char) :
    companionExpansionsOf workspace (stripWhere isSpace e) = companionExpansionsOf workspace e := by
  unfold companionExpansionsOf
  rw [normalizeRepoPathEntry_strip]

theorem normalizeRepoPathEntry_nil : normalizeRepoPathEntry [] = none := by decide

variable {workspace}

theorem passes_congr {patterns patterns' : List (List Char)}
    (hpatterns : (patterns.flatMap (contributed workspace)).foldl
        (keepOne scopePatternIdentityKey) [] =
      (patterns'.flatMap (contributed workspace)).foldl (keepOne scopePatternIdentityKey) [])
    (hcompanions : (patterns.flatMap (companionExpansionsOf workspace)).foldl
        (keepOne (foldedKey ·.companionPath)) [] =
      (patterns'.flatMap (companionExpansionsOf workspace)).foldl
        (keepOne (foldedKey ·.companionPath)) []) (rel : List Char) :
    passes workspace patterns rel = passes workspace patterns' rel := by
  rw [← expand_eq, ← expand_eq] at hpatterns
  rw [← companionExpansions_eq, ← companionExpansions_eq] at hcompanions
  rw [Bool.eq_iff_iff, passes_iff, passes_iff, hpatterns, hcompanions]

theorem passes_strippedEntries (rel : List Char) :
    passes workspace (strippedEntries scope) rel = passes workspace scope rel := by
  have hcontributed : contributed workspace [] = [] := by
    unfold contributed
    rw [normalizeRepoPathEntry_nil]
  have hcompanions : companionExpansionsOf workspace [] = [] := by
    unfold companionExpansionsOf
    rw [normalizeRepoPathEntry_nil]
  refine passes_congr ?_ ?_ rel
  · rw [flatMap_strippedEntries hcontributed (contributed_strip workspace)]
  · rw [flatMap_strippedEntries hcompanions (companionExpansionsOf_strip workspace)]

variable {rel : List Char}

theorem passes_append {patterns : List (List Char)}
    (h : passes workspace patterns rel = true) (more : List (List Char)) :
    passes workspace (patterns ++ more) rel = true := by
  rw [passes_iff] at h ⊢
  refine h.imp ?_ ?_
  · intro ⟨e, he, hcovers⟩
    refine ⟨e, ?_, hcovers⟩
    rw [expand_eq] at he ⊢
    rw [List.flatMap_append, List.foldl_append]
    exact (starts_keepFirst _ _).subset he
  · intro ⟨x, hx, hmatch⟩
    refine ⟨x, ?_, hmatch⟩
    rw [companionExpansions_eq] at hx ⊢
    rw [List.flatMap_append, List.foldl_append]
    exact (starts_keepFirst _ _).subset hx

/-! ### A tidy change -/

/-- What has to hold of the adjacent files, and of those that were refused. -/
structure Tidy (inputs : Inputs) (changed scope : List (List Char)) : Prop where
  /-- What the claim made of an adjacent file contributes covers the file, also where the
  identity of the claim stands for another pattern. -/
  covered : ∀ rel ∈ adjacentFiles inputs changed scope,
    ∃ n, normalizeRepoPathEntry (entryOf rel) = some n ∧
      ∀ e ∈ (extendedScope inputs changed scope).flatMap (contributed inputs.workspace),
        scopePatternIdentityKey e = scopePatternIdentityKey n →
          scopePathMatchesPattern (inputs.workspace.map Tree.isDir) rel e = true
  /-- No other entry has the key of the claim. -/
  named : ∀ rel ∈ adjacentFiles inputs changed scope, ∀ e ∈ extendedScope inputs changed scope,
    foldedKey e = foldedKey (entryOf rel) → e = entryOf rel
  /-- A file that the scope neither covers nor is amended for is not adjacent to the longer
  scope, or is covered by it. -/
  refused : ∀ rel ∈ assessedPaths inputs.workspace changed,
    (forbiddenRecord inputs rel).isSome = false → isProtectedScopePath rel = false →
      passes inputs.workspace scope rel = false →
        adjacentTo inputs.normalizedNewPaths scope rel = false → inputs.amendAdjacent = true →
          adjacentTo inputs.normalizedNewPaths (extendedScope inputs changed scope) rel = true →
            passes inputs.workspace (extendedScope inputs changed scope) rel = true

structure Settled (inputs : Inputs) (changed scope : List (List Char)) : Prop where
  amendments : (assessScopeChanges inputs changed
    (amendedScope inputs changed scope)).amendments = []
  blocking : ∀ rel ∈ (assessScopeChanges inputs changed
      (amendedScope inputs changed scope)).blockingPaths,
    rel ∈ (assessScopeChanges inputs changed scope).blockingPaths
  ok : (assessScopeChanges inputs changed scope).ok = true →
    (assessScopeChanges inputs changed (amendedScope inputs changed scope)).ok = true

theorem entryOf_ne_nil {n : List Char} (h : normalizeRepoPathEntry (entryOf rel) = some n) :
    entryOf rel ≠ [] := by
  intro heq
  rw [heq, normalizeRepoPathEntry_nil] at h
  cases h

theorem amendedScope_cases (h : Tidy inputs changed scope) :
    (amendedScope inputs changed scope = scope ∧ ((adjacentFiles inputs changed scope).map entryOf ⊆
        strippedEntries scope)) ∨
      amendedScope inputs changed scope =
        ((adjacentFiles inputs changed scope).map entryOf).foldl (keepOne foldedKey)
          (strippedEntries scope) := by
  have hpatterns := @amendments_eq inputs changed scope
  rw [adjacentPaths_eq_adjacentFiles] at hpatterns
  have hentries : (assessScopeChanges inputs changed scope).amendments.map
      (fun a => entryOf a.pattern) = (adjacentFiles inputs changed scope).map entryOf := by
    rw [← hpatterns, List.map_map]
    rfl
  have hne : ∀ a ∈ (assessScopeChanges inputs changed scope).amendments,
      entryOf a.pattern ≠ [] := by
    intro a ha
    have hmem : a.pattern ∈ adjacentFiles inputs changed scope :=
      hpatterns ▸ List.mem_map_of_mem ha
    obtain ⟨n, hn, -⟩ := h.covered _ hmem
    exact entryOf_ne_nil hn
  obtain ⟨hscope, new, hnew, hlonger⟩ := foldl_addAmendment (strippedEntries scope) [] hne
  rw [hentries] at hscope
  have heq : amendedScope inputs changed scope =
      if ((assessScopeChanges inputs changed scope).amendments.foldl addAmendment
        (strippedEntries scope, [])).2.isEmpty then scope
      else ((assessScopeChanges inputs changed scope).amendments.foldl addAmendment
        (strippedEntries scope, [])).1 := rfl
  rw [heq]
  by_cases hempty : ((assessScopeChanges inputs changed scope).amendments.foldl addAmendment
      (strippedEntries scope, [])).2.isEmpty = true
  · rw [if_pos hempty]
    refine .inl ⟨rfl, ?_⟩
    have hnil : new = [] := by
      rw [hnew, List.nil_append] at hempty
      exact List.isEmpty_iff.mp hempty
    rw [hnil, List.append_nil] at hlonger
    rw [hlonger] at hscope
    have hall := @subset_keepFirst _ _ _ foldedKey (strippedEntries scope)
      ((adjacentFiles inputs changed scope).map entryOf) (by
        intro a ha b hb hkey
        obtain ⟨rel, hrel, rfl⟩ := List.mem_map.mp ha
        exact h.named rel hrel b hb hkey)
    rw [← hscope] at hall
    exact fun e he => hall (List.mem_append_right _ he)
  · rw [if_neg hempty]
    exact .inr hscope

/-- The longer scope, without what comes again. -/
def distinctScope (inputs : Inputs) (changed scope : List (List Char)) : List (List Char) :=
  ((adjacentFiles inputs changed scope).map entryOf).foldl (keepOne foldedKey)
    (strippedEntries scope)

theorem Tidy.named' (h : Tidy inputs changed scope) :
    ∀ a ∈ (adjacentFiles inputs changed scope).map entryOf,
      ∀ b ∈ strippedEntries scope ++ (adjacentFiles inputs changed scope).map entryOf,
        foldedKey b = foldedKey a → b = a := by
  intro a ha b hb hkey
  obtain ⟨rel, hrel, rfl⟩ := List.mem_map.mp ha
  exact h.named rel hrel b hb hkey

theorem passes_distinctScope (h : Tidy inputs changed scope) (rel : List Char) :
    passes inputs.workspace (distinctScope inputs changed scope) rel =
      passes inputs.workspace (extendedScope inputs changed scope) rel :=
  passes_congr (keepFirst_keepFirst h.named') (keepFirst_keepFirst h.named') rel

theorem adjacentTo_distinctScope {newPaths : Option (List (List Char))}
    (h : adjacentTo newPaths (distinctScope inputs changed scope) rel = true) :
    adjacentTo newPaths (extendedScope inputs changed scope) rel = true := by
  refine adjacentTo_mono (fun e he => ?_) h
  exact List.mem_append.mpr (mem_of_mem_keepFirst he)

theorem passes_extendedScope (h : Tidy inputs changed scope)
    (hrel : rel ∈ adjacentFiles inputs changed scope) :
    passes inputs.workspace (extendedScope inputs changed scope) rel = true := by
  obtain ⟨n, hn, hcovers⟩ := h.covered rel hrel
  have hentry : entryOf rel ∈ extendedScope inputs changed scope :=
    List.mem_append_right _ (List.mem_map_of_mem hrel)
  have hmem : n ∈ (extendedScope inputs changed scope).flatMap (contributed inputs.workspace) := by
    refine List.mem_flatMap.mpr ⟨entryOf rel, hentry, ?_⟩
    unfold contributed
    rw [hn]
    exact List.mem_cons_self
  obtain ⟨e, he, hkey⟩ := List.mem_map.mp
    (@key_mem_keepFirst _ _ _ scopePatternIdentityKey [] _ _ hmem)
  have he' := (mem_of_mem_keepFirst he).resolve_left List.not_mem_nil
  rw [← expand_eq] at he
  exact passes_iff.mpr (.inl ⟨e, he, .inr (hcovers e he' hkey)⟩)

theorem mem_adjacentFiles :
    rel ∈ adjacentFiles inputs changed scope ↔ rel ∈ assessedPaths inputs.workspace changed ∧
      (forbiddenRecord inputs rel).isSome = false ∧ isProtectedScopePath rel = false ∧
        passes inputs.workspace scope rel = false ∧
          (inputs.amendAdjacent && adjacentTo inputs.normalizedNewPaths scope rel) = true := by
  unfold adjacentFiles
  rw [List.mem_filter]
  simp [and_assoc]

theorem passes_extendedScope_of (changed : List (List Char))
    (h : passes inputs.workspace scope rel = true) :
    passes inputs.workspace (extendedScope inputs changed scope) rel = true := by
  refine passes_append ?_ _
  rw [passes_strippedEntries]
  exact h

theorem adjacentFiles_distinctScope (h : Tidy inputs changed scope) :
    adjacentFiles inputs changed (distinctScope inputs changed scope) = [] := by
  rw [List.eq_nil_iff_forall_not_mem]
  intro rel hrel
  obtain ⟨hassessed, hforbidden, hprotected, hnot, hadjacent⟩ := mem_adjacentFiles.mp hrel
  rw [passes_distinctScope h] at hnot
  rw [Bool.and_eq_true] at hadjacent
  have hnot' : passes inputs.workspace scope rel = false := by
    by_contra hpasses
    rw [passes_extendedScope_of changed (by simpa using hpasses)] at hnot
    cases hnot
  have hpasses : passes inputs.workspace (extendedScope inputs changed scope) rel = true := by
    by_cases hfirst : adjacentTo inputs.normalizedNewPaths scope rel = true
    · refine passes_extendedScope h (mem_adjacentFiles.mpr ?_)
      exact ⟨hassessed, hforbidden, hprotected, hnot', by rw [hadjacent.1, hfirst]; rfl⟩
    · exact h.refused rel hassessed hforbidden hprotected hnot' (by simpa using hfirst)
        hadjacent.1 (adjacentTo_distinctScope hadjacent.2)
  rw [hnot] at hpasses
  cases hpasses

theorem blocking_distinctScope (h : Tidy inputs changed scope)
    (hrel : rel ∈ (assessScopeChanges inputs changed
      (distinctScope inputs changed scope)).blockingPaths) :
    rel ∈ (assessScopeChanges inputs changed scope).blockingPaths := by
  rw [blockingPaths_eq, List.mem_filter, blocks_iff] at hrel ⊢
  refine ⟨hrel.1, ?_⟩
  rcases hrel.2 with hforbidden | hprotected | ⟨hnot, -⟩
  · exact .inl hforbidden
  · exact .inr (.inl hprotected)
  · rw [passes_distinctScope h] at hnot
    by_contra hpassed
    rw [not_or, not_or, not_and_or, Bool.not_eq_false, Bool.not_eq_false, Bool.not_eq_true,
      Bool.not_eq_true] at hpassed
    obtain ⟨hforbidden, hprotected, hpassed⟩ := hpassed
    have hpasses : passes inputs.workspace (extendedScope inputs changed scope) rel = true := by
      by_cases hfirst : passes inputs.workspace scope rel = true
      · exact passes_extendedScope_of changed hfirst
      · refine passes_extendedScope h (mem_adjacentFiles.mpr ?_)
        exact ⟨hrel.1, hforbidden, hprotected, by simpa using hfirst,
          hpassed.resolve_left hfirst⟩
    rw [hnot] at hpasses
    cases hpasses

/-- **The amendments of a tidy change settle its assessment.** -/
theorem settled_of_tidy (h : Tidy inputs changed scope) : Settled inputs changed scope := by
  have hok {a b : ScopeAssessment} (hsub : ∀ rel ∈ b.blockingPaths, rel ∈ a.blockingPaths)
      (ha : a.ok = a.blockingPaths.isEmpty) (hb : b.ok = b.blockingPaths.isEmpty)
      (h : a.ok = true) : b.ok = true := by
    rw [ha, List.isEmpty_iff] at h
    rw [hb, List.isEmpty_iff, List.eq_nil_iff_forall_not_mem]
    intro rel hrel
    have hmem := hsub rel hrel
    rw [h] at hmem
    cases hmem
  have hnone {patterns : List (List Char)} (hnil : adjacentFiles inputs changed patterns = []) :
      (assessScopeChanges inputs changed patterns).amendments = [] := by
    have hmap := @amendments_eq inputs changed patterns
    rw [adjacentPaths_eq_adjacentFiles, hnil] at hmap
    exact List.map_eq_nil_iff.mp hmap
  rcases amendedScope_cases h with ⟨hsame, hentries⟩ | hlonger
  · -- every claim was there, so no file was adjacent
    have hdistinct : distinctScope inputs changed scope = strippedEntries scope :=
      keepFirst_eq fun e he => List.mem_map_of_mem (hentries he)
    have hnil : adjacentFiles inputs changed scope = [] := by
      rw [List.eq_nil_iff_forall_not_mem]
      intro rel hrel
      have hpasses := passes_extendedScope h hrel
      rw [← passes_distinctScope h, hdistinct, passes_strippedEntries,
        (mem_adjacentFiles.mp hrel).2.2.2.1] at hpasses
      cases hpasses
    constructor
    · rw [hsame]
      exact hnone hnil
    · rw [hsame]
      exact fun rel hrel => hrel
    · rw [hsame]
      exact fun h => h
  · change amendedScope inputs changed scope = distinctScope inputs changed scope at hlonger
    constructor
    · rw [hlonger]
      exact hnone (adjacentFiles_distinctScope h)
    · rw [hlonger]
      exact fun rel hrel => blocking_distinctScope h hrel
    · rw [hlonger]
      exact hok (fun rel hrel => blocking_distinctScope h hrel) rfl rfl

/-- **A claim covers its own path exactly if no class is read in it, and amendments of a tidy
change settle it.** -/
theorem scope_self_iff (root : Root) (p : List Char) (inputs : Inputs)
    (changed scope : List (List Char)) :
    (normalizeRepoPathEntry p = some p → (scopePathMatchesPattern root p p = true ↔
        ¬HasClass p ∨ ('*' ∈ p ∧ ∃ v ∈ scopeGlobVariants p, fnmatchcase p v = true))) ∧
    (scopePathMatchesPattern root p p = true ↔ SelfCovered root p) ∧
    (Tidy inputs changed scope → Settled inputs changed scope) :=
  ⟨accepted_self_iff root, scopePathMatchesPattern_self_iff root p, settled_of_tidy⟩

/-- No workspace, nothing forbidden, adjacent files amended. -/
def amendingInputs : Inputs := { strictInputs with amendAdjacent := true }

/-- A route of a file-system router, and a scope it is adjacent to. -/
def routingName : List Char := "app/[id]/page.tsx".toList

def routingScope : List (List Char) := ["app/layout.tsx".toList]

theorem routingName_not_covered : (normalizeRepoPathEntry routingName = some routingName ∧
      scopePathMatchesPattern none routingName routingName = false) ∧
    ¬Settled amendingInputs [routingName] routingScope := by
  refine ⟨by decide +kernel, fun h => ?_⟩
  have hmore : (assessScopeChanges amendingInputs [routingName]
      (amendedScope amendingInputs [routingName] routingScope)).amendments.isEmpty = false := by
    decide +kernel
  rw [h.amendments] at hmore
  cases hmore

def newFile : List Char := "src/new.py".toList

def newFileScope : List (List Char) := ["src/app.py".toList]

theorem newFile_tidy : Tidy amendingInputs [newFile] newFileScope := by
  constructor
  · have hadjacent : adjacentFiles amendingInputs [newFile] newFileScope = [newFile] := by
      decide +kernel
    rw [hadjacent]
    intro rel hrel
    rw [List.mem_singleton] at hrel
    subst hrel
    exact ⟨newFile, by decide +kernel, by decide +kernel⟩
  · decide +kernel
  · decide +kernel

theorem scope_self_newFile : (scopePathMatchesPattern none newFile newFile = true ↔
      ¬HasClass newFile ∨ ('*' ∈ newFile ∧
        ∃ v ∈ scopeGlobVariants newFile, fnmatchcase newFile v = true)) ∧
    Settled amendingInputs [newFile] newFileScope := by
  obtain ⟨hself, -, hsettled⟩ := scope_self_iff none newFile amendingInputs [newFile] newFileScope
  exact ⟨hself (by decide +kernel), hsettled newFile_tidy⟩

end AlysisCode.Scope
