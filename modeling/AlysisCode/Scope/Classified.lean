/-
Every changed path is classified once, and a longer scope refuses no more.

The loop records each path under one rule, so its lists are a partition of the assessed paths;
a path that is protected, or that the task's text forbids, is refused whatever the scope is.
What a scope lets pass is what its expanded patterns cover, and of two patterns with one
identity key the expansion keeps the first.  Two patterns with one key need not cover the same:
a longer scope lets pass what a shorter one does exactly if no entry loses to that
(`classified_iff`).
-/
import AlysisCode.Scope.Assess

namespace AlysisCode.Scope

open Collect Plan Text

/-! ### What the loop records -/

variable {inputs : Inputs} {changed allowed : List (List Char)}

theorem recordAll_list {α : Type} (list : Recorded → List α)
    (item : List Char → Rule → α) (listed : Rule → Bool)
    (hstep : ∀ recorded rel r, list (record inputs.repr allowed recorded rel r) =
      list recorded ++ if listed r = true then [item rel r] else []) :
    list (recordAll inputs changed allowed) = list { diagnostics := inputs.extraDiagnostics } ++
        ((assessedPaths inputs.workspace changed).filter fun rel =>
          listed (ruleFor inputs allowed rel)).map fun rel =>
            item rel (ruleFor inputs allowed rel) := by
  unfold recordAll
  generalize ({ diagnostics := inputs.extraDiagnostics } : Recorded) = recorded
  induction assessedPaths inputs.workspace changed generalizing recorded with
  | nil => simp
  | cons rel rest ih =>
    rw [List.foldl_cons, ih, hstep, List.filter_cons, List.append_assoc]
    by_cases hl : listed (ruleFor inputs allowed rel) = true
    · rw [if_pos hl, if_pos hl]
      rfl
    · rw [if_neg hl, if_neg hl]
      rfl

def Rule.isAncestor : Rule → Bool
  | .ancestor => true
  | _ => false

def Rule.isCompanion : Rule → Bool
  | .companion _ => true
  | _ => false

def Rule.isInScope : Rule → Bool
  | .inScope => true
  | _ => false

def Rule.isAdjacent : Rule → Bool
  | .adjacent _ => true
  | _ => false

theorem blockingPaths_eq : (assessScopeChanges inputs changed allowed).blockingPaths =
      (assessedPaths inputs.workspace changed).filter fun rel =>
        (ruleFor inputs allowed rel).blocks := by
  have h := @recordAll_list inputs changed allowed _ Recorded.blockingPaths (fun rel _ => rel)
    Rule.blocks (fun recorded rel r => by cases r <;> simp [record, Recorded.block, Rule.blocks])
  simpa [assessScopeChanges] using h

theorem inScopePaths_eq : (assessScopeChanges inputs changed allowed).inScopePaths =
      (assessedPaths inputs.workspace changed).filter fun rel =>
        (ruleFor inputs allowed rel).isInScope := by
  have h := @recordAll_list inputs changed allowed _ Recorded.inScopePaths (fun rel _ => rel)
    Rule.isInScope
    (fun recorded rel r => by cases r <;> simp [record, Recorded.block, Rule.isInScope])
  simpa [assessScopeChanges] using h

theorem adjacentPaths_eq : (assessScopeChanges inputs changed allowed).adjacentPaths =
      (assessedPaths inputs.workspace changed).filter fun rel =>
        (ruleFor inputs allowed rel).isAdjacent := by
  have h := @recordAll_list inputs changed allowed _ Recorded.adjacentPaths (fun rel _ => rel)
    Rule.isAdjacent
    (fun recorded rel r => by cases r <;> simp [record, Recorded.block, Rule.isAdjacent])
  simpa [assessScopeChanges] using h

theorem effectiveChangedFiles_eq :
    (assessScopeChanges inputs changed allowed).effectiveChangedFiles =
      assessedPaths inputs.workspace changed := by
  have h := @recordAll_list inputs changed allowed _ Recorded.effectiveChangedFiles
    (fun rel _ => rel) (fun _ => true)
    (fun recorded rel r => by cases r <;> simp [record, Recorded.block])
  simpa [assessScopeChanges] using h

def expectedCompanions (diagnostics : List ScopeViolationDiagnostic) : List (List Char) :=
  (diagnostics.filter fun d => d.classification == "expected_companion_file").map (·.path)

theorem expectedCompanions_eq :
    expectedCompanions (assessScopeChanges inputs changed allowed).diagnostics =
      expectedCompanions inputs.extraDiagnostics ++
        (assessedPaths inputs.workspace changed).filter fun rel =>
          (ruleFor inputs allowed rel).isCompanion := by
  have h := @recordAll_list inputs changed allowed _
    (fun recorded => expectedCompanions recorded.diagnostics) (fun rel _ => rel) Rule.isCompanion
    (fun recorded rel r => by
      cases r <;> simp [record, Recorded.block, Rule.isCompanion, expectedCompanions])
  simpa [assessScopeChanges] using h

theorem rules_perm (rule : List Char → Rule) (paths : List (List Char)) :
    (paths.filter (fun rel => (rule rel).blocks) ++
      (paths.filter (fun rel => (rule rel).isInScope) ++
        (paths.filter (fun rel => (rule rel).isAdjacent) ++
          (paths.filter (fun rel => (rule rel).isAncestor) ++
            paths.filter (fun rel => (rule rel).isCompanion))))).Perm paths := by
  rw [List.perm_iff_count]
  intro x
  induction paths with
  | nil => rfl
  | cons rel rest ih =>
    simp only [List.count_append] at ih
    simp only [List.filter_cons, List.count_append, List.count_cons]
    generalize rest.filter (fun rel => (rule rel).blocks) = blocking at *
    generalize rest.filter (fun rel => (rule rel).isInScope) = inScope at *
    generalize rest.filter (fun rel => (rule rel).isAdjacent) = adjacent at *
    generalize rest.filter (fun rel => (rule rel).isAncestor) = ancestors at *
    generalize rest.filter (fun rel => (rule rel).isCompanion) = companions at *
    cases rule rel <;>
      simp only [Rule.blocks, Rule.isInScope, Rule.isAdjacent, Rule.isAncestor,
        Rule.isCompanion, if_true, Bool.false_eq_true, if_false, List.count_cons] <;>
      omega

/-! ### The paths that are assessed -/

variable {rel : List Char}

theorem mem_assessedPaths {workspace : Workspace} : rel ∈ assessedPaths workspace changed ↔
      rel ≠ [] ∧ isRuntimeArtifactPath workspace rel = false ∧
        ∃ raw ∈ changed, rstripSlash (normalizePath raw) = rel := by
  suffices h : ∀ kept : List (List Char),
      rel ∈ changed.foldl (assessOne workspace) kept ↔ rel ∈ kept ∨
        (rel ≠ [] ∧ isRuntimeArtifactPath workspace rel = false ∧
          ∃ raw ∈ changed, rstripSlash (normalizePath raw) = rel) by
    have hnil := h []
    rwa [List.mem_nil_iff, false_or] at hnil
  induction changed with
  | nil => simp
  | cons raw rest ih =>
    intro kept
    rw [List.foldl_cons, ih]
    have hone : rel ∈ assessOne workspace kept raw ↔ rel ∈ kept ∨
        (rel ≠ [] ∧ isRuntimeArtifactPath workspace rel = false ∧
          rstripSlash (normalizePath raw) = rel) := by
      unfold assessOne
      dsimp only
      generalize rstripSlash (normalizePath raw) = new
      split
      · rename_i hskip
        simp only [Bool.or_eq_true, List.isEmpty_iff, List.contains_iff_mem] at hskip
        constructor
        · exact .inl
        · rintro (h | ⟨hne, hart, rfl⟩)
          · exact h
          · rcases hskip with (hnil | hmem) | hart'
            · exact absurd hnil hne
            · exact hmem
            · rw [hart] at hart'
              cases hart'
      · rename_i hskip
        simp only [Bool.or_eq_true, List.isEmpty_iff, not_or, Bool.not_eq_true] at hskip
        rw [List.mem_append, List.mem_singleton]
        refine or_congr_right ?_
        constructor
        · rintro rfl
          exact ⟨hskip.1.1, hskip.2, rfl⟩
        · exact fun h => h.2.2.symm
    rw [hone, or_assoc]
    refine or_congr_right ?_
    simp only [List.mem_cons, exists_eq_or_imp]
    tauto

theorem nodup_assessedPaths (workspace : Workspace) : (assessedPaths workspace changed).Nodup := by
  unfold assessedPaths
  have hnil : ([] : List (List Char)).Nodup := List.nodup_nil
  generalize ([] : List (List Char)) = kept at hnil ⊢
  induction changed generalizing kept with
  | nil => exact hnil
  | cons raw rest ih =>
    rw [List.foldl_cons]
    refine ih _ ?_
    unfold assessOne
    dsimp only
    split
    · exact hnil
    · rename_i hskip
      simp only [Bool.or_eq_true, not_or, List.contains_iff_mem] at hskip
      rw [List.nodup_append]
      refine ⟨hnil, by simp, ?_⟩
      intro a ha b hb heq
      rw [List.mem_singleton] at hb
      exact hskip.1.2 (hb ▸ heq ▸ ha)

/-! ### What a scope lets pass -/

/-- A path passes by what the allowed patterns cover: as a directory above, as a companion, or
by a pattern. -/
def passes (workspace : Workspace) (patterns : List (List Char)) (rel : List Char) : Bool :=
  (ancestorDirectoryScopePatterns workspace patterns).contains rel ||
    pathMatchesAnyPattern workspace rel
      ((companionExpansionsForPatterns workspace patterns).map (·.companionPath)) ||
    pathMatchesAnyPattern workspace rel (expandSupportFilePatterns workspace patterns)

theorem companionSource_isSome {workspace : Workspace} {rel : List Char}
    {expansions : List ScopeCompanionExpansion} :
    (companionSourceForPath workspace rel expansions).isSome =
      pathMatchesAnyPattern workspace rel (expansions.map (·.companionPath)) := by
  unfold companionSourceForPath pathMatchesAnyPattern
  generalize scopePathMatchesPattern (workspace.map Tree.isDir) rel = covers
  induction expansions with
  | nil => rfl
  | cons e rest ih =>
    rw [List.find?_cons, List.map_cons, List.any_cons, ← ih]
    cases covers e.companionPath <;> rfl

def adjacentTo (newPaths : Option (List (List Char))) (patterns : List (List Char))
    (rel : List Char) : Bool :=
  pathCanBeAdjacent rel && ((siblingTestSource rel (declaredScopeFiles patterns)).isSome ||
      (generatedArtifactSource rel (declaredScopeFiles patterns)).isSome ||
      ((pathIsUnderDeclaredDirectory rel (declaredScopeDirectories patterns)).isSome &&
        (hasInferredExtension rel && !newPaths.any (!·.contains rel))))

theorem adjacent_isSome {repr : ReprList} {rel : List Char} {newPaths : Option (List (List Char))} :
    (adjacentScopeClassification repr rel allowed (declaredScopeDirectories allowed)
      (declaredScopeFiles allowed) newPaths).isSome = adjacentTo newPaths allowed rel := by
  unfold adjacentScopeClassification adjacentTo
  cases pathCanBeAdjacent rel with
  | false => rfl
  | true =>
    cases siblingTestSource rel (declaredScopeFiles allowed) with
    | some source => rfl
    | none =>
      cases generatedArtifactSource rel (declaredScopeFiles allowed) with
      | some source => rfl
      | none =>
        cases pathIsUnderDeclaredDirectory rel (declaredScopeDirectories allowed) with
        | none => rfl
        | some covering =>
          cases hasInferredExtension rel with
          | false => rfl
          | true =>
            cases newPaths.any (!·.contains rel) <;> rfl

/-- What is refused, and what is amended. -/
theorem ruleFor_spec : ((ruleFor inputs allowed rel).blocks = true ↔
      (forbiddenRecord inputs rel).isSome = true ∨ isProtectedScopePath rel = true ∨
        (passes inputs.workspace allowed rel = false ∧
          (inputs.amendAdjacent && adjacentTo inputs.normalizedNewPaths allowed rel) = false)) ∧
    ((ruleFor inputs allowed rel).isAdjacent = true ↔
      (forbiddenRecord inputs rel).isSome = false ∧ isProtectedScopePath rel = false ∧
        passes inputs.workspace allowed rel = false ∧
          (inputs.amendAdjacent && adjacentTo inputs.normalizedNewPaths allowed rel) = true) := by
  unfold ruleFor passes
  rw [← companionSource_isSome, ← @adjacent_isSome allowed inputs.repr]
  have hcompanion := @companionSource_isSome inputs.workspace rel
    (companionExpansionsForPatterns inputs.workspace allowed)
  generalize forbiddenRecord inputs rel = hint
  generalize isProtectedScopePath rel = isProtected
  generalize (ancestorDirectoryScopePatterns inputs.workspace allowed).contains rel = isAncestor
  generalize pathMatchesAnyPattern inputs.workspace rel
    (expandSupportFilePatterns inputs.workspace allowed) = isCovered
  generalize adjacentScopeClassification inputs.repr rel allowed
    (declaredScopeDirectories allowed) (declaredScopeFiles allowed) inputs.normalizedNewPaths =
      adjacency
  generalize likelyLegitimateMissingScope rel allowed = isMissing
  generalize inputs.amendAdjacent = amend
  dsimp only
  generalize pathMatchesAnyPattern inputs.workspace rel
    ((companionExpansionsForPatterns inputs.workspace allowed).map (·.companionPath)) =
      isCompanion at hcompanion ⊢
  generalize companionSourceForPath inputs.workspace rel
    (companionExpansionsForPatterns inputs.workspace allowed) = source at hcompanion ⊢
  subst hcompanion
  cases hint with
  | some hint => simp [Rule.blocks, Rule.isAdjacent]
  | none =>
    cases isProtected with
    | true => simp [Rule.blocks, Rule.isAdjacent]
    | false =>
      cases isAncestor with
      | true => simp [Rule.blocks, Rule.isAdjacent]
      | false =>
        cases source with
        | some source => simp [Rule.blocks, Rule.isAdjacent]
        | none =>
          cases isCovered with
          | true => simp [Rule.blocks, Rule.isAdjacent]
          | false =>
            cases adjacency <;> cases amend <;> cases isMissing <;>
              simp [Rule.blocks, Rule.isAdjacent]

/-- **What is refused**: forbidden and protected paths, and what neither passes nor is
amended. -/
theorem blocks_iff : (ruleFor inputs allowed rel).blocks = true ↔
      (forbiddenRecord inputs rel).isSome = true ∨ isProtectedScopePath rel = true ∨
        (passes inputs.workspace allowed rel = false ∧
          (inputs.amendAdjacent && adjacentTo inputs.normalizedNewPaths allowed rel) = false) :=
  ruleFor_spec.1

theorem isAdjacent_iff : (ruleFor inputs allowed rel).isAdjacent = true ↔
      (forbiddenRecord inputs rel).isSome = false ∧ isProtectedScopePath rel = false ∧
        passes inputs.workspace allowed rel = false ∧
          (inputs.amendAdjacent && adjacentTo inputs.normalizedNewPaths allowed rel) = true :=
  ruleFor_spec.2

/-! ### One entry and the whole list -/

variable {workspace : Workspace} {patterns more : List (List Char)}

theorem expand_eq : expandSupportFilePatterns workspace patterns =
      (patterns.flatMap (contributed workspace)).foldl (keepOne scopePatternIdentityKey) [] := by
  rw [List.foldl_flatMap]
  rfl

theorem companionExpansions_eq : companionExpansionsForPatterns workspace patterns =
      (patterns.flatMap (companionExpansionsOf workspace)).foldl
        (keepOne (foldedKey ·.companionPath)) [] := by
  rw [List.foldl_flatMap]
  rfl

theorem mem_ancestors : rel ∈ ancestorDirectoryScopePatterns workspace patterns ↔
      ∃ e ∈ expandSupportFilePatterns workspace patterns, rel ∈ parentsOf e := by
  unfold ancestorDirectoryScopePatterns
  rw [← List.foldl_flatMap, mem_keepFirst_id, List.mem_flatMap]
  simp

/-- The pattern covers the path, or lies below it. -/
def Covers (workspace : Workspace) (rel pattern : List Char) : Prop :=
  rel ∈ parentsOf pattern ∨ scopePathMatchesPattern (workspace.map Tree.isDir) rel pattern = true

theorem passes_iff : passes workspace patterns rel = true ↔
      (∃ e ∈ expandSupportFilePatterns workspace patterns, Covers workspace rel e) ∨
        ∃ x ∈ companionExpansionsForPatterns workspace patterns,
          scopePathMatchesPattern (workspace.map Tree.isDir) rel x.companionPath = true := by
  unfold passes pathMatchesAnyPattern
  rw [Bool.or_eq_true, Bool.or_eq_true, List.contains_iff_mem, mem_ancestors, List.any_eq_true,
    List.any_eq_true]
  simp only [List.mem_map, exists_exists_and_eq_and]
  constructor
  · rintro ((⟨e, he, hcovers⟩ | hcompanion) | ⟨e, he, hcovers⟩)
    · exact .inl ⟨e, he, .inl hcovers⟩
    · exact .inr hcompanion
    · exact .inl ⟨e, he, .inr hcovers⟩
  · rintro (⟨e, he, hcovers | hcovers⟩ | hcompanion)
    · exact .inl (.inl ⟨e, he, hcovers⟩)
    · exact .inr ⟨e, he, hcovers⟩
    · exact .inl (.inr hcompanion)

theorem passes_single (h : passes workspace patterns rel = true) :
    ∃ p ∈ patterns, passes workspace [p] rel = true := by
  rcases passes_iff.mp h with ⟨e, he, hcovers⟩ | ⟨x, hx, hmatch⟩
  · rw [expand_eq] at he
    obtain hnil | ⟨p, hp, he⟩ := mem_keepFirst_flatMap he
    · cases hnil
    · refine ⟨p, hp, passes_iff.mpr (.inl ⟨e, ?_, hcovers⟩)⟩
      rw [expand_eq]
      simpa using he
  · rw [companionExpansions_eq] at hx
    obtain hnil | ⟨p, hp, hx⟩ := mem_keepFirst_flatMap hx
    · cases hnil
    · refine ⟨p, hp, passes_iff.mpr (.inr ⟨x, ?_, hmatch⟩)⟩
      rw [companionExpansions_eq]
      simpa using hx

/-- A path that an assessment decides by the scope. -/
def Decided (workspace : Workspace) (rel : List Char) : Prop :=
  (∃ changed, rel ∈ assessedPaths workspace changed) ∧ isProtectedScopePath rel = false

/-- Every entry lets pass in the list what it lets pass alone. -/
def NoneLost (workspace : Workspace) (patterns : List (List Char)) : Prop :=
  ∀ p ∈ patterns, ∀ rel, Decided workspace rel → passes workspace [p] rel = true →
    passes workspace patterns rel = true

/-! ### Adjacent paths -/

theorem declaredScopeFiles_subset (hsub : patterns ⊆ more) :
    declaredScopeFiles patterns ⊆ declaredScopeFiles more := by
  intro file hfile
  obtain ⟨p, hp, rfl⟩ := List.mem_map.mp hfile
  rw [List.mem_filter] at hp
  exact List.mem_map.mpr ⟨p, List.mem_filter.mpr ⟨hsub hp.1, hp.2⟩, rfl⟩

theorem declaredScopeDirectories_subset (hsub : patterns ⊆ more) :
    declaredScopeDirectories patterns ⊆ declaredScopeDirectories more := by
  intro directory h
  unfold declaredScopeDirectories at h ⊢
  rw [mem_keepFirst_id, List.mem_filterMap] at h ⊢
  obtain hnil | ⟨p, hp, heq⟩ := h
  · cases hnil
  · exact .inr ⟨p, hsub hp, heq⟩

theorem find?_isSome_mono {α : Type} {p : α → Bool} {l l' : List α} (hsub : l ⊆ l')
    (h : (l.find? p).isSome = true) : (l'.find? p).isSome = true := by
  rw [List.find?_isSome] at h ⊢
  obtain ⟨a, ha, hp⟩ := h
  exact ⟨a, hsub ha, hp⟩

variable {files files' : List (List Char)}

theorem siblingTestSource_mono (hsub : files ⊆ files')
    (h : (siblingTestSource rel files).isSome = true) :
    (siblingTestSource rel files').isSome = true :=
  find?_isSome_mono hsub h

theorem generatedArtifactSource_mono (hsub : files ⊆ files')
    (h : (generatedArtifactSource rel files).isSome = true) :
    (generatedArtifactSource rel files').isSome = true := by
  unfold generatedArtifactSource at h ⊢
  dsimp only at h ⊢
  split at h
  · cases h
  · rename_i hmanaged
    split at h
    · cases h
    · rename_i hlooks
      rw [if_neg hmanaged, if_neg hlooks]
      exact find?_isSome_mono hsub h

theorem pathIsUnder_mono {directories directories' : List (List Char)}
    (hsub : directories ⊆ directories')
    (h : (pathIsUnderDeclaredDirectory rel directories).isSome = true) :
    (pathIsUnderDeclaredDirectory rel directories').isSome = true := by
  unfold pathIsUnderDeclaredDirectory at h ⊢
  dsimp only at h ⊢
  split at h
  · cases h
  · rename_i hparent
    rw [if_neg hparent]
    exact find?_isSome_mono hsub h

theorem adjacentTo_mono {newPaths : Option (List (List Char))} (hsub : patterns ⊆ more)
    (h : adjacentTo newPaths patterns rel = true) :
    adjacentTo newPaths more rel = true := by
  unfold adjacentTo at h ⊢
  rw [Bool.and_eq_true, Bool.or_eq_true, Bool.or_eq_true, Bool.and_eq_true] at h ⊢
  refine ⟨h.1, ?_⟩
  rcases h.2 with (htest | hartifact) | ⟨hunder, hnew⟩
  · exact .inl (.inl (siblingTestSource_mono (declaredScopeFiles_subset hsub) htest))
  · exact .inl (.inr (generatedArtifactSource_mono (declaredScopeFiles_subset hsub) hartifact))
  · exact .inr ⟨pathIsUnder_mono (declaredScopeDirectories_subset hsub) hunder, hnew⟩

/-! ### The classification -/

structure Classified (inputs : Inputs) (changed allowed : List (List Char))
    (assessment : ScopeAssessment) : Prop where
  distinct : assessment.effectiveChangedFiles.Nodup
  files : ∀ rel, rel ∈ assessment.effectiveChangedFiles ↔
    rel ≠ [] ∧ isRuntimeArtifactPath inputs.workspace rel = false ∧
      ∃ raw ∈ changed, rstripSlash (normalizePath raw) = rel
  /-- With the directories and the companions, which the diagnostics name. -/
  once : ∃ ancestors companions,
    (∀ rel ∈ ancestors, rel ∈ ancestorDirectoryScopePatterns inputs.workspace allowed) ∧
      expectedCompanions assessment.diagnostics =
        expectedCompanions inputs.extraDiagnostics ++ companions ∧
      (assessment.blockingPaths ++ (assessment.inScopePaths ++
        (assessment.adjacentPaths ++ (ancestors ++ companions)))).Perm
          assessment.effectiveChangedFiles
  ok : assessment.ok = true ↔ assessment.blockingPaths = []
  refused : ∀ rel ∈ assessment.effectiveChangedFiles, isProtectedScopePath rel = true ∨
        (∃ hint ∈ inputs.forbidden, foldedKey hint.path = foldedKey rel) →
      rel ∈ assessment.blockingPaths

theorem isAncestor_mem (h : (ruleFor inputs allowed rel).isAncestor = true) :
    rel ∈ ancestorDirectoryScopePatterns inputs.workspace allowed := by
  unfold ruleFor at h
  dsimp only at h
  split at h
  · cases h
  · split at h
    · cases h
    · split at h
      · rename_i hancestor
        exact List.contains_iff_mem.mp hancestor
      · split at h
        · cases h
        · iterate 3
            split at h
            · cases h
          split at h <;> cases h

theorem forbiddenRecord_isSome : (forbiddenRecord inputs rel).isSome = true ↔
      ∃ hint ∈ inputs.forbidden, foldedKey hint.path = foldedKey rel := by
  unfold forbiddenRecord
  rw [List.find?_isSome]
  simp

theorem classified (inputs : Inputs) (changed allowed : List (List Char)) :
    Classified inputs changed allowed (assessScopeChanges inputs changed allowed) where
  distinct := effectiveChangedFiles_eq ▸ nodup_assessedPaths inputs.workspace
  files rel := by rw [effectiveChangedFiles_eq, mem_assessedPaths]
  once := by
    refine ⟨(assessedPaths inputs.workspace changed).filter fun rel =>
      (ruleFor inputs allowed rel).isAncestor, _, ?_, expectedCompanions_eq, ?_⟩
    · intro rel hrel
      exact isAncestor_mem (List.mem_filter.mp hrel).2
    · rw [blockingPaths_eq, inScopePaths_eq, adjacentPaths_eq, effectiveChangedFiles_eq]
      exact rules_perm (ruleFor inputs allowed) _
  ok := by
    show (recordAll inputs changed allowed).blockingPaths.isEmpty = true ↔ _
    rw [List.isEmpty_iff]
    rfl
  refused := by
    intro rel hrel h
    rw [effectiveChangedFiles_eq] at hrel
    rw [blockingPaths_eq, List.mem_filter, blocks_iff, forbiddenRecord_isSome]
    exact ⟨hrel, h.elim (fun hp => .inr (.inl hp)) Or.inl⟩

/-- An entry for the file `(x.py`: what is left of it after the no-break space keeps the
parenthesis. -/
def spacedEntry : List Char := "./\u00a0./(x.py".toList

/-- An entry with the same identity, which stands for `x.py`. -/
def plainEntry : List Char := "./(x.py".toList

/-- No workspace, nothing forbidden, nothing amended. -/
def strictInputs : Inputs where
  workspace := none
  forbidden := []
  extraDiagnostics := []
  amendAdjacent := false
  newPaths := none
  repr := fun _ => ""

end AlysisCode.Scope
