/-
A session grant is exact.

The scope that is reported for a request is one of four shapes, and `Exact` says which and
what was checked of it.  Its key is a JSON text, so requests with one key have one scope; its
fingerprint is the hash of that text.  The adapter, for its part, accepts the shapes of
commands, files and verifications, when the kind can be kept, and none of a safe kind: it asks
for a member that the reported scope does not have.
-/
import AlysisCode.Approval.Grants

namespace AlysisCode.Approval

open Permission Runs Text

variable {F : Type} [Json.Floats F] {host : Host F} {request : ApprovalRequest F}

/-! ### What is reported -/

inductive Exact (host : Host F) (request : ApprovalRequest F) : List (String × Json F) → Prop
  | command {commandHash : String} (hkind : isCommandLikeKind request.scopeKind = true)
      (hhash : matchesSha256 commandHash = true)
      (hcommand : ∀ command ∈ request.command, host.sha256 command = commandHash) :
      Exact host request (commandHashMembers request.scopeKind commandHash)
  | files {operation filesHash : String} (hkind : request.scopeKind ∈ fileScopeKinds)
      (hhash : matchesSha256 filesHash = true) (hfiles : normalizeFiles request.files ≠ []) :
      Exact host request
        (fileSetMembers request.scopeKind operation filesHash (normalizeFiles request.files))
  | verify {commandsHash : String} {commandCount : Int} (hkind : request.scopeKind = "verify_run")
      (hhash : matchesSha256 commandsHash = true) :
      Exact host request (verifyCommandSetMembers request.scopeKind commandsHash commandCount)
  | safeKind (hcommand : isCommandLikeKind request.scopeKind = false)
      (hverify : request.scopeKind ≠ "verify_run") (hfile : request.scopeKind ∉ fileScopeKinds) :
      Exact host request (safeKindMembers request.scopeKind request.scopeKind)

variable {a : ApprovalSessionScope F} {rawScope : List (String × Json F)} {kind : String}
  {g : SessionPermissionGrant} {grants grants' : List SessionPermissionGrant}

theorem exact_of_commandHashScope (hkind : isCommandLikeKind request.scopeKind = true)
    (h : commandHashScope host request.scopeKind rawScope request.command = a)
    (hs : a.supported = true) : ∃ scope, Exact host request scope ∧ a = supported scope := by
  subst h
  unfold commandHashScope at hs ⊢
  dsimp only at hs ⊢
  split_ifs at hs ⊢ with hhash hcommand
  · cases hs
  · refine ⟨_, .command hkind hhash ?_, rfl⟩
    intro command hc
    rw [Option.mem_def.mp hc] at hcommand
    simpa using hcommand
  · cases hs

theorem exact_of_fileSetScope (hkind : request.scopeKind ∈ fileScopeKinds)
    (h : fileSetScope host request.scopeKind rawScope request.files = a) (hs : a.supported = true) :
    ∃ scope, Exact host request scope ∧ a = supported scope := by
  subst h
  unfold fileSetScope at hs ⊢
  dsimp only at hs ⊢
  split_ifs at hs ⊢ with hhash hfiles hmatch
  · cases hs
  · cases hs
  · exact ⟨_, .files hkind hhash hfiles, rfl⟩
  · cases hs

theorem exact_of_verifyCommandSetScope (hkind : request.scopeKind = "verify_run")
    (h : verifyCommandSetScope host request.scopeKind rawScope = .ok a) (hs : a.supported = true) :
    ∃ scope, Exact host request scope ∧ a = supported scope := by
  unfold verifyCommandSetScope at h
  dsimp only at h
  split_ifs at h with hhash
  · split at h
    · cases h
    · cases h
      cases hs
    · cases h
      exact ⟨_, .verify hkind hhash, rfl⟩
  · cases h
    cases hs

theorem exact_of_safeKindScope (hcommand : isCommandLikeKind request.scopeKind = false)
    (hverify : request.scopeKind ≠ "verify_run") (hfile : request.scopeKind ∉ fileScopeKinds)
    (h : explicitBackendSafeKindScope host request.scopeKind rawScope = a) (hs : a.supported = true) :
    ∃ scope, Exact host request scope ∧ a = supported scope := by
  subst h
  unfold explicitBackendSafeKindScope at hs ⊢
  dsimp only at hs ⊢
  split at hs
  · split_ifs at hs with hkind
    · cases hs
    · rw [if_neg hkind]
      have heq := not_ne_iff.mp hkind
      rw [heq]
      exact ⟨_, .safeKind hcommand hverify hfile, rfl⟩
  · cases hs

theorem requiredScope_cases (kind : String) :
    (isCommandLikeKind kind = true ∧ (requiredScope kind).1 = scopeExactCommandHash) ∨
    (kind = "verify_run" ∧ (requiredScope kind).1 = scopeExactVerifyCommandSet) ∨
    (kind ∈ fileScopeKinds ∧ (requiredScope kind).1 = scopeExactFileSet) ∨
    (isCommandLikeKind kind = false ∧ kind ≠ "verify_run" ∧ kind ∉ fileScopeKinds) ∧
      (requiredScope kind).1 = scopeExplicitBackendSafeKind := by
  unfold requiredScope
  split_ifs with hcommand hverify hfile
  · exact .inl ⟨hcommand, rfl⟩
  · exact .inr (.inl ⟨hverify, rfl⟩)
  · exact .inr (.inr (.inl ⟨by simpa using hfile, rfl⟩))
  · exact .inr (.inr (.inr ⟨⟨by simpa using hcommand, hverify, by simpa using hfile⟩, rfl⟩))

/-- **What is reported as supported is exact.** -/
theorem exact_of_report (h : approvalSessionScopeForRequest host request = .ok a)
    (hs : a.supported = true) :
    ∃ scope, Exact host request scope ∧ a = supported scope := by
  unfold approvalSessionScopeForRequest at h
  split at h
  · cases h
    cases hs
  rename_i rawScope _
  by_cases htype : supportedApprovalScopes.contains (strip (host.text (host.orElse
      (host.orElse (Json.get rawScope "type") (Json.get rawScope "scope_type")) (.str "")))) = true
  swap
  · rw [if_pos htype] at h
    cases h
    cases hs
  rw [if_neg (not_not.mpr htype)] at h
  split at h
  · cases h
    cases hs
  rename_i hrequired
  rw [not_ne_iff.mp hrequired] at h
  rcases requiredScope_cases request.scopeKind with ⟨hkind, heq⟩ | ⟨hkind, heq⟩ | ⟨hkind, heq⟩ |
    ⟨⟨hcommand, hverify, hfile⟩, heq⟩
  · rw [heq, if_pos rfl] at h
    exact exact_of_commandHashScope hkind (Except.ok.inj h) hs
  · rw [heq, if_neg (by decide), if_neg (by decide), if_pos rfl] at h
    exact exact_of_verifyCommandSetScope hkind h hs
  · rw [heq, if_neg (by decide), if_pos rfl] at h
    exact exact_of_fileSetScope hkind (Except.ok.inj h) hs
  · rw [heq, if_neg (by decide), if_neg (by decide), if_neg (by decide)] at h
    exact exact_of_safeKindScope hcommand hverify hfile (Except.ok.inj h) hs

/-! ### Its key -/

theorem plain_of_exact {scope : List (String × Json F)} (h : Exact host request scope) :
    Json.Plain scope := by
  cases h with
  | command =>
    refine ⟨by simp [commandHashMembers], ?_⟩
    simp [commandHashMembers, Json.PlainValue.str]
  | files =>
    refine ⟨by simp [fileSetMembers], ?_⟩
    simp [fileSetMembers, Json.PlainValue.str, Json.PlainValue.int, Json.PlainValue.texts]
  | verify =>
    refine ⟨by simp [verifyCommandSetMembers], ?_⟩
    simp [verifyCommandSetMembers, Json.PlainValue.str, Json.PlainValue.int]
  | safeKind =>
    refine ⟨by simp [safeKindMembers], ?_⟩
    simp [safeKindMembers, Json.PlainValue.str]

/-- The texts differ and have one hash. -/
def Collide (host : Host F) (s t : String) : Prop := s ≠ t ∧ host.sha256 s = host.sha256 t

/-- Two requests ask for the same: for files, the same normalised set of them; for a command,
the same command, unless their hashes collide. -/
structure SameOperation (host : Host F) (request request' : ApprovalRequest F) : Prop where
  kind : request.scopeKind = request'.scopeKind
  files : request.scopeKind ∈ fileScopeKinds →
    normalizeFiles request.files = normalizeFiles request'.files
  command : isCommandLikeKind request.scopeKind = true →
    ∀ command ∈ request.command, ∀ command' ∈ request'.command,
      command = command' ∨ Collide host command command'

theorem not_commandLike_of_file (h : kind ∈ fileScopeKinds) : isCommandLikeKind kind = false := by
  have hall : ∀ kind ∈ fileScopeKinds, isCommandLikeKind kind = false := by decide
  exact hall kind h

variable {request' : ApprovalRequest F}
  {trace : List (Call F × Except PermissionPolicyError Answer)} {scope' : List (String × Json F)}
  {source : String}

omit [Json.Floats F] in
theorem exact_eq_of_get {scope : List (String × Json F)} (h : Exact host request scope)
    (h' : Exact host request' scope') (hget : ∀ key, Json.get scope key = Json.get scope' key) :
    scope = scope' ∧ SameOperation host request request' := by
  have htype := hget "type"
  have hkind := hget "kind"
  cases h with
  | command hlike _ hcommand =>
    cases h' with
    | command _ _ hcommand' =>
      have heq := Json.str.inj hkind
      obtain rfl := Json.str.inj (hget "command_hash")
      refine ⟨by rw [heq], heq, ?_, ?_⟩
      · intro hfile
        rw [not_commandLike_of_file hfile] at hlike
        cases hlike
      · intro _ command hc command' hc'
        by_cases hne : command = command'
        · exact .inl hne
        · exact .inr ⟨hne, by rw [hcommand command hc, hcommand' command' hc']⟩
    | files | verify | safeKind => exact absurd (Json.str.inj htype) (by decide)
  | files hfile _ _ =>
    cases h' with
    | files =>
      have heq := Json.str.inj hkind
      have hfiles : (normalizeFiles request.files).map (Json.str (F := F)) =
          (normalizeFiles request'.files).map .str := Json.arr.inj (hget "files")
      rw [List.map_inj_right fun _ _ => Json.str.inj] at hfiles
      rw [Json.str.inj (hget "operation"), Json.str.inj (hget "files_hash"), heq, hfiles]
      refine ⟨rfl, heq, fun _ => hfiles, ?_⟩
      intro hlike
      rw [not_commandLike_of_file hfile] at hlike
      cases hlike
    | command | verify | safeKind => exact absurd (Json.str.inj htype) (by decide)
  | verify hverify _ =>
    cases h' with
    | verify =>
      have heq := Json.str.inj hkind
      rw [Json.str.inj (hget "commands_hash"), Json.int.inj (hget "command_count"), heq]
      refine ⟨rfl, heq, ?_, ?_⟩
      · intro hfile
        exact absurd (hverify ▸ hfile) (by decide)
      · intro hlike
        exact absurd (hverify ▸ hlike) (by decide)
    | command | files | safeKind => exact absurd (Json.str.inj htype) (by decide)
  | safeKind hlike _ hfile =>
    cases h' with
    | safeKind =>
      have heq := Json.str.inj hkind
      refine ⟨by rw [heq], heq, fun h => absurd h hfile, ?_⟩
      intro h
      rw [hlike] at h
      cases h
    | command | files | verify => exact absurd (Json.str.inj htype) (by decide)

/-- **Requests with one key have one scope, and ask for the same.** -/
theorem exact_eq_of_key_eq {scope : List (String × Json F)} (h : Exact host request scope)
    (h' : Exact host request' scope') (hkey : (supported scope).key = (supported scope').key) :
    scope = scope' ∧ SameOperation host request request' := by
  have hperm := Json.Plain.perm_of_dumps_eq rfl (plain_of_exact h) (plain_of_exact h')
    (Option.some.inj hkey)
  exact exact_eq_of_get h h' fun key => Json.get_of_perm hperm (plain_of_exact h).keys key

/-! ### What the adapter accepts -/

/-- The kinds whose scopes are hashes of what they stand for. -/
def HasHash (kind : String) : Prop :=
  isCommandLikeKind kind = true ∨ kind = "verify_run" ∨ kind ∈ fileScopeKinds

def FitsGrant (kind : String) : Prop :=
  (casefold (stripWhere isSpace kind.toList)).length ≤ maxSourceLength ∧
    ∀ c ∈ casefold (stripWhere isSpace kind.toList), isControl c = false

theorem FitsGrant.of_validateKind {normalized : List Char} (h : validateKind kind = .ok normalized) :
    FitsGrant kind ∧ normalized = casefold (stripWhere isSpace kind.toList) := by
  unfold validateKind at h
  obtain ⟨hvalid, heq⟩ := guard_eq_ok.mp h
  simp only [Bool.or_eq_true, decide_eq_true_eq, List.any_eq_true, not_or, not_exists, not_and,
    not_lt, Bool.not_eq_true] at hvalid
  exact ⟨⟨hvalid.1.2, hvalid.2⟩, (Except.ok.inj heq).symm⟩

theorem HasHash.head (h : HasHash kind) :
    ∃ c ∈ kind.toList.head?, isSpace c = false ∧ casefoldChar c ≠ [] := by
  have hnamed : ∀ kind ∈ "verify_run" :: (commandScopeKinds ++ fileScopeKinds),
      ∃ c ∈ kind.toList.head?, isSpace c = false ∧ casefoldChar c ≠ [] := by decide
  have hprefix {start : List Char} (hstart : start.isPrefixOf kind.toList = true)
      (hc : ∃ c ∈ start.head?, isSpace c = false ∧ casefoldChar c ≠ []) :
      ∃ c ∈ kind.toList.head?, isSpace c = false ∧ casefoldChar c ≠ [] := by
    obtain ⟨c, hmem, hkept⟩ := hc
    obtain ⟨rest, hrest⟩ := List.isPrefixOf_iff_prefix.mp hstart
    refine ⟨c, ?_, hkept⟩
    rw [← hrest, List.head?_append, Option.mem_def.mp hmem]
    rfl
  rcases h with hcommand | hverify | hfile
  · simp only [isCommandLikeKind, Bool.or_eq_true, List.contains_iff_mem] at hcommand
    rcases hcommand with ((hnames | hcustom) | hmcp) | hmcp
    · exact hnamed kind (List.mem_cons_of_mem _ (List.mem_append_left _ hnames))
    · exact hprefix hcustom (by decide)
    · exact hprefix hmcp (by decide)
    · exact hprefix hmcp (by decide)
  · exact hverify ▸ hnamed "verify_run" List.mem_cons_self
  · exact hnamed kind (List.mem_cons_of_mem _ (List.mem_append_right _ hfile))

theorem HasHash.validateKind_eq (h : HasHash kind) (hfits : FitsGrant kind) :
    validateKind kind = .ok (casefold (stripWhere isSpace kind.toList)) := by
  obtain ⟨c, hc, hspace, hfold⟩ := h.head
  obtain ⟨t, ht⟩ := List.head?_eq_some_iff.mp hc
  have hne : casefold (stripWhere isSpace kind.toList) ≠ [] := by
    rw [ht, stripWhere_cons hspace, casefold, List.flatMap_cons]
    exact List.append_ne_nil_of_left_ne_nil hfold _
  have hcontrol := hfits.2
  unfold validateKind
  refine if_neg ?_
  simp only [Bool.or_eq_true, List.isEmpty_iff, decide_eq_true_eq, List.any_eq_true, not_or,
    not_exists, not_and, not_lt, Bool.not_eq_true]
  exact ⟨⟨hne, hfits.1⟩, hcontrol⟩

/-! ### Its fingerprint -/

omit [Json.Floats F] in
theorem scopeKind_ne_empty (request : ApprovalRequest F) : request.scopeKind ≠ "" := by
  unfold ApprovalRequest.scopeKind
  split
  · decide
  · assumption

theorem ne_empty_of_matches {hash : String} (h : matchesSha256 hash = true) : hash ≠ "" := by
  rintro rfl
  cases h

omit [Json.Floats F] in
theorem field_eq {scope : List (String × Json F)} {key s : String}
    (h : Json.get scope key = .str s) (hs : s ≠ "") : field host scope key = s := by
  rw [field, h, host.orElse_str hs]
  rfl

omit [Json.Floats F] in
theorem get_kind {scope : List (String × Json F)} (h : Exact host request scope) :
    Json.get scope "kind" = .str request.scopeKind := by
  cases h with
  | command | files | verify | safeKind => rfl

omit [Json.Floats F] in
theorem field_kind {scope : List (String × Json F)} (h : Exact host request scope) :
    field host scope "kind" = request.scopeKind :=
  field_eq (get_kind h) (scopeKind_ne_empty request)

omit [Json.Floats F] in
theorem validScope_iff {scope : List (String × Json F)} (h : Exact host request scope) :
    validScope host scope = true ↔ HasHash request.scopeKind := by
  unfold validScope
  cases h with
  | command hkind hhash _ =>
    rw [field_eq (s := scopeExactCommandHash) rfl (by decide), if_neg (by decide), if_pos (by decide),
      field_eq rfl (ne_empty_of_matches hhash)]
    exact iff_of_true hhash (.inl hkind)
  | files hkind hhash hfiles =>
    have hvalid : (!((normalizeFiles request.files).map (Json.str (F := F))).isEmpty) = true := by
      simpa using hfiles
    rw [field_eq (s := scopeExactFileSet) rfl (by decide), if_neg (by decide),
      if_neg (by decide), if_pos (by decide), field_eq rfl (ne_empty_of_matches hhash)]
    exact iff_of_true (Bool.and_eq_true_iff.mpr ⟨hhash, hvalid⟩) (.inr (.inr hkind))
  | verify hkind hhash =>
    rw [field_eq (s := scopeExactVerifyCommandSet) rfl (by decide), if_neg (by decide),
      if_neg (by decide), if_neg (by decide), if_pos (by decide),
      field_eq rfl (ne_empty_of_matches hhash)]
    exact iff_of_true hhash (.inr (.inl hkind))
  | safeKind hcommand hverify hfile =>
    rw [field_eq (s := scopeExplicitBackendSafeKind) rfl (by decide), if_neg (by decide),
      if_neg (by decide), if_neg (by decide), if_neg (by decide)]
    refine iff_of_false Bool.false_ne_true ?_
    rintro (h | h | h)
    · rw [hcommand] at h
      cases h
    · exact hverify h
    · exact hfile h

theorem fingerprint_of_exact {scope : List (String × Json F)} (h : Exact host request scope)
    (hhash : HasHash request.scopeKind) :
    validatedScopeFingerprint host scope =
      .ok (field host scope "type", host.sha256 (Json.dumps canonical (.obj scope))) :=
  if_pos ((validScope_iff h).mpr hhash)

/-! ### Granting and evaluating -/

theorem grant_ok {hex : String} {scope : List (String × Json F)}
    (h : grant host hex kind scope source grants = .ok (g, grants')) :
    validScope host scope = true ∧ FitsGrant kind ∧ g ∈ grants' ∧
      g.kind = String.ofList (casefold (stripWhere isSpace kind.toList)) ∧
      g.scopeFingerprint = host.sha256 (Json.dumps canonical (.obj scope)) ∧
      grants ⊆ grants' ∧ ∀ g' ∈ grants', g' ∈ grants ∨ g' = g := by
  unfold grant at h
  obtain ⟨normalized, hkind, h⟩ := bind_eq_ok.mp h
  obtain ⟨fingerprint, hscope, h⟩ := bind_eq_ok.mp h
  obtain ⟨-, h⟩ := guard_eq_ok.mp h
  obtain ⟨normalizedSource, -, h⟩ := bind_eq_ok.mp h
  obtain ⟨hfits, rfl⟩ := FitsGrant.of_validateKind hkind
  have hvalid : validScope host scope = true := by
    by_contra hnot
    rw [validatedScopeFingerprint, if_neg hnot] at hscope
    cases hscope
  rw [validatedScopeFingerprint, if_pos hvalid] at hscope
  cases hscope
  refine ⟨hvalid, hfits, ?_⟩
  split at h
  · rename_i found hfound
    cases h
    have hmatch := List.find?_some hfound
    rw [Bool.and_eq_true, beq_iff_eq, beq_iff_eq] at hmatch
    exact ⟨List.mem_of_find?_eq_some hfound, hmatch.1, hmatch.2, List.Subset.refl grants,
      fun g' hg' => .inl hg'⟩
  · cases h
    refine ⟨by simp, rfl, rfl, List.subset_append_left grants _, ?_⟩
    intro g' hg'
    simpa using hg'

theorem grant_of_exact {scope : List (String × Json F)} (h : Exact host request scope)
    (hhash : HasHash request.scopeKind) (hfits : FitsGrant request.scopeKind)
    (hsource : (validateSource (.str source : Json F)).isOk = true) (hex : String)
    (grants : List SessionPermissionGrant) :
    ∃ g grants', grant host hex request.scopeKind scope source grants = .ok (g, grants') := by
  obtain ⟨normalizedSource, hnormalized⟩ : ∃ s, validateSource (.str source : Json F) = .ok s := by
    cases hs : validateSource (.str source : Json F) with
    | ok s => exact ⟨s, rfl⟩
    | error e =>
      rw [hs] at hsource
      cases hsource
  unfold grant
  rw [hhash.validateKind_eq hfits, fingerprint_of_exact h hhash, field_kind h, hnormalized]
  simp only [ok_bind, ne_eq, not_true_eq_false, and_false, if_false]
  split
  · exact ⟨_, _, rfl⟩
  · exact ⟨_, _, rfl⟩

theorem evaluate_of_mem {scope : List (String × Json F)} (hkind : HasHash kind)
    (hfits : FitsGrant kind) (hscope : validScope host scope = true) (hmem : g ∈ grants)
    (hgkind : g.kind = String.ofList (casefold (stripWhere isSpace kind.toList)))
    (hgscope : g.scopeFingerprint = host.sha256 (Json.dumps canonical (.obj scope))) :
    ∃ ev, evaluate host kind scope false false grants = .ok ev ∧ ev.decision = .allow := by
  have hfound : (findGrant grants (String.ofList (casefold (stripWhere isSpace kind.toList)))
      (host.sha256 (Json.dumps canonical (.obj scope)))).isSome = true := by
    rw [findGrant, List.find?_isSome]
    exact ⟨g, hmem, by rw [hgkind, hgscope]; simp⟩
  obtain ⟨found, hfound⟩ := Option.isSome_iff_exists.mp hfound
  unfold evaluate
  rw [if_neg Bool.false_ne_true, if_neg Bool.false_ne_true, hkind.validateKind_eq hfits,
    validatedScopeFingerprint, if_pos hscope]
  simp only [ok_bind, hfound]
  exact ⟨_, rfl, rfl⟩

/-- An answer of `allow` comes from a grant in the list. -/
theorem mem_of_evaluate {scope : List (String × Json F)} {sensitive external : Bool}
    {ev : PermissionEvaluation} (h : evaluate host kind scope sensitive external grants = .ok ev)
    (hallow : ev.decision = .allow) :
    ∃ g ∈ grants, g.scopeFingerprint = host.sha256 (Json.dumps canonical (.obj scope)) := by
  unfold evaluate at h
  split_ifs at h
  · cases h
    cases hallow
  · cases h
    cases hallow
  obtain ⟨normalized, -, h⟩ := bind_eq_ok.mp h
  obtain ⟨fingerprint, hscope, h⟩ := bind_eq_ok.mp h
  split at h
  · rename_i found hfound
    have hmatch := List.find?_some hfound
    rw [Bool.and_eq_true, beq_iff_eq, beq_iff_eq] at hmatch
    unfold validatedScopeFingerprint at hscope
    split at hscope
    · cases hscope
      exact ⟨found, List.mem_of_find?_eq_some hfound, hmatch.2⟩
    · cases hscope
  · cases h
    cases hallow

/-! ### Runs -/

def Call.scope : Call F → Option (List (String × Json F))
  | .grant _ _ scope _ => some scope
  | .grantApprovalScope _ approvalScope _ _ => approvalScope.scope
  | .revoke _ => none

theorem exec_ok {call : Call F} {answer : Answer}
    (h : exec host call grants = .ok (answer, grants')) :
    (∃ hex kind scope source g, call.scope = some scope ∧
        grant host hex kind scope source grants = .ok (g, grants')) ∨
      ∃ id, call = .revoke id ∧ grants' = grants.eraseP (·.id == id) := by
  cases call with
  | grant hex kind scope source =>
    obtain ⟨out, hout, h⟩ := bind_eq_ok.mp h
    cases h
    exact .inl ⟨hex, kind, scope, source, out.1, rfl, hout⟩
  | grantApprovalScope hex approvalScope kind source =>
    obtain ⟨out, hout, h⟩ := bind_eq_ok.mp h
    cases h
    unfold grantApprovalScope at hout
    split at hout
    · rename_i scope _ hscope
      exact .inl ⟨_, _, scope, _, out.1, hscope, hout⟩
    · cases hout
  | revoke id =>
    obtain ⟨out, hout, h⟩ := bind_eq_ok.mp h
    cases h
    unfold revoke at hout
    obtain ⟨-, hout⟩ := guard_eq_ok.mp hout
    cases hout
    exact .inr ⟨id, rfl, rfl⟩

theorem mem_of_commit {event : Call F × Except PermissionPolicyError Answer}
    (h : Commit (exec host) grants event grants') (hcall : event.1 ≠ .revoke g.id)
    (hmem : g ∈ grants) : g ∈ grants' := by
  cases h with
  | error => exact hmem
  | ok h =>
    rcases exec_ok h with ⟨hex, kind, scope, source, g', -, hgrant⟩ | ⟨id, rfl, rfl⟩
    · obtain ⟨-, -, -, -, -, hkept, -⟩ := grant_ok hgrant
      exact hkept hmem
    · rw [List.mem_eraseP_of_neg]
      · exact hmem
      · intro hid
        exact hcall (by rw [beq_iff_eq.mp hid])

theorem mem_of_history (h : History host grants trace grants')
    (hkept : ∀ event ∈ trace, event.1 ≠ .revoke g.id) (hmem : g ∈ grants) : g ∈ grants' := by
  induction h with
  | nil => exact hmem
  | snoc _ hstep ih =>
    rw [List.forall_mem_append] at hkept
    exact mem_of_commit hstep (hkept.2 _ List.mem_cons_self) (ih hkept.1)

theorem asked_of_history (h : History host [] trace grants) :
    ∀ g ∈ grants, ∃ event ∈ trace, ∃ scope, event.1.scope = some scope ∧
      g.scopeFingerprint = host.sha256 (Json.dumps canonical (.obj scope)) := by
  induction h with
  | nil => simp
  | @snoc trace grants grants' event _ hstep ih =>
    have hlift : ∀ g ∈ grants, ∃ event' ∈ trace ++ [event], ∃ scope, event'.1.scope = some scope ∧
          g.scopeFingerprint = host.sha256 (Json.dumps canonical (.obj scope)) := by
      intro g hg
      obtain ⟨event', hmem, hasked⟩ := ih g hg
      exact ⟨event', List.mem_append_left _ hmem, hasked⟩
    intro g hg
    cases hstep with
    | error => exact hlift g hg
    | ok hexec =>
      rcases exec_ok hexec with ⟨hex, kind, scope, source, g', hscope, hgrant⟩ | ⟨id, -, rfl⟩
      · obtain ⟨-, -, -, -, hfingerprint, -, hnew⟩ := grant_ok hgrant
        rcases hnew g hg with hold | rfl
        · exact hlift g hold
        · exact ⟨_, List.mem_append_right _ List.mem_cons_self, scope, hscope, hfingerprint⟩
      · exact hlift g (List.mem_of_mem_eraseP hg)

/-! ### The grant of a reported scope -/

def GrantHolds (host : Host F) (request : ApprovalRequest F) (a : ApprovalSessionScope F)
    (hex : String) (kind : Option String) (source : String)
    (grants : List SessionPermissionGrant) : Prop :=
  ∃ g grants', grantApprovalScope host hex a kind source grants = .ok (g, grants') ∧
    ∀ trace grants'', History host grants' trace grants'' →
      (∀ event ∈ trace, event.1 ≠ .revoke g.id) →
      ∀ request' a' scope, approvalSessionScopeForRequest host request' = .ok a' →
        a'.scope = a.scope → request'.kind = request.kind → a'.scope = some scope →
        ∃ ev, evaluate host request'.kind scope false false grants'' = .ok ev ∧ ev.decision = .allow

theorem grantApprovalScope_of_exact {scope : List (String × Json F)}
    (h : Exact host request scope) {kind : Option String}
    (hkind : kind = none ∨ kind = some request.kind) (hex source : String)
    (grants : List SessionPermissionGrant) :
    grantApprovalScope host hex (supported scope) kind source grants =
      grant host hex request.scopeKind scope source grants := by
  have hdeclared : host.text (host.orElse
      (host.orElse (Json.get scope "kind") (Json.get scope "safe_kind")) (.str "")) =
        request.scopeKind := by
    rw [get_kind h, host.orElse_str (scopeKind_ne_empty request),
      host.orElse_str (scopeKind_ne_empty request)]
    rfl
  show grant host hex (if kind.getD "" = "" then _ else kind.getD "") scope source grants = _
  rw [hdeclared]
  rcases hkind with rfl | rfl
  · rfl
  · by_cases hempty : request.kind = ""
    · rw [Option.getD_some, if_pos hempty]
    · rw [Option.getD_some, if_neg hempty, ApprovalRequest.scopeKind, if_neg hempty]

omit [Json.Floats F] in
theorem HasHash.kind_eq (h : HasHash request.scopeKind) : request.kind = request.scopeKind := by
  unfold ApprovalRequest.scopeKind at h ⊢
  split at h
  · exact absurd h (by rintro (h | h | h) <;> revert h <;> decide)
  · rename_i hne
    rw [if_neg hne]

theorem grantHolds_iff {scope : List (String × Json F)} (h : Exact host request scope)
    {kind : Option String} (hkind : kind = none ∨ kind = some request.kind)
    (hsource : (validateSource (.str source : Json F)).isOk = true) (hex : String)
    (grants : List SessionPermissionGrant) :
    GrantHolds host request (supported scope) hex kind source grants ↔
      HasHash request.scopeKind ∧ FitsGrant request.scopeKind := by
  unfold GrantHolds
  simp only [grantApprovalScope_of_exact h hkind]
  constructor
  · rintro ⟨g, grants', hgrant, -⟩
    obtain ⟨hvalid, hfits, -⟩ := grant_ok hgrant
    exact ⟨(validScope_iff h).mp hvalid, hfits⟩
  · rintro ⟨hhash, hfits⟩
    obtain ⟨g, grants', hgrant⟩ := grant_of_exact h hhash hfits hsource hex grants
    obtain ⟨hvalid, -, hmem, hgkind, hgscope, -⟩ := grant_ok hgrant
    refine ⟨g, grants', hgrant, ?_⟩
    intro trace grants'' hrun hkept request' a' scope' _ hscope hkind' hsome
    rw [hscope] at hsome
    cases hsome
    rw [hkind', hhash.kind_eq]
    exact evaluate_of_mem hhash hfits hvalid (mem_of_history hrun hkept hmem) hgkind hgscope

/-- **A reported scope is granted exactly when its kind has a hash and fits a grant; and no
grant extends to another operation.** -/
theorem session_scope_exact (host : Host F) :
    (∀ request a, approvalSessionScopeForRequest host request = .ok a → a.supported = true →
      ∀ kind, (kind = none ∨ kind = some request.kind) →
      ∀ source, (validateSource (.str source : Json F)).isOk = true → ∀ hex grants,
        (GrantHolds host request a hex kind source grants ↔
          HasHash request.scopeKind ∧ FitsGrant request.scopeKind)) ∧
    (∀ request request' a a', approvalSessionScopeForRequest host request = .ok a →
      approvalSessionScopeForRequest host request' = .ok a' → a.supported = true →
      a'.supported = true → a.key = a'.key →
        a.scope = a'.scope ∧ SameOperation host request request') ∧
    ∀ trace grants, History host [] trace grants → ∀ kind scope sensitive external ev,
      evaluate host kind scope sensitive external grants = .ok ev → ev.decision = .allow →
        ∃ event ∈ trace, ∃ granted, event.1.scope = some granted ∧
          (Json.dumps canonical (.obj granted) = Json.dumps canonical (.obj scope) ∨
            Collide host (Json.dumps canonical (.obj granted))
              (Json.dumps canonical (.obj scope))) := by
  refine ⟨?_, ?_, ?_⟩
  · intro request a hreport hsupported kind hkind source hsource hex grants
    obtain ⟨scope, hexact, rfl⟩ := exact_of_report hreport hsupported
    exact grantHolds_iff hexact hkind hsource hex grants
  · intro request request' a a' hreport hreport' hsupported hsupported' hkey
    obtain ⟨scope, hexact, rfl⟩ := exact_of_report hreport hsupported
    obtain ⟨scope', hexact', rfl⟩ := exact_of_report hreport' hsupported'
    obtain ⟨heq, hsame⟩ := exact_eq_of_key_eq hexact hexact' hkey
    exact ⟨congrArg some heq, hsame⟩
  · intro trace grants hrun kind scope sensitive external ev hev hallow
    obtain ⟨g, hg, hfingerprint⟩ := mem_of_evaluate hev hallow
    obtain ⟨event, hevent, granted, hgranted, hhash⟩ := asked_of_history hrun g hg
    refine ⟨event, hevent, granted, hgranted, ?_⟩
    by_cases heq : Json.dumps canonical (.obj granted) = Json.dumps canonical (.obj scope)
    · exact .inl heq
    · exact .inr ⟨heq, hhash.symm.trans hfingerprint⟩

/-! ### Two requests -/

/-- SHA-256 of a command and of the scope that is reported for it. -/
def sessionHost : Host Unit where
  str _ := ""
  isZero _ := false
  int _ := .error .value
  sha256 text :=
    if text = "git status" then "e62b04aadf39df1a47b771265e4ae5c452df3f1903d5c263ab00f088e86102f6"
    else "720dac369d42c0492b2e35ac428b03f8bd0d48816e3cdab963e90ece10103140"

def shellRequest : ApprovalRequest Unit where
  kind := "shell_run"
  command := some "git status"
  allowForSessionScope := some [("type", .str "exact_command_hash"), ("algorithm", .str "sha256"),
    ("command_hash", .str (sessionHost.sha256 "git status")), ("kind", .str "shell_run")]

theorem shellRequest_granted : GrantHolds sessionHost shellRequest
      (supported (commandHashMembers "shell_run" (sessionHost.sha256 "git status")))
      "0123456789abcdef0123456789abcdef" none "session" [] := by
  refine ((session_scope_exact sessionHost).1 shellRequest _ rfl rfl none (.inl rfl) "session"
    (by decide) _ _).mpr ⟨.inl (by decide), ?_, ?_⟩
  · decide
  · decide

/-- The scope of a kind that the backend marks as safe, as `explicit_backend_safe_kind_scope`
writes it. -/
def safeKindRequest : ApprovalRequest Unit where
  kind := "web_fetch"
  allowForSessionScope := some [("type", .str "explicit_backend_safe_kind"),
    ("safe_kind", .str "web_fetch"), ("backend_owned", .bool true)]

/-- The scope is reported as supported, and refused. -/
theorem safeKindRequest_refused : approvalSessionScopeForRequest sessionHost safeKindRequest =
        .ok (supported (safeKindMembers "web_fetch" "web_fetch")) ∧
      ¬GrantHolds sessionHost safeKindRequest (supported (safeKindMembers "web_fetch" "web_fetch"))
        "0123456789abcdef0123456789abcdef" none "session" [] := by
  have hreport : approvalSessionScopeForRequest sessionHost safeKindRequest =
      .ok (supported (safeKindMembers "web_fetch" "web_fetch")) := rfl
  refine ⟨hreport, ?_⟩
  rintro ⟨g, grants', hgrant, -⟩
  have herror : grantApprovalScope sessionHost "0123456789abcdef0123456789abcdef"
      (supported (safeKindMembers "web_fetch" "web_fetch")) none "session" [] =
        .error (.validation "Approval session scope is invalid.") := rfl
  rw [herror] at hgrant
  cases hgrant

end AlysisCode.Approval
