/-
A decision fails closed and does not depend on the order of the rules.

The rank of a rule begins with its specificity and its precedence, and the precedence names
the effect.  So what the highest rank decides is settled before the age of a rule is looked
at: `Decides` says which effect a set of rules decides on, and `decision_iff` that it is the
one `evaluateRules` arrives at.  The order of the rules, the fields `order` among them, does
not occur in it.
-/
import AlysisCode.Permission.Evaluate

namespace AlysisCode.Permission

open Runs Text

/-! ### Specificity is a lexicographic rank -/

variable {normalized : NormalizedRequest} (rule : PermissionRule) {rules : List PermissionRule}
  {e : PolicyEffect}

/-- The four quantities packed into a specificity. -/
def PermissionRule.digits : ℕ ×ₗ ℕ ×ₗ ℕ ×ₗ Int :=
  toLex (rule.selectorCount, toLex (rule.exactCount,
    toLex (min rule.literalCount 9999, -(min rule.wildcardCount 9 : Int))))

theorem exactCount_le : rule.exactCount ≤ 3 := by
  have hcount : rule.exactCount ≤ rule.patterns.length := List.countP_le_length
  have hlength : rule.patterns.length ≤ 3 := by
    unfold PermissionRule.patterns
    cases rule.toolPattern <;> cases rule.pathPattern <;> cases rule.commandPattern <;> simp
  omega

/-- **Specificity orders rules lexicographically: no digit overflows into the next.** -/
theorem specificity_lt_iff (rule' : PermissionRule) :
    rule.specificity < rule'.specificity ↔ rule.digits < rule'.digits := by
  have hexact := exactCount_le rule
  have hexact' := exactCount_le rule'
  simp only [PermissionRule.digits, Prod.Lex.toLex_lt_toLex]
  unfold PermissionRule.specificity
  omega

/-! ### What a set of rules decides -/

theorem precedence_injective {e' : PolicyEffect} (h : e.precedence = e'.precedence) : e = e' := by
  cases e <;> cases e' <;> first | rfl | cases h

/-- How a rule weighs against another, whatever their age. -/
def strength : Int ×ₗ ℕ :=
  toLex (rule.specificity, rule.effect.precedence)

theorem strength_le_of_rank_le {rule rule' : PermissionRule} (h : rank rule ≤ rank rule') :
    strength rule ≤ strength rule' := by
  simp only [rank, strength, Prod.Lex.toLex_le_toLex] at h ⊢
  omega

/-- A rule that none of the rules outweighs. -/
structure Strongest (rules : List PermissionRule) (rule : PermissionRule) : Prop where
  mem : rule ∈ rules
  le : ∀ other ∈ rules, strength other ≤ strength rule

def Decides (rules : List PermissionRule) (e : PolicyEffect) : Prop :=
  (rules = [] ∧ e = .ask) ∨ ∃ rule, Strongest rules rule ∧ rule.effect = e

theorem Decides.unique {e' : PolicyEffect} (h : Decides rules e) (h' : Decides rules e') :
    e = e' := by
  rcases h with ⟨hnil, rfl⟩ | ⟨rule, hrule, rfl⟩
  · rcases h' with ⟨-, rfl⟩ | ⟨rule', hrule', -⟩
    · rfl
    · rw [hnil] at hrule'
      cases hrule'.mem
  · rcases h' with ⟨hnil, -⟩ | ⟨rule', hrule', rfl⟩
    · rw [hnil] at hrule
      cases hrule.mem
    · have heq : strength rule = strength rule' :=
        le_antisymm (hrule'.le rule hrule.mem) (hrule.le rule' hrule'.mem)
      exact precedence_injective (Prod.mk.inj (toLex.injective heq)).2

/-- **What the highest rank decides.** -/
theorem decides_evaluateRules (policy : PermissionPolicy) (request : NormalizedRequest) :
    Decides (policy.matching request) (policy.evaluateRules request).decision := by
  unfold PermissionPolicy.evaluateRules
  cases hmax : (policy.matching request).argmax rank with
  | none => exact .inl ⟨List.argmax_eq_none.mp hmax, rfl⟩
  | some winner =>
    refine .inr ⟨winner, ⟨List.argmax_mem hmax, ?_⟩, rfl⟩
    exact fun other hother => strength_le_of_rank_le (List.le_of_mem_argmax hother hmax)

/-! ### The order of the rules -/

/-- A rule without its place. -/
def unordered : PermissionRule := { rule with order := 0 }

theorem strength_unordered : strength (unordered rule) = strength rule :=
  rfl

theorem ruleMatches_unordered (request : NormalizedRequest) :
    ruleMatches (unordered rule) request = ruleMatches rule request := rfl

theorem Decides.congr {rules' : List PermissionRule} (h : Decides rules e)
    (hmem : ∀ rule, rule ∈ rules.map unordered ↔ rule ∈ rules'.map unordered) :
    Decides rules' e := by
  rcases h with ⟨hnil, he⟩ | ⟨rule, hrule, he⟩
  · refine .inl ⟨List.eq_nil_iff_forall_not_mem.mpr fun rule hrule => ?_, he⟩
    have hold := (hmem _).mpr (List.mem_map_of_mem hrule)
    rw [hnil] at hold
    cases hold
  · obtain ⟨rule', hrule', heq⟩ := List.mem_map.mp ((hmem _).mp (List.mem_map_of_mem hrule.mem))
    have hstrength : strength rule' = strength rule := by
      rw [← strength_unordered, heq, strength_unordered]
    have heffect : rule'.effect = rule.effect := by
      have hboth : (unordered rule').effect = (unordered rule).effect := by rw [heq]
      exact hboth
    refine .inr ⟨rule', ⟨hrule', fun other hother => ?_⟩, heffect.trans he⟩
    obtain ⟨old, hold, hsame⟩ := List.mem_map.mp ((hmem _).mpr (List.mem_map_of_mem hother))
    rw [hstrength, ← strength_unordered other, ← hsame, strength_unordered]
    exact hrule.le old hold

section Rules

variable {policy policy' : PermissionPolicy} {request : NormalizedRequest}

theorem mem_matching {rule : PermissionRule} :
    rule ∈ policy.matching request ↔ rule ∈ policy.rules ∧ ruleMatches rule request = true := by
  unfold PermissionPolicy.matching PermissionPolicy.listRules
  rw [List.mem_filter, List.mem_insertionSort]

theorem mem_matching_unordered {rule : PermissionRule} :
    rule ∈ (policy.matching request).map unordered ↔
      rule ∈ policy.rules.map unordered ∧ ruleMatches rule request = true := by
  constructor
  · intro h
    obtain ⟨old, hold, rfl⟩ := List.mem_map.mp h
    obtain ⟨hmem, hmatch⟩ := mem_matching.mp hold
    exact ⟨List.mem_map_of_mem hmem, hmatch⟩
  · rintro ⟨h, hmatch⟩
    obtain ⟨old, hold, rfl⟩ := List.mem_map.mp h
    exact List.mem_map_of_mem (mem_matching.mpr ⟨hold, hmatch⟩)

theorem evaluateRules_perm (h : (policy'.rules.map unordered).Perm (policy.rules.map unordered)) :
    (policy'.evaluateRules request).decision = (policy.evaluateRules request).decision := by
  have hmem : ∀ rule, rule ∈ (policy'.matching request).map unordered ↔
      rule ∈ (policy.matching request).map unordered := by
    intro rule
    rw [mem_matching_unordered, mem_matching_unordered, h.mem_iff]
  exact ((decides_evaluateRules policy' request).congr hmem).unique
    (decides_evaluateRules policy request)

theorem evaluateRules_insert {added : PermissionRule}
    (h : (policy'.rules.map unordered).Perm ((added :: policy.rules).map unordered)) :
    (policy'.evaluateRules request).decision = (policy.evaluateRules request).decision ∨
      (policy'.evaluateRules request).decision = added.effect := by
  have hold : ∀ rule ∈ policy.matching request, ∃ rule' ∈ policy'.matching request,
      unordered rule' = unordered rule := by
    intro rule hrule
    obtain ⟨hmem, hmatch⟩ := mem_matching.mp hrule
    have hin : unordered rule ∈ policy'.rules.map unordered :=
      h.mem_iff.mpr (List.mem_map_of_mem (List.mem_cons_of_mem added hmem))
    exact List.mem_map.mp (mem_matching_unordered.mpr ⟨hin, hmatch⟩)
  have hdecides := decides_evaluateRules policy request
  rcases decides_evaluateRules policy' request with ⟨hnil, heffect⟩ | ⟨winner, hwinner, heffect⟩
  · -- no rule matches now, so none did before
    refine .inl (Decides.unique (.inl ⟨?_, heffect⟩) hdecides)
    refine List.eq_nil_iff_forall_not_mem.mpr fun rule hrule => ?_
    obtain ⟨rule', hrule', -⟩ := hold rule hrule
    rw [hnil] at hrule'
    cases hrule'
  · obtain ⟨hmem, hmatch⟩ := mem_matching.mp hwinner.mem
    have hin := h.mem_iff.mp (List.mem_map_of_mem hmem)
    rw [List.map_cons, List.mem_cons] at hin
    rcases hin with hadded | hin
    · right
      rw [← heffect]
      have hboth : (unordered winner).effect = (unordered added).effect := by rw [hadded]
      exact hboth
    · left
      -- the winner was there before, and outweighs what else was
      obtain ⟨old, holdmem, hsame⟩ := List.mem_map.mp hin
      have hstrength : strength old = strength winner := by
        rw [← strength_unordered, hsame, strength_unordered]
      have holdeffect : old.effect = winner.effect := by
        have hboth : (unordered old).effect = (unordered winner).effect := by rw [hsame]
        exact hboth
      have holdmatch : ruleMatches old request = true := by
        rw [← ruleMatches_unordered, hsame, ruleMatches_unordered, hmatch]
      refine Decides.unique (.inr ⟨old, ⟨mem_matching.mpr ⟨holdmem, holdmatch⟩, ?_⟩,
        holdeffect.trans heffect⟩) hdecides
      intro other hother
      obtain ⟨other', hother', hotherSame⟩ := hold other hother
      rw [hstrength, ← strength_unordered other, ← hotherSame, strength_unordered]
      exact hwinner.le other' hother'

theorem evaluateRules_allow (h : (policy.evaluateRules request).decision = .allow) :
    ∃ rule ∈ policy.rules, rule.effect = .allow ∧ ruleMatches rule request = true ∧
      ∀ guard ∈ policy.rules, guard.effect ≠ .allow → ruleMatches guard request = true →
        guard.specificity < rule.specificity := by
  have hdecides := decides_evaluateRules policy request
  rw [h] at hdecides
  rcases hdecides with ⟨-, hask⟩ | ⟨rule, hrule, heffect⟩
  · cases hask
  · obtain ⟨hmem, hmatch⟩ := mem_matching.mp hrule.mem
    refine ⟨rule, hmem, heffect, hmatch, fun guard hguard hnot hguardmatch => ?_⟩
    have hle := hrule.le guard (mem_matching.mpr ⟨hguard, hguardmatch⟩)
    have hprecedence : 0 < guard.effect.precedence := by
      cases hg : guard.effect with
      | allow => exact absurd hg hnot
      | ask | deny => decide
    have hzero : rule.effect.precedence = 0 := by
      rw [heffect]
      rfl
    simp only [strength, Prod.Lex.toLex_le_toLex] at hle
    omega

end Rules

/-! ### What is sensitive or outside -/

variable {ev : PermissionEvaluation} {policy policy' : PermissionPolicy} {host : Host}
  {request : PermissionRequest}

theorem evaluateSafetyOverrides_ne_allow {request : NormalizedRequest}
    (h : policy.evaluateSafetyOverrides request = some ev) :
    ev.decision ≠ .allow := by
  obtain ⟨c, hc, rfl⟩ := Option.map_eq_some_iff.mp h
  have hmem := List.argmax_mem hc
  unfold PermissionPolicy.candidates at hmem
  rcases List.mem_append.mp hmem with hmem | hmem
  · split at hmem
    · rw [List.mem_singleton.mp hmem]
      exact policy.sensitiveOverride.property
    · cases hmem
  · split at hmem
    · rw [List.mem_singleton.mp hmem]
      exact policy.externalDirectoryOverride.property
    · cases hmem

theorem evaluateSafetyOverrides_none {request : NormalizedRequest}
    (h : policy.evaluateSafetyOverrides request = none) :
    request.sensitive = false ∧ request.externalDirectory = false := by
  have hnil := List.argmax_eq_none.mp (Option.map_eq_none_iff.mp h)
  unfold PermissionPolicy.candidates at hnil
  rw [List.append_eq_nil_iff] at hnil
  constructor
  · by_contra hs
    simp [hs] at hnil
  · by_contra hs
    simp [hs] at hnil

/-- A path is outside exactly if it has no place in the workspace. -/
def Placed (place : Place) : Prop := place.2 = place.1.isNone

theorem placed_placeOf (absolute : List Char → Bool) (fold : List Char → List Char)
    (normalized : List Char) : Placed (placeOf absolute fold normalized) := by
  unfold placeOf
  split
  · rfl
  · split <;> rfl

theorem placed_windows (host : Host) (value : List Char) (root : Option String) :
    Placed (normalizeWindowsWorkspacePath host value root) := by
  unfold normalizeWindowsWorkspacePath
  dsimp only
  split
  · split
    · rfl
    · split
      · rfl
      · split
        · rfl
        · split
          · rfl
          · exact placed_placeOf _ _ _
  · exact placed_placeOf _ _ _

theorem placed_posix (value : List Char) (root : Option String) :
    Placed (normalizePosixWorkspacePath value root) := by
  unfold normalizePosixWorkspacePath
  dsimp only
  split
  · split
    · rfl
    · split
      · rfl
      · split
        · rfl
        · exact placed_placeOf _ _ _
  · exact placed_placeOf _ _ _

theorem placed_of_normalize {value : String} {root : Option String} {windows : Bool} {place : Place}
    (h : normalizeWorkspacePath host value root windows = .ok place) :
    Placed place := by
  unfold normalizeWorkspacePath at h
  obtain ⟨-, h⟩ := guard_eq_ok.mp h
  split at h
  · rw [← Except.ok.inj h]
    exact placed_windows host _ root
  · rw [← Except.ok.inj h]
    exact placed_posix _ root

/-- The path's place in the workspace is `place`. -/
def Inside (host : Host) (request : PermissionRequest) (path : String) (place : List Char) : Prop :=
  normalizeWorkspacePath host path request.workspaceRoot (request.windows host) =
    .ok (some place, false)

theorem inside_of_normalizeRequest (h : normalizeRequest host request = .ok normalized)
    (hinside : normalized.externalDirectory = false) :
    normalized.sensitive = request.sensitive ∧ normalized.windows = request.windows host ∧
      request.externalDirectory = false ∧ (request.paths = [] → normalized.paths = []) ∧
      ∀ path ∈ request.paths, ∃ place ∈ normalized.paths, Inside host request path place := by
  obtain ⟨toolName, -, h⟩ := bind_eq_ok.mp h
  obtain ⟨places, hplaces, h⟩ := bind_eq_ok.mp h
  have hnormalized := Except.ok.inj h
  rw [← hnormalized] at hinside ⊢
  simp only [Bool.or_eq_false_iff] at hinside
  refine ⟨rfl, rfl, hinside.1, ?_, ?_⟩
  · intro hnil
    rw [hnil] at hplaces
    have hempty : places = [] := (Except.ok.inj hplaces).symm
    simp [hempty]
  · intro path hpath
    obtain ⟨place, hmem, hplace⟩ := exists_of_mapM hplaces hpath
    have hin : place.2 = false := by simpa using List.any_eq_false.mp hinside.2 place hmem
    have hsome : place.1.isNone = false := by rw [← placed_of_normalize hplace, hin]
    obtain ⟨t, ht⟩ := Option.isSome_iff_exists.mp (Option.isNone_eq_false_iff.mp hsome)
    refine ⟨t, List.mem_filterMap.mpr ⟨place, hmem, ht⟩, ?_⟩
    unfold Inside
    rw [hplace, ← ht, ← hin]

/-! ### Decisions -/

/-- Every path of the request is in the workspace, at a place the pattern matches. -/
def Covers (host : Host) (request : PermissionRequest) (pattern : String) : Prop :=
  request.paths ≠ [] ∧ ∀ path ∈ request.paths, ∃ place, Inside host request path place ∧
    pathGlobMatches place (foldedFor (request.windows host) pattern) = true

theorem covers_of_ruleMatches {rule : PermissionRule}
    (h : normalizeRequest host request = .ok normalized)
    (hinside : normalized.externalDirectory = false) (heffect : rule.effect = .allow)
    (hmatch : ruleMatches rule normalized = true) :
    ∀ pattern ∈ rule.pathPattern, Covers host request pattern := by
  intro pattern hpattern
  obtain ⟨-, hwindows, -, hnil, hplaces⟩ := inside_of_normalizeRequest h hinside
  have hpaths : normalized.paths ≠ [] ∧ ∀ place ∈ normalized.paths,
      pathGlobMatches place (foldedFor (request.windows host) pattern) = true := by
    rw [← hwindows]
    simpa [ruleMatches, Option.mem_def.mp hpattern, heffect] using (Bool.and_eq_true_iff.mp hmatch).2
  refine ⟨fun hempty => hpaths.1 (hnil hempty), fun path hpath => ?_⟩
  obtain ⟨place, hmem, hplace⟩ := hplaces path hpath
  exact ⟨place, hplace, hpaths.2 place hmem⟩

/-- What stands behind a decision to allow. -/
structure Allowed (host : Host) (policy : PermissionPolicy) (request : PermissionRequest) :
    Prop where
  notSensitive : request.sensitive = false
  notExternal : request.externalDirectory = false
  inside : ∀ path ∈ request.paths, ∃ place, Inside host request path place
  granted : ∃ normalized, normalizeRequest host request = .ok normalized ∧
    (∃ rule ∈ policy.rules, rule.effect = .allow ∧ ruleMatches rule normalized = true ∧
      ∀ pattern ∈ rule.pathPattern, Covers host request pattern) ∧
    ∀ guard ∈ policy.rules, guard.effect ≠ .allow → ruleMatches guard normalized = true →
      ∃ rule ∈ policy.rules, rule.effect = .allow ∧ ruleMatches rule normalized = true ∧
        guard.specificity < rule.specificity

theorem allowed_of_evaluate (h : policy.evaluate host request = .ok ev)
    (hallow : ev.decision = .allow) :
    Allowed host policy request := by
  obtain ⟨normalized, hnormalized, h⟩ := bind_eq_ok.mp h
  cases hsafety : policy.evaluateSafetyOverrides normalized with
  | some safety =>
    rw [hsafety] at h
    rw [← Except.ok.inj h] at hallow
    exact absurd hallow (evaluateSafetyOverrides_ne_allow hsafety)
  | none =>
    rw [hsafety] at h
    rw [← Except.ok.inj h] at hallow
    obtain ⟨hsensitive, hinside⟩ := evaluateSafetyOverrides_none hsafety
    obtain ⟨hsame, -, hexternal, -, hplaces⟩ := inside_of_normalizeRequest hnormalized hinside
    obtain ⟨rule, hrule, heffect, hmatch, hguards⟩ := evaluateRules_allow hallow
    refine ⟨hsame ▸ hsensitive, hexternal, fun path hpath => ?_, normalized, hnormalized, ?_, ?_⟩
    · obtain ⟨place, -, hplace⟩ := hplaces path hpath
      exact ⟨place, hplace⟩
    · exact ⟨rule, hrule, heffect, hmatch, covers_of_ruleMatches hnormalized hinside heffect hmatch⟩
    · exact fun guard hguard hnot hguardmatch =>
        ⟨rule, hrule, heffect, hmatch, hguards guard hguard hnot hguardmatch⟩

def SameOverrides (policy policy' : PermissionPolicy) : Prop :=
  policy'.sensitiveOverride = policy.sensitiveOverride ∧
    policy'.externalDirectoryOverride = policy.externalDirectoryOverride

theorem evaluateSafetyOverrides_congr (h : SameOverrides policy policy')
    (request : NormalizedRequest) :
    policy'.evaluateSafetyOverrides request = policy.evaluateSafetyOverrides request := by
  unfold PermissionPolicy.evaluateSafetyOverrides PermissionPolicy.candidates
  rw [h.1, h.2]

theorem evaluate_decision (h : policy.evaluate host request = .ok ev) :
    ∃ normalized, normalizeRequest host request = .ok normalized ∧
      ev = (policy.evaluateSafetyOverrides normalized).getD (policy.evaluateRules normalized) := by
  obtain ⟨normalized, hnormalized, h⟩ := bind_eq_ok.mp h
  refine ⟨normalized, hnormalized, ?_⟩
  cases hsafety : policy.evaluateSafetyOverrides normalized with
  | some safety | none =>
    rw [hsafety] at h
    exact (Except.ok.inj h).symm

theorem evaluate_perm (hsame : SameOverrides policy policy')
    (h : (policy'.rules.map unordered).Perm (policy.rules.map unordered)) (host : Host)
    (request : PermissionRequest) :
    (policy'.evaluate host request).map (·.decision) =
      (policy.evaluate host request).map (·.decision) := by
  unfold PermissionPolicy.evaluate
  cases hnormalized : normalizeRequest host request with
  | error e => rfl
  | ok normalized =>
    simp only [ok_bind, evaluateSafetyOverrides_congr hsame]
    cases policy.evaluateSafetyOverrides normalized with
    | some safety => rfl
    | none => exact congrArg Except.ok (evaluateRules_perm h)

theorem evaluate_insert {added : PermissionRule} (hsame : SameOverrides policy policy')
    (h : (policy'.rules.map unordered).Perm ((added :: policy.rules).map unordered))
    {ev' : PermissionEvaluation} (hev : policy.evaluate host request = .ok ev)
    (hev' : policy'.evaluate host request = .ok ev') :
    ev'.decision = ev.decision ∨ ev'.decision = added.effect := by
  obtain ⟨normalized, hnormalized, rfl⟩ := evaluate_decision hev
  obtain ⟨normalized', hnormalized', rfl⟩ := evaluate_decision hev'
  obtain rfl : normalized = normalized' := Except.ok.inj (hnormalized.symm.trans hnormalized')
  rw [evaluateSafetyOverrides_congr hsame]
  cases policy.evaluateSafetyOverrides normalized with
  | some safety => exact .inl rfl
  | none => exact evaluateRules_insert h

/-- **Evaluation fails closed, does not depend on the order of the rules, lets an added rule
bring about only its own effect, and ranks rules by their digits.** -/
theorem evaluate_guarantees (host : Host) (policy : PermissionPolicy)
    (request : PermissionRequest) :
    (∀ ev, policy.evaluate host request = .ok ev → ev.decision = .allow →
      Allowed host policy request) ∧
    (∀ policy', SameOverrides policy policy' →
      (policy'.rules.map unordered).Perm (policy.rules.map unordered) →
      (policy'.evaluate host request).map (·.decision) =
        (policy.evaluate host request).map (·.decision)) ∧
    (∀ added policy', SameOverrides policy policy' →
      (policy'.rules.map unordered).Perm ((added :: policy.rules).map unordered) →
      ∀ ev ev', policy.evaluate host request = .ok ev → policy'.evaluate host request = .ok ev' →
        ev'.decision = ev.decision ∨ ev'.decision = added.effect) ∧
    ∀ rule rule' : PermissionRule,
      rule.specificity < rule'.specificity ↔ rule.digits < rule'.digits :=
  ⟨fun _ => allowed_of_evaluate, fun _ hsame h => evaluate_perm hsame h host request,
    fun _ _ hsame h _ _ => evaluate_insert hsame h, specificity_lt_iff⟩

/-- A machine without Windows paths. -/
def posixHost : Host := ⟨false, id, fun path _ => some path, fun _ => false⟩

def allowSource : PermissionRule where
  id := "pr_0"
  effect := .allow
  order := 0
  source := "user"
  toolPattern := some "read*"
  pathPattern := some "src/**"

def denyRead : PermissionRule where
  id := "pr_1"
  effect := .deny
  order := 1
  source := "user"
  toolPattern := some "read_file"

def readSource : PermissionRequest where
  toolName := "read_file"
  paths := ["/repo/src/./main.py"]
  workspaceRoot := some "/repo/"
  platform := .posix

def sourcePolicy (rules : List PermissionRule) : PermissionPolicy :=
  ⟨rules, ⟨.ask, ask_ne_allow⟩, ⟨.ask, ask_ne_allow⟩⟩

/-- What the rule `allowSource` decides. -/
def allowedSource : PermissionEvaluation :=
  ⟨.allow, "matched_rule", some "pr_0", some "user", 2000077⟩

/-- The guarantees of a decision to allow, over a denial that is less specific. -/
theorem evaluate_guarantees_source :
    Allowed posixHost (sourcePolicy [allowSource, denyRead]) readSource ∧
    ((sourcePolicy [denyRead, allowSource]).evaluate posixHost readSource).map (·.decision) =
      .ok .allow ∧
    (∃ ev, (sourcePolicy [denyRead, allowSource, { denyRead with order := 2 }]).evaluate
        posixHost readSource = .ok ev ∧ (ev.decision = .allow ∨ ev.decision = .deny)) ∧
    (denyRead.specificity < allowSource.specificity ↔ denyRead.digits < allowSource.digits) := by
  obtain ⟨hallow, hperm, hinsert, hdigits⟩ := evaluate_guarantees posixHost
    (sourcePolicy [allowSource, denyRead]) readSource
  have hev : (sourcePolicy [allowSource, denyRead]).evaluate posixHost readSource =
      .ok allowedSource := by decide +kernel
  refine ⟨hallow allowedSource hev rfl, ?_, ⟨allowedSource, by decide +kernel, ?_⟩, hdigits _ _⟩
  · rw [hperm (sourcePolicy [denyRead, allowSource]) ⟨rfl, rfl⟩ (List.Perm.swap _ _ _), hev]
    rfl
  · exact hinsert denyRead (sourcePolicy [denyRead, allowSource, { denyRead with order := 2 }])
      ⟨rfl, rfl⟩ (List.Perm.refl _) allowedSource allowedSource hev (by decide +kernel)

/-! ### Less access -/

/-- No rule allows more in the second policy, and none of the first guards less. -/
structure Narrows (policy policy' : PermissionPolicy) : Prop where
  allows : ∀ rule ∈ policy'.rules, rule.effect = .allow → rule ∈ policy.rules
  guards : ∀ rule ∈ policy.rules, rule.effect ≠ .allow → rule ∈ policy'.rules

/-- A rule that is more specific than all guards of a request is the one that decides. -/
theorem evaluateRules_of_guards {request : NormalizedRequest} {rule : PermissionRule}
    (hrule : rule ∈ policy.rules) (hmatch : ruleMatches rule request = true)
    (hguards : ∀ guard ∈ policy.rules, guard.effect ≠ .allow → ruleMatches guard request = true →
      guard.specificity < rule.specificity) :
    (policy.evaluateRules request).decision = .allow := by
  have hmem := mem_matching.mpr ⟨hrule, hmatch⟩
  rcases decides_evaluateRules policy request with ⟨hnil, -⟩ | ⟨winner, hwinner, hdecision⟩
  · rw [hnil] at hmem
    cases hmem
  · by_contra hne
    rw [← hdecision] at hne
    obtain ⟨hwin, hwinmatch⟩ := mem_matching.mp hwinner.mem
    have hlt := hguards winner hwin hne hwinmatch
    have hle := hwinner.le rule hmem
    simp only [strength, Prod.Lex.toLex_le_toLex] at hle
    omega

/-- **Less is never allowed more**: no allow rules taken out, guards added and overrides changed
turn a decision into one to allow. -/
theorem allow_antitone (hnarrows : Narrows policy policy')
    (h : policy'.evaluate host request = .ok ev) (hallow : ev.decision = .allow) :
    ∃ ev, policy.evaluate host request = .ok ev ∧ ev.decision = .allow := by
  obtain ⟨normalized, hnormalized, rfl⟩ := evaluate_decision h
  cases hsafety : policy'.evaluateSafetyOverrides normalized with
  | some safety =>
    rw [hsafety] at hallow
    exact absurd hallow (evaluateSafetyOverrides_ne_allow hsafety)
  | none =>
    rw [hsafety] at hallow
    obtain ⟨hsensitive, hinside⟩ := evaluateSafetyOverrides_none hsafety
    have hnone : policy.evaluateSafetyOverrides normalized = none := by
      simp [PermissionPolicy.evaluateSafetyOverrides, PermissionPolicy.candidates, hsensitive,
        hinside]
    obtain ⟨rule, hrule, heffect, hmatch, hguards⟩ := evaluateRules_allow hallow
    refine ⟨policy.evaluateRules normalized, ?_, ?_⟩
    · rw [PermissionPolicy.evaluate, hnormalized, ok_bind, hnone]
    · exact evaluateRules_of_guards (hnarrows.allows rule hrule heffect) hmatch
        fun guard hguard hnot => hguards guard (hnarrows.guards guard hguard hnot) hnot

theorem allow_antitone_source : ∃ ev,
    (sourcePolicy [allowSource]).evaluate posixHost readSource = .ok ev ∧ ev.decision = .allow := by
  have hnarrows : Narrows (sourcePolicy [allowSource]) (sourcePolicy [denyRead, allowSource]) :=
    ⟨by decide, by decide⟩
  have hev : (sourcePolicy [denyRead, allowSource]).evaluate posixHost readSource =
      .ok allowedSource := by decide +kernel
  exact allow_antitone hnarrows hev rfl

end AlysisCode.Permission
