/-
What the permission store writes, it reads back.

A rule is *settled* if its selectors and its source are what normalising them gives.  A policy
of settled rules, in their order, is read back from its file as it was saved; and every
operation makes settled rules of settled rules, except that a path pattern may be padded.  A
grant with a padded path pattern is never read back: at best as another rule, at worst as a
corrupt policy that denies everything from then on.
-/
import AlysisCode.Permission.Normalize

namespace AlysisCode.Permission

open Runs Text

variable {F : Type}

/-- The selectors and the source of the rule are their own normal forms. -/
structure Settled (rule : PermissionRule) : Prop where
  id : matchesRuleId rule.id = true
  source : validateSource (.str rule.source : Json Unit) = .ok rule.source
  tool : ∀ s ∈ rule.toolPattern, normalizeToolPattern s.toList = .ok s.toList
  path : ∀ s ∈ rule.pathPattern, normalizePathPattern s.toList = .ok s.toList
  command : ∀ s ∈ rule.commandPattern, normalizeCommandPattern s.toList = .ok s.toList
  selected : (rule.toolPattern.isNone && rule.pathPattern.isNone &&
    rule.commandPattern.isNone) = false

/-- What a policy must be to be read back as it is. -/
structure WellFormed (policy : PermissionPolicy) : Prop where
  few : policy.rules.length ≤ maxRules
  ids : (policy.rules.map (·.id)).Nodup
  ordered : policy.rules.Pairwise fun a b => a.order < b.order
  settled : ∀ rule ∈ policy.rules, Settled rule

/-! ### Selectors in the file -/

section Optional

variable {normalize : List Char → Except PermissionPolicyError (List Char)} {message : String}

theorem normalizeOptional_fixed_iff {v : Option String} :
    normalizeOptional normalize message (optionalText v : Json F) = .ok v ↔
      ∀ s ∈ v, normalize s.toList = .ok s.toList := by
  cases v with
  | none => simp [normalizeOptional, optionalText]
  | some s =>
    simp only [Option.mem_def, Option.some.injEq, forall_eq']
    show (normalize s.toList >>= fun normalized => Except.ok (some (String.ofList normalized))) =
      _ ↔ _
    rw [bind_eq_ok]
    constructor
    · rintro ⟨normalized, hnormal, heq⟩
      have hs : String.ofList normalized = s := by simpa using heq
      rw [hnormal, ← hs, String.toList_ofList]
    · intro hnormal
      exact ⟨s.toList, hnormal, by rw [String.ofList_toList]⟩

theorem normalizeOptional_settles {value : Json F} {v : Option String}
    (h : normalizeOptional normalize message value = .ok v)
    (hidem : ∀ s q, value = .str s → normalize s.toList = .ok q → normalize q = .ok q) :
    ∀ s ∈ v, normalize s.toList = .ok s.toList := by
  cases value with
  | null =>
    rw [← Except.ok.inj h]
    simp
  | str raw =>
    obtain ⟨q, hq, hv⟩ := bind_eq_ok.mp h
    rw [← Except.ok.inj hv]
    simp only [Option.mem_def, Option.some.injEq, forall_eq', String.toList_ofList]
    exact hidem raw q rfl hq
  | _ => cases h

end Optional

/-! ### Rules in the file -/

theorem ofValue_value (e : PolicyEffect) : PolicyEffect.ofValue e.value = some e := by
  cases e <;> decide

theorem parseEffect_value (e : PolicyEffect) :
    parseEffect (.value (.str e.value) : EffectArg F) = .ok e := by
  dsimp only [parseEffect]
  rw [ofValue_value]

theorem orderFromPayload_int (n : Nat) : orderFromPayload (.int n : Json F) = .ok n := by
  have hn : ¬ (n : Int) < 0 := by omega
  dsimp only [orderFromPayload]
  rw [if_neg hn, Int.toNat_natCast]

theorem validateRuleId_eq_ok {id id' : String} :
    validateRuleId (.str id : Json F) = .ok id' ↔ matchesRuleId id = true ∧ id = id' := by
  dsimp only [validateRuleId]
  split <;> simp_all

variable {rule rule' : PermissionRule}

theorem ruleFromPayload_eq_ok : ruleFromPayload (rule.toStorageDict : Json F) = .ok rule' ↔
      ∃ source tool path command, matchesRuleId rule.id = true ∧
        validateSource (.str rule.source : Json F) = .ok source ∧
        normalizeOptionalToolPattern (optionalText rule.toolPattern : Json F) = .ok tool ∧
        normalizeOptionalPathPattern (optionalText rule.pathPattern : Json F) = .ok path ∧
        normalizeOptionalCommandPattern (optionalText rule.commandPattern : Json F) = .ok command ∧
        (tool.isNone && path.isNone && command.isNone) = false ∧
        rule' = ⟨rule.id, rule.effect, rule.order, source, tool, path, command⟩ := by
  have heq : ruleFromPayload (rule.toStorageDict : Json F) = (do
      let id ← validateRuleId (.str rule.id : Json F)
      let order ← orderFromPayload (.int rule.order : Json F)
      let effect ← parseEffect (.value (.str rule.effect.value) : EffectArg F)
      let source ← validateSource (.str rule.source : Json F)
      let toolPattern ← normalizeOptionalToolPattern (optionalText rule.toolPattern : Json F)
      let pathPattern ← normalizeOptionalPathPattern (optionalText rule.pathPattern : Json F)
      let commandPattern ←
        normalizeOptionalCommandPattern (optionalText rule.commandPattern : Json F)
      if toolPattern.isNone && pathPattern.isNone && commandPattern.isNone then .error .value
      else .ok ⟨id, effect, order, source, toolPattern, pathPattern, commandPattern⟩) := rfl
  rw [heq, orderFromPayload_int, parseEffect_value]
  constructor
  · intro h
    obtain ⟨id, hid, h⟩ := bind_eq_ok.mp h
    rw [ok_bind, ok_bind] at h
    simp only [bind_eq_ok] at h
    obtain ⟨source, hsource, tool, htool, path, hpath, command, hcommand, h⟩ := h
    obtain ⟨hselected, h⟩ := guard_eq_ok.mp h
    obtain ⟨hmatch, rfl⟩ := validateRuleId_eq_ok.mp hid
    exact ⟨source, tool, path, command, hmatch, hsource, htool, hpath, hcommand,
      Bool.eq_false_iff.mpr hselected, (Except.ok.inj h).symm⟩
  · rintro ⟨source, tool, path, command, hmatch, hsource, htool, hpath, hcommand, hselected, rfl⟩
    refine bind_eq_ok.mpr ⟨_, validateRuleId_eq_ok.mpr ⟨hmatch, rfl⟩, ?_⟩
    rw [ok_bind, ok_bind]
    refine bind_eq_ok.mpr ⟨_, hsource, bind_eq_ok.mpr ⟨_, htool, ?_⟩⟩
    refine bind_eq_ok.mpr ⟨_, hpath, bind_eq_ok.mpr ⟨_, hcommand, ?_⟩⟩
    exact guard_eq_ok.mpr ⟨by simp [hselected], rfl⟩

theorem ruleFromPayload_order (h : ruleFromPayload (rule.toStorageDict : Json F) = .ok rule') :
    rule'.order = rule.order := by
  obtain ⟨_, _, _, _, -, -, -, -, -, -, rfl⟩ := ruleFromPayload_eq_ok.mp h
  rfl

/-- **A rule is read back as it is exactly if it is settled.** -/
theorem ruleFromPayload_fixed_iff :
    ruleFromPayload (rule.toStorageDict : Json F) = .ok rule ↔ Settled rule := by
  rw [ruleFromPayload_eq_ok]
  constructor
  · rintro ⟨source, tool, path, command, hmatch, hsource, htool, hpath, hcommand, hselected, heq⟩
    obtain ⟨rfl, rfl, rfl, rfl⟩ : rule.source = source ∧ rule.toolPattern = tool ∧
        rule.pathPattern = path ∧ rule.commandPattern = command := by
      cases rule
      simp_all
    exact ⟨hmatch, validateSource_idem hsource, normalizeOptional_fixed_iff.mp htool,
      normalizeOptional_fixed_iff.mp hpath, normalizeOptional_fixed_iff.mp hcommand, hselected⟩
  · intro h
    exact ⟨_, _, _, _, h.id, validateSource_idem h.source, normalizeOptional_fixed_iff.mpr h.tool,
      normalizeOptional_fixed_iff.mpr h.path, normalizeOptional_fixed_iff.mpr h.command,
      h.selected, rfl⟩

theorem Settled.validateRule {rule : PermissionRule} (h : Settled rule) :
    validateRule rule = .ok () := by
  unfold Permission.validateRule
  refine bind_eq_ok.mpr ⟨_, validateRuleId_eq_ok.mpr ⟨h.id, rfl⟩, ?_⟩
  refine bind_eq_ok.mpr ⟨_, h.source, ?_⟩
  refine bind_eq_ok.mpr ⟨_, normalizeOptional_fixed_iff.mpr h.tool, ?_⟩
  refine bind_eq_ok.mpr ⟨_, normalizeOptional_fixed_iff.mpr h.path, ?_⟩
  refine bind_eq_ok.mpr ⟨_, normalizeOptional_fixed_iff.mpr h.command, ?_⟩
  exact guard_eq_ok.mpr ⟨by simp [h.selected], rfl⟩

/-! ### Policies in the file -/

theorem validateSafetyOverride_value (o : SafetyOverride) :
    validateSafetyOverride (.value (.str o.val.value) : EffectArg F) = .ok o := by
  unfold validateSafetyOverride
  rw [parseEffect_value, ok_bind, dif_neg o.property]

section Policy

variable [One F] [DecidableEq F] {policy policy' : PermissionPolicy}

theorem policyFromPayload_eq_ok {raw : Json F} :
    policyFromPayload raw = .ok policy ↔ policyFromMembers raw = .ok policy := by
  unfold policyFromPayload
  cases policyFromMembers raw <;> simp

theorem load_save_eq_ok : load (save policy : Option (Json F)) = .ok policy' ↔
      policy.listRules.length ≤ maxRules ∧
      List.Forall₂ (fun rule rule' => ruleFromPayload (rule.toStorageDict : Json F) = .ok rule')
        policy.listRules policy'.rules ∧
      validateRuleCollection policy'.rules = .ok () ∧
      policy'.sensitiveOverride = policy.sensitiveOverride ∧
      policy'.externalDirectoryOverride = policy.externalDirectoryOverride := by
  have hbody : policyFromMembers (policy.toStoragePayload : Json F) =
      if (true && (policy.listRules.map (PermissionRule.toStorageDict (F := F))).length ≤
          maxRules) = true then do
        let rules ← (policy.listRules.map PermissionRule.toStorageDict).mapM
          (ruleFromPayload (F := F))
        PermissionPolicy.create rules (.value (.str policy.sensitiveOverride.val.value : Json F))
          (.value (.str policy.externalDirectoryOverride.val.value))
      else .error .value := rfl
  have hload : load (save policy : Option (Json F)) = .ok policy' ↔
      policyFromMembers (policy.toStoragePayload : Json F) = .ok policy' := policyFromPayload_eq_ok
  rw [hload, hbody, List.length_map, Bool.true_and]
  simp only [decide_eq_true_eq]
  constructor
  · intro h
    obtain ⟨hfew, h⟩ : policy.listRules.length ≤ maxRules ∧ _ = _ := by
      split at h
      · exact ⟨by assumption, h⟩
      · cases h
    obtain ⟨rules, hrules, h⟩ := bind_eq_ok.mp h
    unfold PermissionPolicy.create at h
    rw [validateSafetyOverride_value, validateSafetyOverride_value, ok_bind, ok_bind] at h
    obtain ⟨_, hvalid, h⟩ := bind_eq_ok.mp h
    rw [← Except.ok.inj h]
    exact ⟨hfew, List.forall₂_map_left_iff.mp (mapM_eq_ok.mp hrules), hvalid, rfl, rfl⟩
  · rintro ⟨hfew, hrules, hvalid, hsensitive, hexternal⟩
    rw [if_pos hfew]
    refine bind_eq_ok.mpr ⟨_, mapM_eq_ok.mpr (List.forall₂_map_left_iff.mpr hrules), ?_⟩
    unfold PermissionPolicy.create
    rw [validateSafetyOverride_value, validateSafetyOverride_value, ok_bind, ok_bind]
    refine bind_eq_ok.mpr ⟨_, hvalid, ?_⟩
    rw [← hsensitive, ← hexternal]

theorem listRules_of_ordered (h : policy.rules.Pairwise fun a b => a.order < b.order) :
    policy.listRules = policy.rules := by
  apply List.Pairwise.insertionSort_eq
  exact h.imp Nat.le_of_lt

theorem WellFormed.validate (h : WellFormed policy) :
    validateRuleCollection policy.rules = .ok () := by
  have horders : (policy.rules.map (·.order)).Nodup :=
    List.pairwise_map.mpr (h.ordered.imp Nat.ne_of_lt)
  unfold validateRuleCollection
  rw [if_neg (Nat.not_lt.mpr h.few), if_neg (by simp [h.ids, horders])]
  exact forM_eq_ok.mpr fun rule hrule => (h.settled rule hrule).validateRule

/-- **A well-formed policy is read back as it was saved.** -/
theorem WellFormed.load_save (h : WellFormed policy) :
    load (save policy : Option (Json F)) = .ok policy := by
  have hlist := listRules_of_ordered h.ordered
  refine load_save_eq_ok.mpr ⟨by rw [hlist]; exact h.few, ?_, h.validate, rfl, rfl⟩
  rw [hlist, List.forall₂_same]
  exact fun rule hrule => ruleFromPayload_fixed_iff.mpr (h.settled rule hrule)

theorem settled_of_load_save (h : load (save policy : Option (Json F)) = .ok policy) :
    ∀ rule ∈ policy.rules, Settled rule := by
  obtain ⟨-, hrules, -⟩ := load_save_eq_ok.mp h
  have horders : policy.listRules.map (·.order) = policy.rules.map (·.order) := by
    rw [← List.forall₂_eq_eq_eq, List.forall₂_map_left_iff, List.forall₂_map_right_iff]
    exact hrules.imp fun _ _ hread => (ruleFromPayload_order hread).symm
  have hordered : policy.rules.Pairwise fun a b => a.order ≤ b.order := by
    have hsorted : policy.listRules.Pairwise fun a b => a.order ≤ b.order :=
      List.pairwise_insertionSort _ _
    rw [← List.pairwise_map (R := (· ≤ ·))] at hsorted ⊢
    rwa [← horders]
  have hlist : policy.listRules = policy.rules := hordered.insertionSort_eq
  rw [hlist, List.forall₂_same] at hrules
  exact fun rule hrule => ruleFromPayload_fixed_iff.mp (hrules rule hrule)

end Policy

/-! ### What the operations do to a policy -/

section Operations

variable {policy policy' : PermissionPolicy} {hex : String} {effect : EffectArg F}
  {tool path command source : Json F} {rule : PermissionRule}

theorem lt_nextOrder (hrule : rule ∈ policy.rules) : rule.order < policy.nextOrder := by
  unfold PermissionPolicy.nextOrder
  have hmem : rule.order ∈ policy.rules.map (·.order) := List.mem_map_of_mem hrule
  cases hmax : (policy.rules.map (·.order)).max? with
  | none =>
    rw [List.max?_eq_none_iff.mp hmax] at hmem
    cases hmem
  | some m =>
    have hle := (List.max?_eq_some_iff.mp hmax).2 _ hmem
    exact Nat.lt_succ_of_le hle

theorem grant_eq_ok (h : policy.grant hex effect tool path command source = .ok (rule, policy')) :
    policy.rules.length < maxRules ∧ policy' = { policy with rules := policy.rules ++ [rule] } ∧
      rule.id = "pr_" ++ hex ∧ rule.order = policy.nextOrder ∧
      validateSource source = .ok rule.source ∧
      normalizeOptionalToolPattern tool = .ok rule.toolPattern ∧
      normalizeOptionalPathPattern path = .ok rule.pathPattern ∧
      normalizeOptionalCommandPattern command = .ok rule.commandPattern ∧
      (rule.toolPattern.isNone && rule.pathPattern.isNone && rule.commandPattern.isNone) =
        false := by
  unfold PermissionPolicy.grant at h
  simp only [bind_eq_ok] at h
  obtain ⟨effect', -, tool', htool, path', hpath, command', hcommand, source', hsource, h⟩ := h
  obtain ⟨hselected, h⟩ := guard_eq_ok.mp h
  obtain ⟨hroom, h⟩ := guard_eq_ok.mp h
  obtain ⟨rfl, rfl⟩ := Prod.mk.inj (Except.ok.inj h)
  exact ⟨Nat.lt_of_not_le hroom, rfl, rfl, rfl, hsource, htool, hpath, hcommand,
    Bool.eq_false_iff.mpr hselected⟩

/-- The path pattern passed is a text with whitespace behind its leading `./`. -/
def PaddedArg : Json F → Prop
  | .str value => Padded value.toList
  | _ => False

/-- **The rule a grant adds is settled, unless its path pattern is padded.** -/
theorem settled_grant_iff (hhex : hex.toList.length = 32 ∧ hex.toList.all isHexDigit = true)
    (h : policy.grant hex effect tool path command source = .ok (rule, policy')) :
    Settled rule ↔ ¬ PaddedArg path := by
  obtain ⟨-, -, hid, -, hsource, htool, hpath, hcommand, hselected⟩ := grant_eq_ok h
  have hmatch : matchesRuleId rule.id = true := by
    rw [hid]
    unfold matchesRuleId
    rw [String.toList_append]
    simp [hhex.1, hhex.2]
  constructor
  · intro hsettled hpad
    cases path with
    | str value =>
      obtain ⟨q, hq, hrule⟩ := bind_eq_ok.mp hpath
      have hfixed := hsettled.path (String.ofList q) (Except.ok.inj hrule).symm
      rw [String.toList_ofList] at hfixed
      exact (normalizePathPattern_fixed_iff hq).mp hfixed hpad
    | _ => cases hpad
  · intro hpad
    refine ⟨hmatch, validateSource_idem hsource, ?_, ?_, ?_, hselected⟩
    · exact normalizeOptional_settles htool fun _ _ _ => normalizeToolPattern_idem
    · refine normalizeOptional_settles hpath fun s q hs hq => ?_
      rw [hs] at hpad
      exact (normalizePathPattern_fixed_iff hq).mpr hpad
    · exact normalizeOptional_settles hcommand fun _ _ _ => normalizeCommandPattern_idem

theorem WellFormed.grant (hw : WellFormed policy)
    (h : policy.grant hex effect tool path command source = .ok (rule, policy'))
    (hfresh : ∀ r ∈ policy.rules, r.id ≠ "pr_" ++ hex) (hsettled : Settled rule) :
    WellFormed policy' := by
  obtain ⟨hroom, rfl, hid, horder, -⟩ := grant_eq_ok h
  refine ⟨by rw [List.length_append]; exact hroom, ?_, ?_, ?_⟩
  · rw [List.map_append, List.nodup_append]
    refine ⟨hw.ids, by simp, ?_⟩
    intro id hmem id' hmem'
    obtain ⟨r, hr, rfl⟩ := List.mem_map.mp hmem
    obtain rfl : id' = rule.id := by simpa using hmem'
    rw [hid]
    exact hfresh r hr
  · rw [List.pairwise_append]
    refine ⟨hw.ordered, by simp, ?_⟩
    intro r hr r' hr'
    rw [List.mem_singleton.mp hr', horder]
    exact lt_nextOrder hr
  · intro r hr
    rcases List.mem_append.mp hr with hr | hr
    · exact hw.settled r hr
    · rw [List.mem_singleton.mp hr]
      exact hsettled

theorem WellFormed.sublist {rules : List PermissionRule} (hw : WellFormed policy)
    (hsub : rules.Sublist policy.rules) (hrules : policy'.rules = rules) : WellFormed policy' where
  few := by
    rw [hrules]
    exact hsub.length_le.trans hw.few
  ids := by
    rw [hrules]
    exact hw.ids.sublist (hsub.map _)
  ordered := by
    rw [hrules]
    exact hw.ordered.sublist hsub
  settled := by
    rw [hrules]
    exact fun rule hrule => hw.settled rule (hsub.subset hrule)

theorem revoke_eq_ok {ruleId : Json F} {removed : Bool}
    (h : policy.revoke ruleId = .ok (removed, policy')) :
    policy'.rules.Sublist policy.rules ∧ (removed = false → policy' = policy) := by
  obtain ⟨id, -, h⟩ := bind_eq_ok.mp h
  obtain ⟨rfl, rfl⟩ := Prod.mk.inj (Except.ok.inj h)
  refine ⟨List.eraseP_sublist, fun hnone => ?_⟩
  have herase : policy.rules.eraseP (·.id == id) = policy.rules := by
    apply List.eraseP_of_forall_not
    intro r hr
    exact fun hid => by simp [List.any_eq_false.mp hnone r hr] at hid
  rw [herase]

theorem setSafetyOverrides_rules {sensitive external : EffectArg F}
    (h : policy.setSafetyOverrides sensitive external = .ok policy') :
    policy'.rules = policy.rules := by
  obtain ⟨_, -, h⟩ := bind_eq_ok.mp h
  obtain ⟨_, -, h⟩ := bind_eq_ok.mp h
  rw [← Except.ok.inj h]

end Operations

/-! ### Runs of the store -/

section Runs

variable [One F] [DecidableEq F]

/-- The identifier a grant draws is no rule's yet. -/
def Op.Fresh (file : Option (Json F)) : Op F → Prop
  | .grant hex _ _ _ _ _ =>
    ∀ policy, load file = .ok policy → ∀ rule ∈ policy.rules, rule.id ≠ "pr_" ++ hex.val
  | .revoke _ | .setSafetyOverrides _ _ => True

/-- What an operation ended in. -/
abbrev Outcome := Except PermissionPolicyError (Answer × PermissionPolicy)

/-- One operation on the store, under its lock. -/
inductive Step (file : Option (Json F)) : Op F × Outcome → Option (Json F) → Prop
  | mk {op : Op F} {out : Outcome} {file' : Option (Json F)}
      (h : Commit exec file (op, out) file') (hfresh : op.Fresh file) : Step file (op, out) file'

def ReadsBack (file' : Option (Json F)) : Op F × Outcome → Prop
  | (_, .ok (_, policy)) => load file' = .ok policy
  | (_, .error _) => True

def PaddedGrant : Op F × Outcome → Prop
  | (_, .error _) => False
  | (.grant _ _ _ path _ _, .ok _) => PaddedArg path
  | (.revoke _, .ok _) | (.setSafetyOverrides _ _, .ok _) => False

/-- The file reads as a well-formed policy. -/
def Sound (file : Option (Json F)) : Prop := ∃ policy, load file = .ok policy ∧ WellFormed policy

theorem sound_none : Sound (none : Option (Json F)) :=
  ⟨{}, rfl, ⟨Nat.zero_le _, List.nodup_nil, .nil, by simp⟩⟩

variable {file file' : Option (Json F)} {op : Op F} {answer : Answer} {policy : PermissionPolicy}

theorem exec_readsBack (hsound : Sound file) (hfresh : op.Fresh file)
    (h : exec op file = .ok ((answer, policy), file'))
    (hpad : ¬ PaddedGrant (op, .ok (answer, policy))) :
    load file' = .ok policy ∧ WellFormed policy := by
  obtain ⟨old, hload, hw⟩ := hsound
  unfold exec at h
  rw [hload, ok_bind] at h
  cases op with
  | grant hex effect tool path command source =>
    obtain ⟨⟨rule, policy'⟩, hgrant, h⟩ := bind_eq_ok.mp h
    obtain ⟨heq, rfl⟩ := Prod.mk.inj (Except.ok.inj h)
    cases heq
    have hsettled := (settled_grant_iff hex.property hgrant).mpr hpad
    have hw' := hw.grant hgrant (hfresh old hload) hsettled
    exact ⟨hw'.load_save, hw'⟩
  | revoke ruleId =>
    obtain ⟨⟨removed, policy'⟩, hrevoke, h⟩ := bind_eq_ok.mp h
    obtain ⟨heq, rfl⟩ := Prod.mk.inj (Except.ok.inj h)
    obtain ⟨rfl, rfl⟩ := Prod.mk.inj heq
    obtain ⟨hsub, hkept⟩ := revoke_eq_ok hrevoke
    have hw' : WellFormed policy' := hw.sublist hsub rfl
    refine ⟨?_, hw'⟩
    by_cases hremoved : removed = true
    · rw [if_pos hremoved]
      exact hw'.load_save
    · rw [if_neg hremoved, hkept (by simpa using hremoved)]
      exact hload
  | setSafetyOverrides sensitive external =>
    obtain ⟨policy', hset, h⟩ := bind_eq_ok.mp h
    obtain ⟨heq, rfl⟩ := Prod.mk.inj (Except.ok.inj h)
    obtain ⟨rfl, rfl⟩ := Prod.mk.inj heq
    have hw' : WellFormed policy' :=
      hw.sublist (List.Sublist.refl _) (setSafetyOverrides_rules hset)
    exact ⟨hw'.load_save, hw'⟩

theorem exec_not_readsBack (h : exec op file = .ok ((answer, policy), file'))
    (hpad : PaddedGrant (op, .ok (answer, policy))) : load file' ≠ .ok policy := by
  unfold exec at h
  obtain ⟨old, -, h⟩ := bind_eq_ok.mp h
  cases op with
  | grant hex effect tool path command source =>
    obtain ⟨⟨rule, policy'⟩, hgrant, h⟩ := bind_eq_ok.mp h
    obtain ⟨heq, rfl⟩ := Prod.mk.inj (Except.ok.inj h)
    obtain ⟨-, rfl⟩ := Prod.mk.inj heq
    intro hload
    have hmem : rule ∈ policy'.rules := by
      rw [(grant_eq_ok hgrant).2.1]
      simp
    have hsettled := settled_of_load_save hload rule hmem
    exact (settled_grant_iff hex.property hgrant).mp hsettled hpad
  | _ => cases hpad

theorem Step.readsBack {entry : Op F × Outcome} (hsound : Sound file) (h : Step file entry file')
    (hpad : ¬ PaddedGrant entry) : ReadsBack file' entry ∧ Sound file' := by
  obtain ⟨hcommit, hfresh⟩ := h
  cases hcommit with
  | ok hexec =>
    obtain ⟨hload, hw⟩ := exec_readsBack hsound hfresh hexec hpad
    exact ⟨hload, _, hload, hw⟩
  | error hexec => exact ⟨trivial, hsound⟩

theorem sound_of_run {trace : List (Op F × Outcome)} (h : Run Step none trace file)
    (hpad : ∀ entry ∈ trace, ¬ PaddedGrant entry) : Sound file := by
  induction h with
  | nil => exact sound_none
  | snoc _ hstep ih =>
    have hsound := ih fun entry hentry => hpad entry (List.mem_append_left _ hentry)
    exact (hstep.readsBack hsound (hpad _ (by simp))).2

/-- **In every run from an empty store, each operation that succeeds leaves a file that reads
as exactly the policy it left behind, if and only if no grant succeeds with a path pattern
that has whitespace behind its leading `./`.** -/
theorem readsBack_iff {trace : List (Op F × Outcome)} (h : Run Step none trace file) :
    (∀ first entry rest file', trace = first ++ entry :: rest →
      Run Step none (first ++ [entry]) file' → ReadsBack file' entry) ↔
      ∀ entry ∈ trace, ¬ PaddedGrant entry := by
  constructor
  · intro hback entry hentry hpad
    obtain ⟨first, rest, rfl⟩ := List.append_of_mem hentry
    have hsplit : first ++ entry :: rest = (first ++ [entry]) ++ rest := by simp
    rw [hsplit] at h
    obtain ⟨file', hrun, -⟩ := h.split
    have hread := hback first entry rest file' rfl hrun
    obtain ⟨before, -, hcommit, -⟩ := hrun.last
    cases hcommit with
    | ok hexec => exact exec_not_readsBack hexec hpad hread
    | error => cases hpad
  · rintro hpad first entry rest file' rfl hrun
    obtain ⟨before, hbefore, hstep⟩ := hrun.last
    have hsound := sound_of_run hbefore fun e he => hpad e (List.mem_append_left _ he)
    exact (hstep.readsBack hsound (hpad entry (by simp))).1

/-- A drawn identifier. -/
def someHex : UuidHex := ⟨"0123456789abcdef0123456789abcdef", by decide, by decide⟩

def grantPath (path : String) : Op Nat :=
  .grant someHex (.effect .allow) .null (.str path) .null (.str "user")

/-- The rule `grantPath` adds, whose path pattern is normalised to `path`. -/
def grantedRule (path : String) : PermissionRule where
  id := "pr_0123456789abcdef0123456789abcdef"
  effect := .allow
  order := 0
  source := "user"
  pathPattern := some path

def grantedPolicy (path : String) : PermissionPolicy := { rules := [grantedRule path] }

/-- The grant's entry in a trace, when the pattern passed is normalised to `path`. -/
def grantEntry (pattern path : String) : Op Nat × Outcome :=
  (grantPath pattern, .ok (.rule (grantedRule path), grantedPolicy path))

theorem run_grant {pattern path : String} (h : exec (grantPath pattern) none =
      .ok ((.rule (grantedRule path), grantedPolicy path), save (grantedPolicy path))) :
    Run Step none [grantEntry pattern path] (save (grantedPolicy path)) := by
  refine Run.nil.snoc ⟨.ok h, ?_⟩
  intro policy hload rule hrule
  rw [← Except.ok.inj hload] at hrule
  cases hrule

/-- The condition on the run of one grant. -/
theorem readsBack_iff_granted :
    (∀ first entry rest file', [grantEntry "./src/**" "src/**"] = first ++ entry :: rest →
      Run Step none (first ++ [entry]) file' → ReadsBack file' entry) ↔
      ∀ entry ∈ [grantEntry "./src/**" "src/**"], ¬ PaddedGrant entry :=
  readsBack_iff (run_grant (by rfl))

/-- A grant succeeds and leaves a file that no operation can read. -/
theorem grant_unreadable : Run Step none [grantEntry "./ .." " .."] (save (grantedPolicy " ..")) ∧
      ¬ ReadsBack (save (grantedPolicy " ..")) (grantEntry "./ .." " ..") ∧
      load (save (grantedPolicy " ..") : Option (Json Nat)) = .error .corrupt := by
  have hload : load (save (grantedPolicy " ..") : Option (Json Nat)) = .error .corrupt := by rfl
  refine ⟨run_grant (by rfl), ?_, hload⟩
  intro hread
  have hok : load (save (grantedPolicy " ..") : Option (Json Nat)) = .ok (grantedPolicy " ..") :=
    hread
  rw [hload] at hok
  cases hok

end Runs

end AlysisCode.Permission
