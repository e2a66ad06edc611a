/-
What a verdict promises, and that evidence against a turn never improves it.

A verdict depends on two things only: whether there is a problem, and whether there is one that
proves the result wrong.  Each change for the worse keeps both, block by block; where it changes
the problem of a block, the new one is at least as bad.
-/
import AlysisCode.Certificate.Basic

namespace AlysisCode.Certificate

variable {F : Type}

/-- What a sufficient verdict stands for. -/
structure CertificateInput.Justified (c : CertificateInput F) : Prop where
  finalText : strip c.finalText ≠ ""
  /-- Every hard criterion passed, does not apply, or is excused by a valid blocker. -/
  criteria : ∀ criterion ∈ hardCriteria c.contract,
    criterion.status = .passed ∨ criterion.status = .notApplicable ∨
      (criterion.status ≠ .failed ∧ c.blocked = true ∧ c.blockerValid = true)
  commands : c.verificationExpected = true →
    c.failedVerificationCommands = ∅ ∧ c.missingVerificationCommands = ∅
  execution : c.executionEvidenceRequired = true → c.postEditExecutionEvidencePresent = true

inductive CriterionStatus.WorseThan : CriterionStatus → CriterionStatus → Prop where
  | doubted : WorseThan .unverified .passed
  | refuted : WorseThan .failed .passed
  | disproved : WorseThan .failed .unverified

/-- The turn with another contract. -/
def CertificateInput.under (c : CertificateInput F) (contract : AcceptanceContract) :
    CertificateInput F :=
  { c with contract := some contract }

/-- The changes for the worse. -/
inductive Worsens (c : CertificateInput F) : CertificateInput F → Prop where
  | criterion {baseline : Bool} {front back : List AcceptanceCriterion}
    {criterion : AcceptanceCriterion} {status : CriterionStatus}
    (contract : c.contract = some ⟨front ++ criterion :: back, baseline⟩)
    (worse : status.WorseThan criterion.status) :
    Worsens c (c.under ⟨front ++ { criterion with status := status } :: back, baseline⟩)
  | noEvidence : Worsens c { c with acceptedVerificationEvidence := [] }
  | failedCommand (command : String) : Worsens c { c with
      failedVerificationCommands := insert command c.failedVerificationCommands }
  | missingCommand (command : String) : Worsens c { c with
      missingVerificationCommands := insert command c.missingVerificationCommands }
  | regression {more : List String} (sub : c.regressions.Sublist more) :
    Worsens c { c with regressions := more }
  | blastRadiusFailure {more : List String} (sub : c.blastRadiusNewFailures.Sublist more) :
    Worsens c { c with blastRadiusNewFailures := more }
  | expectation {more : List String} (sub : c.expectationsUnaddressed.Sublist more) :
    Worsens c { c with expectationsUnaddressed := more }

/-- A problem that can prove the result wrong by being there. -/
def Problem.Telling : Problem → Prop
  | .verificationFailed | .regressionsDetected | .blastRadiusRegressions | .reproUnconfirmed => True
  | _ => False

/-- The second problems are at least as bad as the first. -/
structure AtLeast (xs ys : List Problem) : Prop where
  some : ys = [] → xs = []
  telling : ∀ problem ∈ xs, problem.Telling → problem ∈ ys

namespace AtLeast

theorem refl (xs : List Problem) : AtLeast xs xs := ⟨id, fun _ h _ => h⟩

theorem nil (ys : List Problem) : AtLeast [] ys :=
  ⟨fun _ => rfl, fun _ h => absurd h List.not_mem_nil⟩

theorem append {xs ys xs' ys' : List Problem} (h : AtLeast xs ys) (h' : AtLeast xs' ys') :
    AtLeast (xs ++ xs') (ys ++ ys') := by
  constructor
  · intro hnone
    obtain ⟨hys, hys'⟩ := List.append_eq_nil_iff.mp hnone
    rw [h.some hys, h'.some hys']
    rfl
  · intro problem hmem htelling
    rcases List.mem_append.mp hmem with hmem | hmem
    · exact List.mem_append_left _ (h.telling problem hmem htelling)
    · exact List.mem_append_right _ (h'.telling problem hmem htelling)

theorem single {problem : Problem} (hquiet : ¬ problem.Telling) (p : Problem)
    (ys : List Problem) : AtLeast [problem] (p :: ys) := by
  constructor
  · intro hnone
    cases hnone
  · intro q hq htelling
    rw [List.mem_singleton.mp hq] at htelling
    exact absurd htelling hquiet

variable {p q : Prop} [Decidable p] [Decidable q] {xs ys xs' ys' : List Problem}

theorem ite (h : p → AtLeast xs ys) (h' : ¬ p → AtLeast xs' ys') :
    AtLeast (if p then xs else xs') (if p then ys else ys') := by
  split
  · next hp => exact h hp
  · next hp => exact h' hp

/-- A problem that is met more often is no less telling than what it comes before. -/
theorem sooner {problem : Problem} (hpq : p → q) (h : AtLeast xs [problem]) :
    AtLeast (if p then [problem] else xs) (if q then [problem] else xs) := by
  by_cases hp : p
  · rw [if_pos hp, if_pos (hpq hp)]
    exact refl _
  · rw [if_neg hp]
    split
    · exact h
    · exact refl _

end AtLeast

namespace CertificateInput

variable {c c' : CertificateInput F}

/-! ### The problems and the verdict -/

theorem mem_dedupedProblems {problem : Problem} :
    problem ∈ c.dedupedProblems ↔ problem ∈ c.problems := by
  unfold dedupedProblems
  rw [Collect.mem_keepFirst_id]
  simp

theorem dedupedProblems_eq_nil : c.dedupedProblems = [] ↔ c.problems = [] := by
  rw [List.eq_nil_iff_forall_not_mem, List.eq_nil_iff_forall_not_mem]
  exact forall_congr' fun _ => not_congr mem_dedupedProblems

theorem problems_eq_nil : c.problems = [] ↔
    c.baselineProblems = [] ∧ c.finalTextProblems = [] ∧ c.materialProblems = [] ∧
      c.verificationProblems = [] ∧ c.regressionProblems = [] ∧ c.expectationProblems = [] ∧
      c.reproProblems = [] ∧ c.blastRadiusProblems = [] ∧ c.executionProblems = [] ∧
      c.criteriaProblems = [] := by
  unfold problems
  simp only [List.append_eq_nil_iff, and_assoc]

theorem idsWith_failed_eq_nil :
    c.idsWith .failed = [] ↔ ∀ criterion ∈ hardCriteria c.contract, criterion.status ≠ .failed := by
  unfold idsWith
  rw [List.map_eq_nil_iff, List.filter_eq_nil_iff]
  simp

theorem criteriaProblems_eq_nil : c.criteriaProblems = [] ↔
    ∀ criterion ∈ hardCriteria c.contract, c.criterionProblems criterion = [] := by
  unfold criteriaProblems
  exact List.flatMap_eq_nil_iff

theorem verdict_of_contradicted (h : c.Contradicted) : c.verdict.1 = .contradicted := by
  unfold verdict
  rw [if_pos h]

theorem verdict_eq_sufficient : c.verdict.1 = .sufficient ↔ ¬ c.Contradicted ∧ c.problems = [] := by
  unfold verdict
  by_cases hbad : c.Contradicted
  · simp [hbad]
  · rw [if_neg hbad, ← dedupedProblems_eq_nil]
    by_cases hnone : c.dedupedProblems = []
    · simp [hnone, hbad]
    · simp [hnone]

theorem rank_le (hproblems : AtLeast c.problems c'.problems)
    (hfailed : c'.idsWith .failed = [] → c.idsWith .failed = [])
    (henabled : c'.reproductionFirstEnabled = c.reproductionFirstEnabled)
    (hfailing : c'.reproFailingAfterFix = c.reproFailingAfterFix) :
    c'.verdict.1.rank ≤ c.verdict.1.rank := by
  have hbad : c.Contradicted → c'.Contradicted := by
    have hstays {problem : Problem} (htelling : problem.Telling)
        (hmem : problem ∈ c.dedupedProblems) : problem ∈ c'.dedupedProblems :=
      mem_dedupedProblems.mpr (hproblems.telling _ (mem_dedupedProblems.mp hmem) htelling)
    unfold Contradicted
    rw [henabled, hfailing]
    rintro (hids | hmem | hmem | hmem | ⟨hon, hstill, hmem⟩)
    · exact .inl (mt hfailed hids)
    · exact .inr (.inl (hstays trivial hmem))
    · exact .inr (.inr (.inl (hstays trivial hmem)))
    · exact .inr (.inr (.inr (.inl (hstays trivial hmem))))
    · exact .inr (.inr (.inr (.inr ⟨hon, hstill, hstays trivial hmem⟩)))
  have hnone : c'.dedupedProblems = [] → c.dedupedProblems = [] := by
    rw [dedupedProblems_eq_nil, dedupedProblems_eq_nil]
    exact hproblems.some
  unfold verdict
  by_cases hworst : c'.Contradicted
  · rw [if_pos hworst]
    exact Nat.zero_le _
  · rw [if_neg hworst, if_neg (mt hbad hworst)]
    by_cases hflaw : c'.dedupedProblems = []
    · rw [if_neg (not_not.mpr hflaw), if_neg (not_not.mpr (hnone hflaw))]
    · rw [if_pos hflaw]
      by_cases hold : c.dedupedProblems = []
      · rw [if_neg (not_not.mpr hold)]
        exact Nat.le_succ _
      · rw [if_pos hold]

theorem atLeast_problems (hbaseline : c'.baselineProblems = c.baselineProblems)
    (hfinal : c'.finalTextProblems = c.finalTextProblems)
    (hmaterial : AtLeast c.materialProblems c'.materialProblems)
    (hverification : AtLeast c.verificationProblems c'.verificationProblems)
    (hregression : AtLeast c.regressionProblems c'.regressionProblems)
    (hexpectation : AtLeast c.expectationProblems c'.expectationProblems)
    (hrepro : c'.reproProblems = c.reproProblems)
    (hblast : AtLeast c.blastRadiusProblems c'.blastRadiusProblems)
    (hexecution : c'.executionProblems = c.executionProblems)
    (hcriteria : AtLeast c.criteriaProblems c'.criteriaProblems) :
    AtLeast c.problems c'.problems := by
  unfold problems
  rw [hbaseline, hfinal, hrepro, hexecution]
  have hfront := (AtLeast.refl (c.baselineProblems ++ c.finalTextProblems)).append hmaterial
  have hevidence := ((hfront.append hverification).append hregression).append hexpectation
  have hlast := (hevidence.append (AtLeast.refl c.reproProblems)).append hblast
  exact (hlast.append (AtLeast.refl c.executionProblems)).append hcriteria

/-! ### One block at a time -/

theorem atLeast_material (hblocked : c'.blocked = c.blocked)
    (hvalid : c'.blockerValid = c.blockerValid)
    (hrequire : c'.requireMaterialResult = c.requireMaterialResult)
    (hcount : c'.materialEditCount = c.materialEditCount)
    (hproven : c'.NoEditRequirementProven → c.NoEditRequirementProven) :
    AtLeast c.materialProblems c'.materialProblems := by
  unfold materialProblems
  rw [hblocked, hvalid, hrequire, hcount]
  by_cases hb : c.blocked = true
  · rw [if_pos hb, if_pos hb]
    exact AtLeast.refl _
  · rw [if_neg hb, if_neg hb]
    by_cases hlack : c.requireMaterialResult = true ∧ c.materialEditCount ≤ 0 ∧
        ¬ c.NoEditRequirementProven
    · rw [if_pos hlack, if_pos ⟨hlack.1, hlack.2.1, mt hproven hlack.2.2⟩]
      exact AtLeast.refl _
    · rw [if_neg hlack]
      exact AtLeast.nil _

theorem atLeast_failedCommand (command : String) : AtLeast c.verificationProblems
      { c with failedVerificationCommands := insert command c.failedVerificationCommands
        }.verificationProblems := by
  unfold verificationProblems
  refine .ite (fun _ => .ite (fun _ => .refl _) fun _ => ?_) fun _ => .nil _
  refine .sooner (fun _ => Finset.insert_ne_empty command _) ?_
  split
  · exact AtLeast.refl _
  · split
    · exact AtLeast.single id _ _
    · split
      · exact AtLeast.single id _ _
      · exact AtLeast.nil _

theorem atLeast_missingCommand (command : String) : AtLeast c.verificationProblems
      { c with missingVerificationCommands := insert command c.missingVerificationCommands
        }.verificationProblems := by
  unfold verificationProblems
  refine .ite (fun _ => .ite (fun _ => .refl _) fun _ => ?_) fun _ => .nil _
  refine .ite (fun _ => .refl _) fun _ => .ite (fun _ => .refl _) fun _ => ?_
  refine .sooner (fun _ => Finset.insert_ne_empty command _) ?_
  split
  · exact AtLeast.refl _
  · exact AtLeast.nil _

theorem ne_nil_of_sublist {xs ys : List String} (h : xs.Sublist ys) (hxs : xs ≠ []) : ys ≠ [] := by
  rintro rfl
  exact hxs (List.sublist_nil.mp h)

variable {more : List String} {status : CriterionStatus}

theorem atLeast_regression (h : c.regressions.Sublist more) :
    AtLeast c.regressionProblems { c with regressions := more }.regressionProblems := by
  unfold regressionProblems
  refine .ite (fun _ => .sooner (ne_nil_of_sublist h) ?_) fun _ => .nil _
  split
  · exact AtLeast.single id _ _
  · exact AtLeast.nil _

theorem atLeast_blastRadius (h : c.blastRadiusNewFailures.Sublist more) :
    AtLeast c.blastRadiusProblems
      { c with blastRadiusNewFailures := more }.blastRadiusProblems := by
  unfold blastRadiusProblems
  refine .ite (fun _ => .sooner (ne_nil_of_sublist h) ?_) fun _ => .nil _
  split
  · exact AtLeast.single id _ _
  · exact AtLeast.nil _

theorem atLeast_expectation (h : c.expectationsUnaddressed.Sublist more) :
    AtLeast c.expectationProblems
      { c with expectationsUnaddressed := more }.expectationProblems := by
  unfold expectationProblems
  exact .sooner (fun hold => ⟨hold.1, hold.2.1, ne_nil_of_sublist h hold.2.2⟩) (.nil _)

/-! ### A worse criterion -/

theorem hardCriteria_append (front back : List AcceptanceCriterion) (criterion : AcceptanceCriterion)
    (baseline : Bool) : hardCriteria (some ⟨front ++ criterion :: back, baseline⟩) =
      front.filter (·.Hard) ++ ((if criterion.Hard then [criterion] else []) ++
        back.filter (·.Hard)) := by
  unfold hardCriteria
  dsimp only
  rw [List.filter_append, List.filter_cons]
  by_cases hhard : criterion.Hard
  · rw [if_pos hhard, if_pos (decide_eq_true hhard)]
    rfl
  · rw [if_neg hhard, if_neg (by simpa using hhard)]
    rfl

theorem atLeast_criterion {criterion : AcceptanceCriterion} (h : status.WorseThan criterion.status) :
    AtLeast (c.criterionProblems criterion)
      (c.criterionProblems { criterion with status := status }) := by
  unfold criterionProblems
  generalize criterion.status = old at h
  cases h with
  | doubted | refuted => exact AtLeast.nil _
  | disproved =>
    dsimp only
    by_cases hcovered : c.blockerCoversMissing = true
    · rw [if_pos hcovered]
      exact AtLeast.nil _
    · rw [if_neg hcovered]
      exact AtLeast.single id _ _

theorem worse_status {old : CriterionStatus} (h : status.WorseThan old) :
    old ≠ .failed ∧ status ≠ .passed := by
  cases h with
  | doubted | refuted | disproved => exact ⟨nofun, nofun⟩

section Criterion

variable {baseline : Bool} {front back : List AcceptanceCriterion}
  {criterion : AcceptanceCriterion} {status : CriterionStatus}

theorem mem_hardCriteria_split {other : AcceptanceCriterion} :
    other ∈ hardCriteria (some ⟨front ++ criterion :: back, baseline⟩) ↔
      other ∈ front.filter (·.Hard) ∨ (criterion.Hard ∧ other = criterion) ∨
        other ∈ back.filter (·.Hard) := by
  rw [hardCriteria_append, List.mem_append, List.mem_append]
  refine or_congr_right (or_congr_left ?_)
  by_cases hhard : criterion.Hard
  · simp [hhard]
  · simp [hhard]

theorem proven_of_worse (hcontract : c.contract = some ⟨front ++ criterion :: back, baseline⟩)
    (hworse : status.WorseThan criterion.status)
    (hproven : (c.under ⟨front ++ { criterion with status := status } :: back,
      baseline⟩).NoEditRequirementProven) : c.NoEditRequirementProven := by
  obtain ⟨hsome, hpassed, hrest⟩ := hproven
  -- the criterion itself is no hard criterion with commands, so the checks are the same
  have hother : ¬ (criterion.Hard ∧ criterion.commands ≠ []) := by
    intro h
    refine (worse_status hworse).2 (hpassed { criterion with status := status } ?_)
    refine List.mem_filter.mpr ⟨mem_hardCriteria_split.mpr (.inr (.inl ⟨h.1, rfl⟩)), ?_⟩
    simpa using h.2
  have hsame : c.requiredChecks =
      (c.under ⟨front ++ { criterion with status := status } :: back, baseline⟩).requiredChecks := by
    unfold requiredChecks under
    rw [hcontract, hardCriteria_append, hardCriteria_append, List.filter_append,
      List.filter_append, List.filter_append, List.filter_append]
    by_cases hhard : criterion.Hard
    · have hnone : criterion.commands = [] := by
        by_contra hsome
        exact hother ⟨hhard, hsome⟩
      have hhard' : { criterion with status := status }.Hard := hhard
      rw [if_pos hhard, if_pos hhard']
      simp [hnone]
    · have hhard' : ¬ { criterion with status := status }.Hard := hhard
      rw [if_neg hhard, if_neg hhard']
  rw [← hsame] at hsome hpassed
  exact ⟨hsome, hpassed, hrest⟩

theorem atLeast_criteria (hcontract : c.contract = some ⟨front ++ criterion :: back, baseline⟩)
    (hworse : status.WorseThan criterion.status) :
    AtLeast c.criteriaProblems (c.under
      ⟨front ++ { criterion with status := status } :: back, baseline⟩).criteriaProblems := by
  unfold criteriaProblems under
  rw [hcontract, hardCriteria_append, hardCriteria_append, List.flatMap_append,
    List.flatMap_append, List.flatMap_append, List.flatMap_append]
  refine (AtLeast.refl _).append (AtLeast.append ?_ (AtLeast.refl _))
  by_cases hhard : criterion.Hard
  · have hhard' : { criterion with status := status }.Hard := hhard
    rw [if_pos hhard, if_pos hhard', List.flatMap_singleton, List.flatMap_singleton]
    exact atLeast_criterion hworse
  · rw [if_neg hhard]
    exact AtLeast.nil _

theorem failed_of_worse (hcontract : c.contract = some ⟨front ++ criterion :: back, baseline⟩)
    (hworse : status.WorseThan criterion.status)
    (hnone : (c.under ⟨front ++ { criterion with status := status } :: back,
      baseline⟩).idsWith .failed = []) : c.idsWith .failed = [] := by
  rw [idsWith_failed_eq_nil] at hnone ⊢
  intro other hother
  rw [hcontract] at hother
  rcases mem_hardCriteria_split.mp hother with hfront | ⟨-, rfl⟩ | hback
  · exact hnone other (mem_hardCriteria_split.mpr (.inl hfront))
  · exact (worse_status hworse).1
  · exact hnone other (mem_hardCriteria_split.mpr (.inr (.inr hback)))

end Criterion

/-! ### The verdict -/

/-- A change for the worse never improves the verdict. -/
theorem rank_le_of_worsens (h : Worsens c c') : c'.verdict.1.rank ≤ c.verdict.1.rank := by
  cases h with
  | criterion hcontract hworse =>
    refine rank_le ?_ (failed_of_worse hcontract hworse) rfl rfl
    refine atLeast_problems ?_ rfl ?_ (.refl _) (.refl _) (.refl _) rfl (.refl _) rfl
      (atLeast_criteria hcontract hworse)
    · unfold baselineProblems
      rw [hcontract]
      rfl
    · exact atLeast_material rfl rfl rfl rfl (proven_of_worse hcontract hworse)
  | noEvidence =>
    refine rank_le (atLeast_problems rfl rfl ?_ (.refl _) (.refl _) (.refl _) rfl (.refl _) rfl
      (.refl _)) id rfl rfl
    refine atLeast_material rfl rfl rfl rfl fun hproven => ?_
    exact absurd hproven.2.2.1 (by simp)
  | failedCommand command =>
    refine rank_le (atLeast_problems rfl rfl ?_ (atLeast_failedCommand command) (.refl _)
      (.refl _) rfl (.refl _) rfl (.refl _)) id rfl rfl
    refine atLeast_material rfl rfl rfl rfl fun hproven => ?_
    exact absurd hproven.2.2.2.1 (Finset.insert_ne_empty command _)
  | missingCommand command =>
    refine rank_le (atLeast_problems rfl rfl ?_ (atLeast_missingCommand command) (.refl _)
      (.refl _) rfl (.refl _) rfl (.refl _)) id rfl rfl
    refine atLeast_material rfl rfl rfl rfl fun hproven => ?_
    exact absurd hproven.2.2.2.2.1 (Finset.insert_ne_empty command _)
  | regression sub =>
    exact rank_le (atLeast_problems rfl rfl (.refl _) (.refl _) (atLeast_regression sub)
      (.refl _) rfl (.refl _) rfl (.refl _)) id rfl rfl
  | blastRadiusFailure sub =>
    exact rank_le (atLeast_problems rfl rfl (.refl _) (.refl _) (.refl _) (.refl _) rfl
      (atLeast_blastRadius sub) rfl (.refl _)) id rfl rfl
  | expectation sub =>
    exact rank_le (atLeast_problems rfl rfl (.refl _) (.refl _) (.refl _)
      (atLeast_expectation sub) rfl (.refl _) rfl (.refl _)) id rfl rfl

theorem justified_of_sufficient (h : c.verdict.1 = .sufficient) : c.Justified := by
  obtain ⟨-, hnone⟩ := verdict_eq_sufficient.mp h
  obtain ⟨-, hfinal, -, hverification, -, -, -, -, hexecution, hcriteria⟩ :=
    problems_eq_nil.mp hnone
  constructor
  · intro hempty
    rw [finalTextProblems, if_pos hempty] at hfinal
    cases hfinal
  · intro criterion hmem
    have hquiet := criteriaProblems_eq_nil.mp hcriteria criterion hmem
    have hcovered : c.blockerCoversMissing = true → c.blocked = true ∧ c.blockerValid = true :=
      (Bool.and_eq_true _ _).mp
    unfold criterionProblems at hquiet
    cases hstatus : criterion.status with
    | passed => exact .inl rfl
    | notApplicable => exact .inr (.inl rfl)
    | failed =>
      rw [hstatus] at hquiet
      cases hquiet
    | blocked | unverified =>
      rw [hstatus] at hquiet
      by_cases hcover : c.blockerCoversMissing = true
      · exact .inr (.inr ⟨nofun, hcovered hcover⟩)
      · simp [hcover] at hquiet
  · intro hexpected
    unfold verificationProblems at hverification
    rw [if_pos hexpected] at hverification
    by_contra hlack
    rw [Classical.not_and_iff_not_or_not] at hlack
    split_ifs at hverification with hnever hfailed hlast hmissing
    · exact hlack.elim (fun h => hfailed h) fun h => hmissing h
  · intro hrequired
    by_contra hlack
    unfold executionProblems at hexecution
    rw [if_pos ⟨hrequired, Bool.eq_false_of_not_eq_true hlack⟩] at hexecution
    split at hexecution
    · cases hexecution
    · cases hexecution

end CertificateInput

/-- **A certificate is justified where it is sufficient, contradicted where a hard criterion
failed, and no better where the evidence is worse.** -/
theorem certificate_verdict (python : Python F) (c : CertificateInput F) :
    ((evaluateCompletionCertificate python c).status = .sufficient → c.Justified) ∧
      (∀ criterion ∈ hardCriteria c.contract, criterion.status = .failed →
        (evaluateCompletionCertificate python c).status = .contradicted) ∧
      ∀ c', Worsens c c' → (evaluateCompletionCertificate python c').status.rank ≤
        (evaluateCompletionCertificate python c).status.rank := by
  refine ⟨CertificateInput.justified_of_sufficient, ?_, fun _ => CertificateInput.rank_le_of_worsens⟩
  intro criterion hmem hfailed
  refine CertificateInput.verdict_of_contradicted (.inl ?_)
  exact fun hnone => CertificateInput.idsWith_failed_eq_nil.mp hnone criterion hmem hfailed

/-! ### A criterion that does not apply -/

/-- A turn that finishes with a hard criterion that does not apply. -/
def inapplicable : CertificateInput Empty where
  contract := some ⟨[{
    criterionId := "c1", kind := .contentFormatSchema, status := .notApplicable }], true⟩
  finalText := "Done."
  blocked := false
  blockerValid := false
  materialEditCount := 1
  requireMaterialResult := true
  verificationExpected := false
  verificationAttemptCount := 0
  lastVerificationPassed := none

/-- It is sufficient, though the criterion neither passed nor is excused. -/
theorem inapplicable_sufficient : ¬ ∀ (python : Python Empty) (c : CertificateInput Empty),
      (evaluateCompletionCertificate python c).status = .sufficient →
        ∀ criterion ∈ hardCriteria c.contract, criterion.status = .passed ∨
          (c.blocked = true ∧ c.blockerValid = true) := by
  intro hexcused
  have hverdict : inapplicable.verdict.1 = .sufficient := by decide +kernel
  have hhard := hexcused ⟨fun _ => "", nofun⟩ inapplicable hverdict _ (List.mem_singleton.mpr rfl)
  exact absurd hhard (by decide)

end AlysisCode.Certificate
