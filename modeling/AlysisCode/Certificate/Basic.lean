/-
The verdict on a turn that wants to finish.

The problems are collected in the order of the source, one definition for each block of the
evaluation.  The verdict looks at which problems there are: some of them contradict the result,
any other leaves it insufficient.
-/
import AlysisCode.Ide.Python
import AlysisCode.Library.Collect
import Mathlib.Data.Finset.Basic

namespace AlysisCode.Certificate

/-! ### What is asked of a turn -/

inductive CriterionKind where
  | requiredArtifactPath | contentFormatSchema | explicitCommandIo | functionalApiProtocol
  | persistentService | dependencyVersion | preservationUnchangedPath | threshold
  | explicitHostUserVerificationCommand | preexistingRepoCheckSurface | referencePath
  | publicSymbolInterface
  deriving DecidableEq

inductive CriterionStatus where
  | unverified | passed | failed | blocked | notApplicable
  deriving DecidableEq

inductive Enforcement where
  | hard | advisory
  deriving DecidableEq

structure AcceptanceCriterion where
  criterionId : String
  kind : CriterionKind
  commands : List String := []
  required : Bool := true
  status : CriterionStatus := .unverified
  requiredForFinalization : Bool := true
  enforcement : Enforcement := .hard
  deriving DecidableEq

structure AcceptanceContract where
  criteria : List AcceptanceCriterion
  baselineAvailable : Bool := true

/-- A criterion that can hold up the turn. -/
def AcceptanceCriterion.Hard (criterion : AcceptanceCriterion) : Prop :=
  criterion.enforcement = .hard ∧ criterion.required = true ∧
    criterion.requiredForFinalization = true

instance (criterion : AcceptanceCriterion) : Decidable criterion.Hard :=
  inferInstanceAs (Decidable (_ ∧ _ ∧ _))

def hardCriteria : Option AcceptanceContract → List AcceptanceCriterion
  | none => []
  | some contract => contract.criteria.filter (·.Hard)

/-! ### What a turn has to show -/

structure CertificateInput (F : Type) where
  contract : Option AcceptanceContract
  finalText : String
  blocked : Bool
  blockerValid : Bool
  materialEditCount : Int
  requireMaterialResult : Bool
  verificationExpected : Bool
  verificationAttemptCount : Int
  lastVerificationPassed : Option Bool
  failedVerificationCommands : Finset String := ∅
  missingVerificationCommands : Finset String := ∅
  verificationCoverageStale : Bool := false
  acceptedVerificationEvidence : List (Json F) := []
  (executionEvidenceRequired postEditExecutionEvidencePresent regressionBaselineEnabled
    : Bool := false)
  (regressions unattributedFailures preExistingFailures agentAuthoredFailures : List String := [])
  regressionAttributionSupersedesLastFailure : Bool := false
  turnContractV2Enabled : Bool := false
  expectationsUnaddressed : List String := []
  (reproductionFirstEnabled reproUnconfirmed reproFailingAfterFix : Bool := false)
  reproStatus : String := ""
  reproArtifactsPresent : List String := []
  blastRadiusEnabled : Bool := false
  blastRadiusNewFailures : List String := []
  blastRadiusUnverified : Bool := false
  blastRadiusStatus : String := ""

inductive Problem where
  | acceptanceBaselineUnavailable | emptyFinalResponse | acceptanceEvidenceInsufficient
  | noMaterialEdits | verificationNotAttempted | verificationFailed | verificationIncomplete
  | regressionsDetected | unattributedFailures | expectationsUnaddressed | reproUnconfirmed
  | reproArtifactsPresent | blastRadiusRegressions | blastRadiusUnverified
  | acceptanceCriteriaFailed | unexpectedScopeChanges | acceptanceCriteriaUnverified
  deriving DecidableEq

def Problem.text : Problem → String
  | acceptanceBaselineUnavailable => "acceptance_baseline_unavailable"
  | emptyFinalResponse => "empty_final_response"
  | acceptanceEvidenceInsufficient => "acceptance_evidence_insufficient"
  | noMaterialEdits => "no_material_edits"
  | verificationNotAttempted => "verification_not_attempted"
  | verificationFailed => "verification_failed"
  | verificationIncomplete => "verification_incomplete"
  | regressionsDetected => "regressions_detected"
  | unattributedFailures => "unattributed_failures"
  | expectationsUnaddressed => "expectations_unaddressed"
  | reproUnconfirmed => "repro_unconfirmed"
  | reproArtifactsPresent => "repro_artifacts_present"
  | blastRadiusRegressions => "blast_radius_regressions"
  | blastRadiusUnverified => "blast_radius_unverified"
  | acceptanceCriteriaFailed => "acceptance_criteria_failed"
  | unexpectedScopeChanges => "unexpected_scope_changes"
  | acceptanceCriteriaUnverified => "acceptance_criteria_unverified"

variable {F : Type}

namespace CertificateInput

/-! ### The problems of a turn -/

variable (c : CertificateInput F)

def baselineProblems : List Problem :=
  match c.contract with
  | some contract => if contract.baselineAvailable then [] else [.acceptanceBaselineUnavailable]
  | none => []

/-- The hard criteria that commands check. -/
def requiredChecks : List AcceptanceCriterion :=
  (hardCriteria c.contract).filter fun criterion => criterion.commands ≠ []

/-- The checks passed without an edit, so none was necessary. -/
def NoEditRequirementProven : Prop :=
  c.requiredChecks ≠ [] ∧ (∀ criterion ∈ c.requiredChecks, criterion.status = .passed) ∧
    c.acceptedVerificationEvidence.isEmpty = false ∧ c.failedVerificationCommands = ∅ ∧
    c.missingVerificationCommands = ∅ ∧ c.verificationCoverageStale = false

instance (c : CertificateInput F) : Decidable c.NoEditRequirementProven :=
  inferInstanceAs (Decidable (_ ∧ _ ∧ _ ∧ _ ∧ _ ∧ _))

def finalTextProblems : List Problem :=
  if strip c.finalText = "" then [.emptyFinalResponse] else []

def materialProblems : List Problem :=
  if c.blocked then
    if c.blockerValid then [] else [.acceptanceEvidenceInsufficient]
  else if c.requireMaterialResult = true ∧ c.materialEditCount ≤ 0 ∧
      ¬ c.NoEditRequirementProven then [.noMaterialEdits]
  else []

/-- The failures of the last run are attributed, so the run itself is not held against the turn. -/
def supersedeLastFailure : Bool :=
  c.regressionBaselineEnabled && c.regressionAttributionSupersedesLastFailure

def verificationProblems : List Problem :=
  if c.verificationExpected then
    if c.verificationAttemptCount ≤ 0 then [.verificationNotAttempted]
    else if c.failedVerificationCommands ≠ ∅ then [.verificationFailed]
    else if c.lastVerificationPassed ≠ some true ∧ c.supersedeLastFailure = false then
      [.verificationFailed]
    else if c.missingVerificationCommands ≠ ∅ then [.verificationIncomplete]
    else if c.verificationCoverageStale then [.verificationIncomplete]
    else []
  else []

def regressionProblems : List Problem :=
  if c.regressionBaselineEnabled = true ∧ c.blocked = false then
    if c.regressions ≠ [] then [.regressionsDetected]
    else if c.unattributedFailures ≠ [] ∧ c.verificationExpected = true then
      [.unattributedFailures]
    else []
  else []

def expectationProblems : List Problem :=
  if c.turnContractV2Enabled = true ∧ c.blocked = false ∧ c.expectationsUnaddressed ≠ [] then
    [.expectationsUnaddressed]
  else []

def reproProblems : List Problem :=
  (if (c.reproductionFirstEnabled && c.reproUnconfirmed) = true ∧ c.blocked = false then
    [.reproUnconfirmed] else []) ++
    if c.reproductionFirstEnabled = true ∧ c.blocked = false ∧ c.reproArtifactsPresent ≠ [] then
      [.reproArtifactsPresent]
    else []

def blastRadiusProblems : List Problem :=
  if c.blocked = false ∧ c.blastRadiusEnabled = true then
    if c.blastRadiusNewFailures ≠ [] then [.blastRadiusRegressions]
    else if c.blastRadiusUnverified then [.blastRadiusUnverified]
    else []
  else []

def executionProblems : List Problem :=
  if c.executionEvidenceRequired = true ∧ c.postEditExecutionEvidencePresent = false then
    if c.verificationAttemptCount ≤ 0 then [.verificationNotAttempted]
    else [.verificationIncomplete]
  else []

def blockerCoversMissing : Bool := c.blocked && c.blockerValid

def criterionProblems (criterion : AcceptanceCriterion) : List Problem :=
  match criterion.status with
  | .passed => []
  | .failed =>
    .acceptanceCriteriaFailed ::
      if criterion.kind = .preservationUnchangedPath then [.unexpectedScopeChanges] else []
  | .blocked => if c.blockerCoversMissing then [] else [.acceptanceEvidenceInsufficient]
  | .unverified => if c.blockerCoversMissing then [] else [.acceptanceCriteriaUnverified]
  | .notApplicable => []

def criteriaProblems : List Problem :=
  (hardCriteria c.contract).flatMap c.criterionProblems

def problems : List Problem :=
  c.baselineProblems ++ c.finalTextProblems ++ c.materialProblems ++ c.verificationProblems ++
    c.regressionProblems ++ c.expectationProblems ++ c.reproProblems ++ c.blastRadiusProblems ++
    c.executionProblems ++ c.criteriaProblems

/-- `dict.fromkeys(problems)` -/
def dedupedProblems : List Problem :=
  c.problems.foldl (Collect.keepOne id) []

def idsWith (status : CriterionStatus) : List String :=
  ((hardCriteria c.contract).filter (·.status = status)).map AcceptanceCriterion.criterionId

end CertificateInput

/-! ### The certificate -/

inductive Verdict where
  | sufficient | insufficient | contradicted
  deriving DecidableEq

def Verdict.rank : Verdict → Nat
  | contradicted => 0
  | insufficient => 1
  | sufficient => 2

structure CompletionCertificate where
  status : Verdict
  (problems hardCriterionIds coveredHardCriterionIds failedHardCriterionIds evidenceHierarchy
    : List String)
  reason : String
  (regressions unattributedFailures preExistingFailures agentAuthoredFailures
    expectationsUnaddressed : List String)
  reproStatus : String
  reproArtifactsPresent : List String
  blastRadiusStatus : String
  blastRadiusNewFailures : List String

/-- `_EVIDENCE_RANK`, with 99 for any other origin. -/
def evidenceRank (origin : String) : Nat :=
  (["HOST_AUTHORITATIVE", "USER_EXPLICIT", "PREEXISTING_TASK_CHECKER", "DIRECT_BLACK_BOX",
    "PREEXISTING_REPO_NATIVE", "SELF_AUTHORED", "AD_HOC_OBSERVATION"].idxOf? origin).getD 99

/-- The older names of some origins. -/
def renamedOrigin (raw : String) : String :=
  if raw = "AUTHORITATIVE" then "HOST_AUTHORITATIVE"
  else if raw = "TASK_ACCEPTANCE" then "DIRECT_BLACK_BOX"
  else if raw = "REPO_NATIVE" then "PREEXISTING_REPO_NATIVE"
  else raw

variable (python : Python F) (c : CertificateInput F)

/-- The origin that one piece of evidence names. -/
def originOf : Json F → List String
  | .obj item =>
    let read := Json.get item
    let raw := python.text (python.orElse (read "origin") (python.orElse (read "evidence_origin")
      (python.orElse (read "evidence_category") (python.orElse (read "category") (.str "")))))
    if raw = "" then [] else [renamedOrigin raw]
  | _ => []

def evidenceHierarchy (evidence : List (Json F)) : List String :=
  ((evidence.flatMap (originOf python)).dedup.filter (· ≠ "")).mergeSort fun a b =>
    evidenceRank a < evidenceRank b || (evidenceRank a = evidenceRank b && a ≤ b)

/-- A problem that proves the result wrong. -/
def CertificateInput.Contradicted : Prop :=
  c.idsWith .failed ≠ [] ∨ .verificationFailed ∈ c.dedupedProblems ∨
    .regressionsDetected ∈ c.dedupedProblems ∨ .blastRadiusRegressions ∈ c.dedupedProblems ∨
    (c.reproductionFirstEnabled = true ∧ c.reproFailingAfterFix = true ∧
      .reproUnconfirmed ∈ c.dedupedProblems)

instance (c : CertificateInput F) : Decidable c.Contradicted :=
  inferInstanceAs (Decidable (_ ∨ _ ∨ _ ∨ _ ∨ _))

def CertificateInput.verdict : Verdict × String :=
  if c.Contradicted then (.contradicted, "hard_requirement_failed")
  else if c.dedupedProblems ≠ [] then (.insufficient, "requirements_missing")
  else (.sufficient, "requirements_satisfied")

def evaluateCompletionCertificate : CompletionCertificate where
  status := c.verdict.1
  problems := c.dedupedProblems.map Problem.text
  hardCriterionIds := (hardCriteria c.contract).map AcceptanceCriterion.criterionId
  coveredHardCriterionIds := c.idsWith .passed
  failedHardCriterionIds := c.idsWith .failed
  evidenceHierarchy := evidenceHierarchy python c.acceptedVerificationEvidence
  reason := c.verdict.2
  regressions := if c.regressionBaselineEnabled then c.regressions else []
  unattributedFailures := if c.regressionBaselineEnabled then c.unattributedFailures else []
  preExistingFailures := if c.regressionBaselineEnabled then c.preExistingFailures else []
  agentAuthoredFailures := if c.regressionBaselineEnabled then c.agentAuthoredFailures else []
  expectationsUnaddressed := if c.turnContractV2Enabled then c.expectationsUnaddressed else []
  reproStatus := if c.reproductionFirstEnabled then c.reproStatus else ""
  reproArtifactsPresent :=
    if c.reproductionFirstEnabled then c.reproArtifactsPresent else []
  blastRadiusStatus := if c.blastRadiusEnabled then c.blastRadiusStatus else ""
  blastRadiusNewFailures := if c.blastRadiusEnabled then c.blastRadiusNewFailures else []

end AlysisCode.Certificate
