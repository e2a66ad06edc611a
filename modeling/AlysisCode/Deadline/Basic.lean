/-
Execution deadlines: how long a run may take, and what it may still start.

A deadline is an absolute reading of a monotonic clock, or none.  On its way there a run goes
through phases: by the fraction of its budget that has elapsed it stops opening new work and
then stops editing, and when no more than its finalization reserve remains it only finishes.
The reserve follows the durations observed so far, so it moves while the run goes on.

The clock is read anew each time it is needed; a function takes every reading it makes.
-/
import Mathlib.Data.List.Sort
import Mathlib.Order.WithBot
import Mathlib.Algebra.Order.Ring.Rat
import AlysisCode.Ide.Common

namespace AlysisCode.Deadline

/-- The floats a deadline is reckoned in, other than not-a-number: their order, their
rounded arithmetic, and which are finite. -/
class Seconds (T : Type) extends Clock T, Mul T, Div T where
  isFinite : T → Bool

/-- Exact seconds. -/
instance : Seconds ℚ where
  isFinite _ := true

inductive DeadlinePhase where
  | normal
  | convergence
  | wrapUp
  | finalizationWindow
  | exhausted
  deriving DecidableEq, Repr

inductive DeadlineSource where
  | explicitCli
  | environment
  | config
  | runtimeDefault
  | inheritedParent
  | subagentFallback
  | absent
  | unknown
  deriving DecidableEq, Repr

/-- The operations by their names. -/
inductive DeadlineOperation where
  | mainLlm
  | mainLlmRetry
  | compactionLlm
  | adaptiveRetryLlm
  | subagent
  | verification
  | shellTool
  | shellBackground
  | explorationTool
  | mutationTool
  | providerRetrySleep
  | localFinalSummary
  | toolDispatch
  deriving DecidableEq, Repr

def DeadlineOperation.value : DeadlineOperation → String
  | .mainLlm => "main_llm"
  | .mainLlmRetry => "main_llm_retry"
  | .compactionLlm => "compaction_llm"
  | .adaptiveRetryLlm => "adaptive_retry_llm"
  | .subagent => "subagent"
  | .verification => "verification"
  | .shellTool => "shell_tool"
  | .shellBackground => "shell_background"
  | .explorationTool => "exploration_tool"
  | .mutationTool => "mutation_tool"
  | .providerRetrySleep => "provider_retry_sleep"
  | .localFinalSummary => "local_final_summary"
  | .toolDispatch => "tool_dispatch"

def finalizationBlockedOperations : List DeadlineOperation :=
  [.mainLlmRetry, .compactionLlm, .adaptiveRetryLlm, .subagent, .shellBackground,
    .explorationTool, .providerRetrySleep]

def degradationBlockedOperations : DeadlinePhase → List DeadlineOperation
  | .convergence => [.subagent, .shellBackground]
  | .wrapUp => [.subagent, .shellBackground, .explorationTool, .mutationTool]
  | _ => []

variable {T : Type} [Seconds T]

def deadlineEstimateWindowSize : Nat := 5

/-- A literal with a fraction. -/
def ratio (a b : Nat) : T := (a : T) / (b : T)

/-- `MINIMUM_OPERATION_TIMEOUT_SECONDS`, 0.05. -/
def minimumOperationTimeoutSeconds : T := ratio 5 100

def defaultDeadlineCleanupReserveSeconds : T := ((1 : Nat) : T)

def minimumSubagentStartSeconds : T := ((2 : Nat) : T)

def zero : T := ((0 : Nat) : T)

/-- `validate_deadline_seconds`; the error is its `ValueError`. -/
def validateDeadlineSeconds (value : T) (key : String) : Except String T :=
  if value ≤ zero ∨ Seconds.isFinite value = false then
    .error s!"{key} must be a finite number > 0"
  else .ok value

/-! ### Policies -/

structure DeadlineDegradationPolicy (T : Type) where
  enabled : Bool
  convergenceFraction : T
  wrapUpFraction : T

def clampFraction (value fallback : T) : T :=
  if Seconds.isFinite value = false ∨ value ≤ zero ∨ ((1 : Nat) : T) < value then fallback
  else value

/-- Convergence does not come after wrap-up. -/
def DeadlineDegradationPolicy.normalized (p : DeadlineDegradationPolicy T) :
    DeadlineDegradationPolicy T :=
  let wrapUp := clampFraction p.wrapUpFraction (ratio 90 100)
  let convergence := clampFraction p.convergenceFraction (ratio 75 100)
  { p with convergenceFraction := min convergence wrapUp, wrapUpFraction := wrapUp }

structure DeadlineFinalizationPolicy (T : Type) where
  (minimumReserveSeconds cleanupReserveSeconds maxReserveSeconds maxReserveFraction
    llmLatencyMultiplier verificationLatencyMultiplier toolLatencyMultiplier
    localCleanupSeconds : T)

def DeadlineFinalizationPolicy.normalized (p : DeadlineFinalizationPolicy T) :
    DeadlineFinalizationPolicy T where
  minimumReserveSeconds := max zero p.minimumReserveSeconds
  cleanupReserveSeconds := max zero p.cleanupReserveSeconds
  maxReserveSeconds := max zero p.maxReserveSeconds
  maxReserveFraction := max zero (min ((1 : Nat) : T) p.maxReserveFraction)
  llmLatencyMultiplier := max zero p.llmLatencyMultiplier
  verificationLatencyMultiplier := max zero p.verificationLatencyMultiplier
  toolLatencyMultiplier := max zero p.toolLatencyMultiplier
  localCleanupSeconds := max zero p.localCleanupSeconds

def DeadlineFinalizationPolicy.default : DeadlineFinalizationPolicy T where
  minimumReserveSeconds := ((1 : Nat) : T)
  cleanupReserveSeconds := defaultDeadlineCleanupReserveSeconds
  maxReserveSeconds := ((120 : Nat) : T)
  maxReserveFraction := ratio 25 100
  llmLatencyMultiplier := ratio 15 10
  verificationLatencyMultiplier := ratio 125 100
  toolLatencyMultiplier := ratio 11 10
  localCleanupSeconds := defaultDeadlineCleanupReserveSeconds

def DeadlineDegradationPolicy.default : DeadlineDegradationPolicy T where
  enabled := true
  convergenceFraction := ratio 75 100
  wrapUpFraction := ratio 90 100

/-! ### Observed durations -/

structure DeadlineDurationObservation (T : Type) where
  count : Nat
  recentSeconds : List T

/-- `record`; the last few durations are kept. -/
def DeadlineDurationObservation.record (o : DeadlineDurationObservation T) (duration : T) :
    DeadlineDurationObservation T :=
  let recent := o.recentSeconds ++ [max zero duration]
  { count := o.count + 1, recentSeconds := recent.drop (recent.length - deadlineEstimateWindowSize) }

/-- `statistics.median`, of what is not empty. -/
def median (values : List T) : T :=
  let sorted := values.insertionSort (· ≤ ·)
  let half := sorted.length / 2
  if sorted.length % 2 = 1 then sorted.getD half zero
  else (sorted.getD (half - 1) zero + sorted.getD half zero) / ((2 : Nat) : T)

def DeadlineDurationObservation.estimateSeconds (o : DeadlineDurationObservation T) : T :=
  if o.recentSeconds.isEmpty then zero else median o.recentSeconds

/-! ### Deadlines -/

structure ExecutionDeadline (T : Type) where
  startedAtMonotonic : T
  deadlineMonotonic : Option T
  configuredDurationSeconds : Option T
  source : DeadlineSource
  finalizationPolicy : DeadlineFinalizationPolicy T
  degradationPolicy : DeadlineDegradationPolicy T
  /-- `_duration_observations`, by the operation's name. -/
  durationObservations : List (String × DeadlineDurationObservation T)

namespace ExecutionDeadline

/-- `from_duration`, at a reading of the clock. -/
def fromDuration (durationSeconds : Option T) (started : T) (source : DeadlineSource) :
    Except String (ExecutionDeadline T) := do
  let duration ← durationSeconds.mapM (validateDeadlineSeconds · "run_deadline_seconds")
  .ok { startedAtMonotonic := started, deadlineMonotonic := duration.map (started + ·),
        configuredDurationSeconds := duration, source,
        finalizationPolicy := .default, degradationPolicy := .default,
        durationObservations := [] }

def fromAbsolute (startedAtMonotonic : T) (deadlineMonotonic configuredDurationSeconds : Option T)
    (source : DeadlineSource) (finalizationPolicy : DeadlineFinalizationPolicy T)
    (degradationPolicy : DeadlineDegradationPolicy T) : Except String (ExecutionDeadline T) :=
  if deadlineMonotonic.any (Seconds.isFinite · == false) then
    .error "deadline_monotonic must be finite when provided"
  else do
    let _ ← configuredDurationSeconds.mapM (validateDeadlineSeconds · "run_deadline_seconds")
    .ok { startedAtMonotonic, deadlineMonotonic, configuredDurationSeconds, source,
          finalizationPolicy, degradationPolicy, durationObservations := [] }

variable (d : ExecutionDeadline T)

def enabled : Bool := d.deadlineMonotonic.isSome

def elapsedSeconds (clock : T) : T :=
  max zero (clock - d.startedAtMonotonic)

def remainingSeconds (clock : T) : Option T :=
  d.deadlineMonotonic.map fun deadline => max zero (deadline - clock)

def isExhausted (clock : T) : Bool :=
  (d.remainingSeconds clock).any (· ≤ zero)

/-- The greatest estimate among the observations whose name is as asked; zero if there is
none. -/
def observed (named : String → Bool) : T :=
  match (d.durationObservations.filter fun o => named o.1 && 0 < o.2.count).map
      (·.2.estimateSeconds) with
  | [] => zero
  | e :: rest => rest.foldl max e

/-- `word in name` -/
def mentions (word name : String) : Bool := name.toList.tails.any (word.toList.isPrefixOf ·)

/-- `finalization_reserve_seconds`, under the deadline's own policy. -/
def finalizationReserveSeconds : T :=
  if d.enabled then
    let effective := d.finalizationPolicy.normalized
    let verifies (name : String) : Bool := mentions "verification" name || mentions "verify" name
    let observedLlm := d.observed (mentions "llm")
    let observedVerification := d.observed verifies
    let observedTool := d.observed fun name => !mentions "llm" name && !verifies name
    let rawReserve := [effective.cleanupReserveSeconds, effective.localCleanupSeconds,
      observedLlm * effective.llmLatencyMultiplier,
      observedVerification * effective.verificationLatencyMultiplier,
      observedTool * effective.toolLatencyMultiplier].foldl max effective.minimumReserveSeconds
    let relativeCap := match d.configuredDurationSeconds with
      | none => effective.maxReserveSeconds
      | some configured =>
        max minimumOperationTimeoutSeconds (configured * effective.maxReserveFraction)
    let cap := max minimumOperationTimeoutSeconds (min effective.maxReserveSeconds relativeCap)
    max zero (min rawReserve cap)
  else zero

def normalWorkRemainingSeconds (clock : T) : Option T :=
  (d.remainingSeconds clock).map fun remaining =>
    max zero (remaining - d.finalizationReserveSeconds)

def budgetSpanSeconds : Option T :=
  match d.deadlineMonotonic with
  | none => none
  | some deadline =>
    match d.configuredDurationSeconds.filter (zero < ·) with
    | some configured => some configured
    | none =>
      let span := deadline - d.startedAtMonotonic
      if zero < span then some span else none

def elapsedFraction (clock : T) : Option T :=
  d.budgetSpanSeconds.map fun span => max zero (d.elapsedSeconds clock / span)

def degradationStage (clock : T) : DeadlinePhase :=
  let policy := d.degradationPolicy.normalized
  if policy.enabled then
    match d.elapsedFraction clock with
    | none => .normal
    | some fraction =>
      if policy.wrapUpFraction ≤ fraction then .wrapUp
      else if policy.convergenceFraction ≤ fraction then .convergence
      else .normal
  else .normal

end ExecutionDeadline

/-- The readings `phase` makes: for the test on exhaustion, for what remains, and for what
has elapsed. -/
structure PhaseClock (T : Type) where
  (exhausted remaining elapsed : T)

namespace ExecutionDeadline

def phase (d : ExecutionDeadline T) (clock : PhaseClock T) : DeadlinePhase :=
  if d.isExhausted clock.exhausted then .exhausted
  else
    match d.remainingSeconds clock.remaining with
    | none => .normal
    | some remaining =>
      if remaining ≤ d.finalizationReserveSeconds then .finalizationWindow
      else d.degradationStage clock.elapsed

end ExecutionDeadline

/-! ### What may start -/

structure DeadlineStartDecision (T : Type) where
  operation : String
  allowed : Bool
  phase : DeadlinePhase
  reason : String
  remainingSeconds : Option T
  normalWorkRemainingSeconds : Option T
  finalizationReserveSeconds : T
  minimumRequiredSeconds : T
  estimatedDurationSeconds : Option T

/-- The readings `start_decision` makes, in order. -/
structure StartClock (T : Type) where
  remaining : T
  normalRemaining : T
  phase : PhaseClock T
  estimate : T
  degradation : T

namespace ExecutionDeadline

variable (d : ExecutionDeadline T)

/-- `clamp_timeout`, with the default reserve and minimum. -/
def clampTimeout (configured : T) (clock : T) : Except String (Option T) :=
  match d.remainingSeconds clock with
  | none => .ok (some configured)
  | some remaining =>
    let safeRemaining := remaining - max zero defaultDeadlineCleanupReserveSeconds
    if safeRemaining < max zero minimumOperationTimeoutSeconds then .ok none
    else do
      let configured ← validateDeadlineSeconds configured "configured_timeout_seconds"
      .ok (some (max minimumOperationTimeoutSeconds (min configured safeRemaining)))

variable (operation : DeadlineOperation)

def estimatedDurationSeconds (configuredTimeout defaultSeconds : Option T) (clock : T) :
    Except String (Option T) := do
  let observed := ((d.durationObservations.lookup operation.value).filter (0 < ·.count)).map
    (·.estimateSeconds)
  let fallback := defaultSeconds.map (max zero ·)
  let configured ← configuredTimeout.mapM fun timeout => do
    let timeout ← validateDeadlineSeconds timeout "configured_timeout_seconds"
    let clamped ← d.clampTimeout timeout clock
    .ok (clamped.getD timeout)
  match observed.toList ++ fallback.toList ++ configured.toList with
  | [] => .ok none
  | c :: rest => .ok (some (rest.foldl max c))

/-- The estimate `start_decision` goes by: the caller's, or its own. -/
def startEstimate (minimum : T) (estimated configuredTimeout : Option T) (clock : T) :
    Except String (Option T) :=
  match estimated with
  | some estimate => .ok (some estimate)
  | none => d.estimatedDurationSeconds operation configuredTimeout (some minimum) clock

def startDecision (minimumRemaining : T) (estimated configuredTimeout : Option T)
    (allowDuringFinalization : Bool) (clock : StartClock T) :
    Except String (DeadlineStartDecision T) := do
  let remaining := d.remainingSeconds clock.remaining
  let reserve := d.finalizationReserveSeconds
  let normalRemaining := d.normalWorkRemainingSeconds clock.normalRemaining
  let phase := d.phase clock.phase
  let minimum := max zero minimumRemaining
  let estimate ← d.startEstimate operation minimum estimated configuredTimeout clock.estimate
  let decision (allowed : Bool) (phase : DeadlinePhase) (reason : String) :
      DeadlineStartDecision T :=
    { operation := operation.value, allowed, phase, reason, remainingSeconds := remaining,
      normalWorkRemainingSeconds := normalRemaining, finalizationReserveSeconds := reserve,
      minimumRequiredSeconds := minimum, estimatedDurationSeconds := estimate }
  match remaining with
  | none => .ok (decision true phase "deadline_unconfigured")
  | some left =>
    let degraded := degradationBlockedOperations (d.degradationStage clock.degradation)
    if phase = .exhausted then .ok (decision false phase "deadline_exhausted")
    else if left < minimum then .ok (decision false phase "insufficient_hard_remaining")
    else if estimate.any (left < ·) then .ok (decision false phase "insufficient_hard_remaining")
    else if phase = .finalizationWindow then
      if operation ∈ finalizationBlockedOperations ∧ allowDuringFinalization = false then
        .ok (decision false phase "finalization_disallows_operation")
      else if operation ∈ degraded then
        .ok (decision false phase "budget_degradation_disallows_operation")
      else .ok (decision true phase "finalization_allowed")
    else if operation ∈ degraded then
      .ok (decision false phase "budget_degradation_disallows_operation")
    else if estimate.any fun e => normalRemaining.any (· < e) then
      .ok (decision false phase "insufficient_normal_work_remaining")
    else .ok (decision true phase "normal_work_allowed")

end ExecutionDeadline

/-! ### Children -/

/-- The readings `derive_subagent_deadline` makes, in order. -/
structure DeriveClock (T : Type) where
  now : T
  phase : PhaseClock T

def deriveSubagentDeadline (parent : Option (ExecutionDeadline T)) (fallbackSeconds : Option T)
    (clock : DeriveClock T) : Except String (ExecutionDeadline T) :=
  match fallbackSeconds with
  | none =>
    match parent with
    | some parent => .ok parent
    | none => ExecutionDeadline.fromDuration none clock.now .absent
  | some fallbackSeconds => do
    let fallback ← validateDeadlineSeconds fallbackSeconds "subagent_timeout_s"
    match parent with
    | none => ExecutionDeadline.fromDuration (some fallback) clock.now .subagentFallback
    | some parent =>
      let fallbackDeadline := clock.now + fallback
      let phase := parent.phase clock.phase
      if parent.enabled ∧ (phase = .finalizationWindow ∨ phase = .exhausted) then .ok parent
      else if parent.deadlineMonotonic.any (· ≤ fallbackDeadline) then .ok parent
      else
        ExecutionDeadline.fromAbsolute clock.now (some fallbackDeadline) (some fallback)
          .subagentFallback parent.finalizationPolicy parent.degradationPolicy

end AlysisCode.Deadline
