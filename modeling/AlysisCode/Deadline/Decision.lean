/-
What a deadline lets start, for operations of any name, and how long they may take.

Operations are the names that `_normalize_operation` leaves.  What is decided about an operation
that is allowed is sound at the readings of the clock that the decision was made with.
-/
import AlysisCode.Deadline.Basic
import AlysisCode.Library.Runs

namespace AlysisCode.Deadline

open Runs

variable {T : Type} [Seconds T]

namespace ExecutionDeadline

variable (d : ExecutionDeadline T)

def observeDuration (name : String) (duration : T) : ExecutionDeadline T :=
  { d with
    durationObservations :=
      if d.durationObservations.any (·.1 == name) then
        d.durationObservations.map fun o =>
          if o.1 == name then (o.1, o.2.record duration) else o
      else d.durationObservations ++
        [(name, (⟨0, []⟩ : DeadlineDurationObservation T).record duration)] }

/-- `clamp_timeout` -/
def clampTimeoutTo (configured : Option T) (reserve minimum : T) (clock : T) :
    Except String (Option T) :=
  match d.remainingSeconds clock with
  | none => .ok configured
  | some remaining =>
    let safeRemaining := remaining - max zero reserve
    if safeRemaining < max zero minimum then .ok none
    else
      match configured with
      | none => .ok (some safeRemaining)
      | some configured => do
        let configured ← validateDeadlineSeconds configured "configured_timeout_seconds"
        .ok (some (max minimum (min configured safeRemaining)))

/-- `estimated_duration_seconds` -/
def estimatedDurationOf (name : String) (configuredTimeout defaultSeconds : Option T) (clock : T) :
    Except String (Option T) := do
  let observed := ((d.durationObservations.lookup name).filter (0 < ·.count)).map
    (·.estimateSeconds)
  let fallback := defaultSeconds.map (max zero ·)
  let configured ← configuredTimeout.mapM fun timeout => do
    let timeout ← validateDeadlineSeconds timeout "configured_timeout_seconds"
    let clamped ← d.clampTimeoutTo (some timeout) defaultDeadlineCleanupReserveSeconds
      minimumOperationTimeoutSeconds clock
    .ok (clamped.getD timeout)
  match observed.toList ++ fallback.toList ++ configured.toList with
  | [] => .ok none
  | c :: rest => .ok (some (rest.foldl max c))

def startEstimateOf (name : String) (minimum : T) (estimated configuredTimeout : Option T)
    (clock : T) : Except String (Option T) :=
  match estimated with
  | some estimate => .ok (some estimate)
  | none => d.estimatedDurationOf name configuredTimeout (some minimum) clock

end ExecutionDeadline

def finalizationCloses (name : String) : Bool :=
  (finalizationBlockedOperations.map DeadlineOperation.value).contains name

def stageCloses (stage : DeadlinePhase) (name : String) : Bool :=
  ((degradationBlockedOperations stage).map DeadlineOperation.value).contains name

namespace ExecutionDeadline

/-- `start_decision` -/
def startDecisionOf (d : ExecutionDeadline T) (name : String) (minimumRemaining : T)
    (estimated configuredTimeout : Option T) (allowDuringFinalization : Bool)
    (clock : StartClock T) : Except String (DeadlineStartDecision T) := do
  let remaining := d.remainingSeconds clock.remaining
  let normalRemaining := d.normalWorkRemainingSeconds clock.normalRemaining
  let phase := d.phase clock.phase
  let minimum := max zero minimumRemaining
  let estimate ← d.startEstimateOf name minimum estimated configuredTimeout clock.estimate
  let decision (allowed : Bool) (reason : String) : DeadlineStartDecision T :=
    { operation := name, allowed, phase, reason, remainingSeconds := remaining,
      normalWorkRemainingSeconds := normalRemaining,
      finalizationReserveSeconds := d.finalizationReserveSeconds,
      minimumRequiredSeconds := minimum, estimatedDurationSeconds := estimate }
  match remaining with
  | none => .ok (decision true "deadline_unconfigured")
  | some left =>
    let degraded := stageCloses (d.degradationStage clock.degradation) name
    if phase = .exhausted then .ok (decision false "deadline_exhausted")
    else if left < minimum then .ok (decision false "insufficient_hard_remaining")
    else if estimate.any (left < ·) then .ok (decision false "insufficient_hard_remaining")
    else if phase = .finalizationWindow then
      if finalizationCloses name = true ∧ allowDuringFinalization = false then
        .ok (decision false "finalization_disallows_operation")
      else if degraded then .ok (decision false "budget_degradation_disallows_operation")
      else .ok (decision true "finalization_allowed")
    else if degraded then .ok (decision false "budget_degradation_disallows_operation")
    else if estimate.any fun e => normalRemaining.any (· < e) then
      .ok (decision false "insufficient_normal_work_remaining")
    else .ok (decision true "normal_work_allowed")

end ExecutionDeadline

/-! ### Operations by their names -/

/-! ### What a decision and a timeout promise -/

namespace ExecutionDeadline

variable {d : ExecutionDeadline T} {configured : Option T}

/-- **A timeout leaves the reserve.** -/
theorem clampTimeoutTo_le {reserve minimum clock timeout remaining : T}
    (h : d.clampTimeoutTo configured reserve minimum clock = .ok (some timeout))
    (hremaining : d.remainingSeconds clock = some remaining) :
    timeout ≤ remaining - max zero reserve := by
  unfold clampTimeoutTo at h
  rw [hremaining] at h
  dsimp only at h
  split_ifs at h with hshort
  · cases h
  · cases configured with
    | none =>
      obtain rfl := Option.some.inj (Except.ok.inj h)
      exact le_refl _
    | some configured =>
      obtain ⟨checked, -, h⟩ := bind_eq_ok.mp h
      obtain rfl := Option.some.inj (Except.ok.inj h)
      have hminimum := le_trans (le_max_right zero minimum) (not_lt.mp hshort)
      exact max_le hminimum (min_le_right _ _)

/-- Everything a decision can say of a deadline that is set, with the reason it gives. -/
theorem startDecisionOf_cases {name : String} {minimum : T} {estimated : Option T} {allow : Bool}
    {clock : StartClock T} {decision : DeadlineStartDecision T} {left : T}
    (h : d.startDecisionOf name minimum estimated configured allow clock = .ok decision)
    (hleft : d.remainingSeconds clock.remaining = some left) :
    decision.phase = d.phase clock.phase ∧ (decision.allowed = false ∨
        (d.phase clock.phase ≠ .exhausted ∧ max zero minimum ≤ left ∧
          (∀ e ∈ decision.estimatedDurationSeconds, e ≤ left) ∧
          stageCloses (d.degradationStage clock.degradation) name = false ∧
          (d.phase clock.phase = .finalizationWindow →
            finalizationCloses name = false ∨ allow = true) ∧
          (d.phase clock.phase ≠ .finalizationWindow → ∀ e ∈ decision.estimatedDurationSeconds,
            ∀ n ∈ d.normalWorkRemainingSeconds clock.normalRemaining, e ≤ n))) ∧
      (decision.reason = "deadline_exhausted" → d.phase clock.phase = .exhausted) ∧
      (decision.reason = "finalization_disallows_operation" →
        d.phase clock.phase = .finalizationWindow ∧ finalizationCloses name = true ∧
          allow = false) ∧
      (decision.reason = "budget_degradation_disallows_operation" →
        stageCloses (d.degradationStage clock.degradation) name = true) := by
  obtain ⟨estimate, -, h⟩ := bind_eq_ok.mp h
  rw [hleft] at h
  dsimp only at h
  have hfits (hestimate : ¬ estimate.any (left < ·) = true) : ∀ e ∈ estimate, e ≤ left := by
    intro e he
    rw [Option.mem_def.mp he, Option.any_some, decide_eq_true_eq] at hestimate
    exact not_lt.mp hestimate
  split_ifs at h with hexhausted hminimum hestimate hfinal hclosed hdegraded hdegraded hnormal
  · cases h
    exact ⟨rfl, .inl rfl, fun _ => hexhausted, by simp, by simp⟩
  · cases h
    exact ⟨rfl, .inl rfl, by simp, by simp, by simp⟩
  · cases h
    exact ⟨rfl, .inl rfl, by simp, by simp, by simp⟩
  · cases h
    exact ⟨rfl, .inl rfl, by simp, fun _ => ⟨hfinal, hclosed⟩, by simp⟩
  · cases h
    exact ⟨rfl, .inl rfl, by simp, by simp, fun _ => hdegraded⟩
  · cases h
    refine ⟨rfl, .inr ⟨hexhausted, not_lt.mp hminimum, hfits hestimate,
      Bool.eq_false_of_not_eq_true hdegraded, ?_, fun hnot => absurd hfinal hnot⟩,
      by simp, by simp, by simp⟩
    intro _
    by_cases hcloses : finalizationCloses name = true
    · exact .inr (Bool.eq_true_of_not_eq_false fun hnot => hclosed ⟨hcloses, hnot⟩)
    · exact .inl (Bool.eq_false_of_not_eq_true hcloses)
  · cases h
    exact ⟨rfl, .inl rfl, by simp, by simp, fun _ => hdegraded⟩
  · cases h
    exact ⟨rfl, .inl rfl, by simp, by simp, by simp⟩
  · cases h
    refine ⟨rfl, .inr ⟨hexhausted, not_lt.mp hminimum, hfits hestimate,
      Bool.eq_false_of_not_eq_true hdegraded, fun hyes => absurd hyes hfinal, ?_⟩,
      by simp, by simp, by simp⟩
    intro _ e he n hn
    have hsome : estimate = some e := he
    rw [hsome, Option.any_some, Option.mem_def.mp hn, Option.any_some, decide_eq_true_eq] at hnormal
    exact not_lt.mp hnormal

end ExecutionDeadline

end AlysisCode.Deadline
