/-
A run under a deadline: the clock goes on, and durations are observed.

The stages of the budget are fractions of elapsed time, so they only move on.  The finalization
window is opened by the reserve, which follows the durations observed last; an observation can
lower the reserve below what remains, and that is the only way back.
-/
import AlysisCode.Deadline.Decision
import AlysisCode.Deadline.Subagent

namespace AlysisCode.Deadline

open Runs

/-- Rounding keeps the order. -/
class MonotoneSeconds (T : Type) extends Seconds T where
  sub_le_sub_left : ∀ {a b : T}, a ≤ b → ∀ c : T, c - b ≤ c - a
  sub_le_sub_right : ∀ {a b : T}, a ≤ b → ∀ c : T, a - c ≤ b - c
  div_le_div_right : ∀ {a b c : T}, a ≤ b → zero < c → a / c ≤ b / c

instance : MonotoneSeconds ℚ where
  sub_le_sub_left h c := sub_le_sub_left h c
  sub_le_sub_right h c := sub_le_sub_right h c
  div_le_div_right h hc := by
    exact div_le_div_of_nonneg_right h (le_of_lt hc)

/-- How far a run has got. -/
def DeadlinePhase.rank : DeadlinePhase → Nat
  | .normal => 0
  | .convergence => 1
  | .wrapUp => 2
  | .finalizationWindow => 3
  | .exhausted => 4

variable {T : Type} [MonotoneSeconds T]

/-- A deadline, and the last reading of the clock. -/
structure Progress (T : Type) [MonotoneSeconds T] where
  deadline : ExecutionDeadline T
  clock : T

inductive Event (T : Type) where
  | wait (clock : T)
  | observe (name : String) (duration : T)

/-- One step of a run; the clock does not go back. -/
inductive Step : Progress T → Event T → Progress T → Prop where
  | wait {p : Progress T} {clock : T} (hle : p.clock ≤ clock) :
    Step p (.wait clock) { p with clock := clock }
  | observe {p : Progress T} (name : String) (duration : T) :
    Step p (.observe name duration) { p with
      deadline := p.deadline.observeDuration name duration }

/-- What remains is within the reserve. -/
def WindowOpen (d : ExecutionDeadline T) (clock : T) : Prop :=
  ∃ left, d.remainingSeconds clock = some left ∧ left ≤ d.finalizationReserveSeconds

/-- An observation that lowers the reserve below what remains, while the window is open. -/
def Reopens (p : Progress T) : Event T → Prop
  | .wait _ => False
  | .observe name duration => WindowOpen p.deadline p.clock ∧
      ¬ WindowOpen (p.deadline.observeDuration name duration) p.clock

/-- The readings of a call of `phase` are in order. -/
def PhaseClock.Ordered (clock : PhaseClock T) : Prop :=
  clock.exhausted ≤ clock.remaining ∧ clock.remaining ≤ clock.elapsed

/-! ### The stages of the budget -/

namespace ExecutionDeadline

variable {d : ExecutionDeadline T} {clock clock' : T}

theorem remainingSeconds_anti {left left' : T} (hle : clock ≤ clock')
    (h : d.remainingSeconds clock = some left) (h' : d.remainingSeconds clock' = some left') :
    left' ≤ left := by
  unfold remainingSeconds at h h'
  cases hdeadline : d.deadlineMonotonic with
  | none =>
    rw [hdeadline] at h
    cases h
  | some deadline =>
    rw [hdeadline] at h h'
    cases h
    cases h'
    exact max_le_max (le_refl _) (MonotoneSeconds.sub_le_sub_left hle deadline)

theorem exists_remaining {left : T} (h : d.remainingSeconds clock = some left) (clock' : T) :
    ∃ left', d.remainingSeconds clock' = some left' := by
  unfold remainingSeconds at h ⊢
  cases hdeadline : d.deadlineMonotonic with
  | none =>
    rw [hdeadline] at h
    cases h
  | some deadline => exact ⟨_, rfl⟩

theorem isExhausted_mono (hle : clock ≤ clock') (h : d.isExhausted clock = true) :
    d.isExhausted clock' = true := by
  unfold isExhausted at h ⊢
  obtain ⟨left, hleft, hzero⟩ := (Option.any_eq_true _ _).mp h
  obtain ⟨left', hleft'⟩ := exists_remaining hleft clock'
  have hanti := remainingSeconds_anti hle hleft hleft'
  rw [hleft', Option.any_some, decide_eq_true_eq]
  exact le_trans hanti (of_decide_eq_true hzero)

/-- **A stage that was reached is not left for an earlier one.** -/
theorem degradationStage_mono (d : ExecutionDeadline T) (hle : clock ≤ clock') :
    (d.degradationStage clock).rank ≤ (d.degradationStage clock').rank := by
  unfold degradationStage elapsedFraction
  by_cases henabled : d.degradationPolicy.normalized.enabled = true
  · rw [if_pos henabled, if_pos henabled]
    cases hspan : d.budgetSpanSeconds with
    | none => exact Nat.le_refl _
    | some span =>
      have hpos : zero < span := by
        unfold budgetSpanSeconds at hspan
        split at hspan
        · cases hspan
        · split at hspan
          · rename_i configured hconfigured
            cases hspan
            obtain ⟨-, hpositive⟩ := Option.filter_eq_some_iff.mp hconfigured
            exact of_decide_eq_true hpositive
          · dsimp only at hspan
            split at hspan
            · rename_i hpositive
              cases hspan
              exact hpositive
            · cases hspan
      have helapsed : d.elapsedSeconds clock ≤ d.elapsedSeconds clock' :=
        max_le_max (le_refl _) (MonotoneSeconds.sub_le_sub_right hle _)
      have hfraction : max zero (d.elapsedSeconds clock / span) ≤
          max zero (d.elapsedSeconds clock' / span) :=
        max_le_max (le_refl _) (MonotoneSeconds.div_le_div_right helapsed hpos)
      simp only [Option.map_some]
      by_cases hwrapUp : d.degradationPolicy.normalized.wrapUpFraction ≤
          max zero (d.elapsedSeconds clock / span)
      · rw [if_pos hwrapUp, if_pos (le_trans hwrapUp hfraction)]
      · rw [if_neg hwrapUp]
        by_cases hconvergence : d.degradationPolicy.normalized.convergenceFraction ≤
            max zero (d.elapsedSeconds clock / span)
        · rw [if_pos hconvergence, if_pos (le_trans hconvergence hfraction)]
          split
          · exact Nat.le_succ _
          · exact Nat.le_refl _
        · rw [if_neg hconvergence]
          exact Nat.zero_le _
  · rw [if_neg henabled, if_neg henabled]

theorem degradationStage_rank (d : ExecutionDeadline T) (clock : T) :
    (d.degradationStage clock).rank ≤ DeadlinePhase.rank .wrapUp := by
  unfold degradationStage
  dsimp only
  split
  · split
    · exact Nat.zero_le _
    · split
      · exact Nat.le_refl _
      · split
        · exact Nat.le_succ _
        · exact Nat.zero_le _
  · exact Nat.zero_le _

end ExecutionDeadline

variable {name : String} {decision : DeadlineStartDecision T}

theorem stageCloses_mono {stage stage' : DeadlinePhase} (hle : stage.rank ≤ stage'.rank)
    (hlast : stage'.rank ≤ DeadlinePhase.rank .wrapUp) (h : stageCloses stage name = true) :
    stageCloses stage' name = true := by
  unfold stageCloses at h ⊢
  rw [List.contains_iff_mem] at h ⊢
  refine List.map_subset _ ?_ h
  cases stage with
  | normal | finalizationWindow | exhausted => exact List.nil_subset _
  | convergence =>
    cases stage' with
    | convergence => exact List.Subset.refl _
    | wrapUp => decide
    | normal => exact absurd hle (by decide)
    | finalizationWindow | exhausted => exact absurd hlast (by decide)
  | wrapUp =>
    cases stage' with
    | wrapUp => exact List.Subset.refl _
    | normal | convergence => exact absurd hle (by decide)
    | finalizationWindow | exhausted => exact absurd hlast (by decide)

/-! ### The finalization window -/

variable {d : ExecutionDeadline T} {events : List (Event T)} {p p' : Progress T}
  {clock : StartClock T}

theorem WindowOpen.later {clock clock' : T} (h : WindowOpen d clock) (hle : clock ≤ clock') :
    WindowOpen d clock' := by
  obtain ⟨left, hleft, hreserve⟩ := h
  obtain ⟨left', hleft'⟩ := ExecutionDeadline.exists_remaining hleft clock'
  have hanti := ExecutionDeadline.remainingSeconds_anti hle hleft hleft'
  exact ⟨left', hleft', le_trans hanti hreserve⟩

theorem phase_cases (d : ExecutionDeadline T) (clock : PhaseClock T) :
    (d.phase clock = .exhausted ∧ d.isExhausted clock.exhausted = true) ∨
      (d.phase clock = .finalizationWindow ∧ WindowOpen d clock.remaining) ∨
      (d.phase clock = .normal ∧ d.deadlineMonotonic = none) ∨
      (d.phase clock = d.degradationStage clock.elapsed ∧ ¬ WindowOpen d clock.remaining ∧
        d.isExhausted clock.exhausted = false) := by
  unfold ExecutionDeadline.phase
  by_cases hexhausted : d.isExhausted clock.exhausted = true
  · rw [if_pos hexhausted]
    exact .inl ⟨rfl, hexhausted⟩
  · rw [if_neg hexhausted]
    right
    cases hleft : d.remainingSeconds clock.remaining with
    | none =>
      right
      left
      unfold ExecutionDeadline.remainingSeconds at hleft
      exact ⟨rfl, Option.map_eq_none_iff.mp hleft⟩
    | some left =>
      dsimp only
      by_cases hopen : left ≤ d.finalizationReserveSeconds
      · rw [if_pos hopen]
        exact .inl ⟨rfl, left, hleft, hopen⟩
      · rw [if_neg hopen]
        refine .inr (.inr ⟨rfl, ?_, Bool.eq_false_of_not_eq_true hexhausted⟩)
        rintro ⟨left', hleft', hle⟩
        rw [hleft] at hleft'
        cases hleft'
        exact hopen hle

theorem phase_of_open {clock : PhaseClock T} (h : WindowOpen d clock.remaining) :
    d.phase clock = .finalizationWindow ∨ d.phase clock = .exhausted := by
  rcases phase_cases d clock with ⟨hphase, -⟩ | ⟨hphase, -⟩ | ⟨-, hnone⟩ | ⟨-, hnot, -⟩
  · exact .inr hphase
  · exact .inl hphase
  · obtain ⟨left, hleft, -⟩ := h
    unfold ExecutionDeadline.remainingSeconds at hleft
    rw [hnone] at hleft
    cases hleft
  · exact absurd h hnot

/-! ### Runs -/

/-- Somewhere in the run an observation lowers the reserve below what remains. -/
def Reopened (p : Progress T) (events : List (Event T)) : Prop :=
  ∃ first event rest q, events = first ++ event :: rest ∧ Run Step p first q ∧ Reopens q event

/-- What a run keeps: all that depends on the deadline itself. -/
structure Ahead (p p' : Progress T) : Prop where
  deadline : p'.deadline.deadlineMonotonic = p.deadline.deadlineMonotonic
  remaining : ∀ clock, p'.deadline.remainingSeconds clock = p.deadline.remainingSeconds clock
  stage : ∀ clock, p'.deadline.degradationStage clock = p.deadline.degradationStage clock
  clock : p.clock ≤ p'.clock

theorem ahead_of_run (run : Run Step p events p') : Ahead p p' := by
  induction run with
  | nil => exact ⟨rfl, fun _ => rfl, fun _ => rfl, le_refl _⟩
  | snoc _ hstep ih =>
    cases hstep with
    | wait hle => exact ⟨ih.deadline, ih.remaining, ih.stage, le_trans ih.clock hle⟩
    | observe name duration => exact ⟨ih.deadline, ih.remaining, ih.stage, ih.clock⟩

/-- **The window stays open, unless an observation reopens the run.** -/
theorem open_of_run (run : Run Step p events p') (hopen : WindowOpen p.deadline p.clock) :
    WindowOpen p'.deadline p'.clock ∨ Reopened p events := by
  induction run with
  | nil => exact .inl hopen
  | @snoc trace q q' event hrun hstep ih =>
    rcases ih with hq | ⟨first, earlier, rest, s, rfl, hfirst, hreopens⟩
    · by_cases hreopens : Reopens q event
      · exact .inr ⟨trace, event, [], q, rfl, hrun, hreopens⟩
      · left
        cases hstep with
        | wait hle => exact hq.later hle
        | observe name duration =>
          by_contra hnot
          exact hreopens ⟨hq, hnot⟩
    · refine .inr ⟨first, earlier, rest ++ [event], s, ?_, hfirst, hreopens⟩
      rw [List.append_assoc, List.cons_append]

/-- **The phase of a later call is no earlier one, unless the run was reopened.** -/
theorem phase_mono (run : Run Step p events p') {clock clock' : PhaseClock T}
    (hclock : clock.Ordered) (hbefore : clock.elapsed ≤ p.clock) (hclock' : clock'.Ordered)
    (hbehind : p'.clock ≤ clock'.exhausted) :
    (p.deadline.phase clock).rank ≤ (p'.deadline.phase clock').rank ∨
      (p.deadline.phase clock = .finalizationWindow ∧ Reopened p events) := by
  have hahead := ahead_of_run run
  have hlast : clock.elapsed ≤ clock'.exhausted :=
    le_trans hbefore (le_trans hahead.clock hbehind)
  rcases phase_cases p.deadline clock with ⟨hphase, hexhausted⟩ | ⟨hphase, hopen⟩ |
      ⟨hphase, -⟩ | ⟨hphase, -, -⟩
  · left
    have hfirst : clock.exhausted ≤ clock'.exhausted :=
      le_trans hclock.1 (le_trans hclock.2 hlast)
    have hstill : p'.deadline.isExhausted clock'.exhausted = true := by
      have hmono := ExecutionDeadline.isExhausted_mono hfirst hexhausted
      unfold ExecutionDeadline.isExhausted at hmono ⊢
      rw [hahead.remaining]
      exact hmono
    have hphase' : p'.deadline.phase clock' = .exhausted := by
      unfold ExecutionDeadline.phase
      rw [if_pos hstill]
    rw [hphase, hphase']
  · rcases open_of_run run (hopen.later (le_trans hclock.2 hbefore)) with hopen' | hreopened
    · left
      have hphase' := phase_of_open (hopen'.later (le_trans hbehind hclock'.1))
      rw [hphase]
      rcases hphase' with hphase' | hphase'
      · rw [hphase']
      · rw [hphase']
        decide
    · exact .inr ⟨hphase, hreopened⟩
  · left
    rw [hphase]
    exact Nat.zero_le _
  · left
    have hmono := p.deadline.degradationStage_mono (le_trans hlast (le_trans hclock'.1 hclock'.2))
    have hrank := p.deadline.degradationStage_rank clock.elapsed
    rw [hphase]
    rcases phase_cases p'.deadline clock' with ⟨hphase', -⟩ | ⟨hphase', -⟩ | ⟨-, hnone⟩ |
        ⟨hphase', -, -⟩
    · rw [hphase']
      exact le_trans hrank (by decide)
    · rw [hphase']
      exact le_trans hrank (by decide)
    · -- without a deadline there are no stages
      have hnormal : p.deadline.degradationStage clock.elapsed = .normal := by
        rw [hahead.deadline] at hnone
        unfold ExecutionDeadline.degradationStage ExecutionDeadline.elapsedFraction
          ExecutionDeadline.budgetSpanSeconds
        rw [hnone]
        dsimp only
        split
        · rfl
        · rfl
      rw [hnormal]
      exact Nat.zero_le _
    · rw [hphase', hahead.stage]
      exact hmono

/-! ### Operations that are denied -/

/-- The readings of a decision are in order. -/
structure StartClock.Ordered (clock : StartClock T) : Prop where
  normalRemaining : clock.remaining ≤ clock.normalRemaining
  exhausted : clock.normalRemaining ≤ clock.phase.exhausted
  phase : clock.phase.Ordered
  estimate : clock.phase.elapsed ≤ clock.estimate
  degradation : clock.estimate ≤ clock.degradation

def phaseReasons : List String :=
  ["deadline_exhausted", "finalization_disallows_operation",
    "budget_degradation_disallows_operation"]

theorem StartClock.Ordered.first_le (h : clock.Ordered) : clock.remaining ≤ clock.phase.exhausted :=
  le_trans h.normalRemaining h.exhausted

theorem StartClock.Ordered.le_last (h : clock.Ordered) : clock.phase.elapsed ≤ clock.degradation :=
  le_trans h.estimate h.degradation

variable {estimated configured : Option T} {allow : Bool}

theorem startDecisionOf_unset {minimum : T}
    (h : d.startDecisionOf name minimum estimated configured allow clock = .ok decision)
    (hnone : d.remainingSeconds clock.remaining = none) : decision.allowed = true := by
  obtain ⟨estimate, -, h⟩ := bind_eq_ok.mp h
  rw [hnone] at h
  cases h
  rfl

/-- **An operation that the phase denied is not allowed later, unless the run was reopened.** -/
theorem denied_later (run : Run Step p events p') {minimum minimum' : T}
    {estimated' configured' : Option T} {clock' : StartClock T}
    {decision' : DeadlineStartDecision T} (hclock : clock.Ordered)
    (hbefore : clock.degradation ≤ p.clock) (hclock' : clock'.Ordered)
    (hbehind : p'.clock ≤ clock'.remaining)
    (h : p.deadline.startDecisionOf name minimum estimated configured allow clock = .ok decision)
    (h' : p'.deadline.startDecisionOf name minimum' estimated' configured' allow clock' =
      .ok decision') (hdenied : decision.allowed = false) (hreason : decision.reason ∈ phaseReasons) :
    decision'.allowed = false ∨
      (decision.reason = "finalization_disallows_operation" ∧ Reopened p events) := by
  have hahead := ahead_of_run run
  have hlast : clock.degradation ≤ clock'.remaining :=
    le_trans hbefore (le_trans hahead.clock hbehind)
  cases hleft : p.deadline.remainingSeconds clock.remaining with
  | none =>
    rw [startDecisionOf_unset h hleft] at hdenied
    cases hdenied
  | some left =>
    obtain ⟨left', hleft'⟩ := ExecutionDeadline.exists_remaining hleft clock'.remaining
    rw [← hahead.remaining] at hleft'
    obtain ⟨-, -, hexhausted, hfinal, hstage⟩ := ExecutionDeadline.startDecisionOf_cases h hleft
    obtain ⟨-, hcases, -⟩ := ExecutionDeadline.startDecisionOf_cases h' hleft'
    rcases hcases with hdone | ⟨hnotExhausted, -, -, hopenStage, hopenFinal, -⟩
    · exact .inl hdone
    · have hphase : (p.deadline.phase clock.phase).rank ≤ (p'.deadline.phase clock'.phase).rank ∨
          (p.deadline.phase clock.phase = .finalizationWindow ∧ Reopened p events) :=
        phase_mono run hclock.phase (le_trans hclock.le_last hbefore) hclock'.phase
          (le_trans hbehind hclock'.first_le)
      simp only [phaseReasons, List.mem_cons, List.not_mem_nil, or_false] at hreason
      rcases hreason with hreason | hreason | hreason
      · -- a deadline that has passed stays passed
        exfalso
        rw [hexhausted hreason] at hphase
        rcases hphase with hrank | ⟨hphase, -⟩
        · apply hnotExhausted
          cases hphase' : p'.deadline.phase clock'.phase with
          | exhausted => rfl
          | normal | convergence | wrapUp | finalizationWindow =>
            rw [hphase'] at hrank
            exact absurd hrank (by decide)
        · cases hphase
      · obtain ⟨hwindow, hcloses, rfl⟩ := hfinal hreason
        rw [hwindow] at hphase
        rcases hphase with hrank | ⟨-, hreopened⟩
        · exfalso
          have hwindow' : p'.deadline.phase clock'.phase = .finalizationWindow := by
            cases hphase' : p'.deadline.phase clock'.phase with
            | exhausted => exact absurd hphase' hnotExhausted
            | finalizationWindow => rfl
            | normal | convergence | wrapUp =>
              rw [hphase'] at hrank
              exact absurd hrank (by decide)
          rcases hopenFinal hwindow' with hnot | hnot
          · rw [hcloses] at hnot
            cases hnot
          · cases hnot
        · exact .inr ⟨hreason, hreopened⟩
      · -- the stages only move on
        exfalso
        have hreadings : clock.degradation ≤ clock'.degradation :=
          le_trans hlast (le_trans hclock'.first_le (le_trans hclock'.phase.1
            (le_trans hclock'.phase.2 hclock'.le_last)))
        have hcloses := stageCloses_mono (p.deadline.degradationStage_mono hreadings)
          (p.deadline.degradationStage_rank _) (hstage hreason)
        rw [hahead.stage, hcloses] at hopenStage
        cases hopenStage

/-- **Over any run, what a deadline allows fits the time left, and time closes what it closed.** -/
theorem deadline_sound {p p' : Progress T} {events : List (Event T)} (run : Run Step p events p') :
    (∀ (name : String) (minimum : T) (estimated configured : Option T) (allow : Bool)
      (clock : StartClock T) (decision : DeadlineStartDecision T),
        p'.deadline.startDecisionOf name minimum estimated configured allow clock = .ok decision →
        decision.allowed = true → ∀ left, p'.deadline.remainingSeconds clock.remaining = some left →
          max zero minimum ≤ left ∧ (∀ e ∈ decision.estimatedDurationSeconds, e ≤ left) ∧
          (decision.phase ≠ .finalizationWindow → ∀ e ∈ decision.estimatedDurationSeconds,
            ∀ n ∈ p'.deadline.normalWorkRemainingSeconds clock.normalRemaining, e ≤ n)) ∧
    (∀ (configured : Option T) (reserve minimum clock timeout left : T),
      p'.deadline.clampTimeoutTo configured reserve minimum clock = .ok (some timeout) →
      p'.deadline.remainingSeconds clock = some left → timeout ≤ left - max zero reserve) ∧
    (∀ clock clock' : PhaseClock T, clock.Ordered → clock.elapsed ≤ p.clock →
      clock'.Ordered → p'.clock ≤ clock'.exhausted →
        (p.deadline.phase clock).rank ≤ (p'.deadline.phase clock').rank ∨
          (p.deadline.phase clock = .finalizationWindow ∧ Reopened p events)) ∧
    ∀ (name : String) (minimum minimum' : T)
      (estimated estimated' configured configured' : Option T) (allow : Bool)
      (clock clock' : StartClock T) (decision decision' : DeadlineStartDecision T),
        clock.Ordered → clock.degradation ≤ p.clock → clock'.Ordered →
        p'.clock ≤ clock'.remaining →
        p.deadline.startDecisionOf name minimum estimated configured allow clock = .ok decision →
        p'.deadline.startDecisionOf name minimum' estimated' configured' allow clock' =
          .ok decision' →
        decision.allowed = false → decision.reason ∈ phaseReasons → decision'.allowed = false ∨
            (decision.reason = "finalization_disallows_operation" ∧ Reopened p events) := by
  refine ⟨?_, ?_, ?_, ?_⟩
  · intro name minimum estimated configured allow clock decision h hallowed left hleft
    obtain ⟨hphase, hcases, -⟩ := ExecutionDeadline.startDecisionOf_cases h hleft
    rcases hcases with hdenied | ⟨-, hminimum, hfits, -, -, hnormal⟩
    · rw [hallowed] at hdenied
      cases hdenied
    · rw [hphase]
      exact ⟨hminimum, hfits, hnormal⟩
  · intro configured reserve minimum clock timeout left h hleft
    exact ExecutionDeadline.clampTimeoutTo_le h hleft
  · intro clock clock' hclock hbefore hclock' hbehind
    exact phase_mono run hclock hbefore hclock' hbehind
  · intro name minimum minimum' estimated estimated' configured configured' allow clock clock'
      decision decision' hclock hbefore hclock' hbehind h h' hdenied hreason
    exact denied_later run hclock hbefore hclock' hbehind h h' hdenied hreason

/-- One reading for all. -/
def PhaseClock.at (clock : T) : PhaseClock T := ⟨clock, clock, clock⟩

def StartClock.at (clock : T) : StartClock T := ⟨clock, clock, .at clock, clock, clock⟩

/-- Twenty seconds that pass without an observation end in the window, and then run out. -/
theorem deadline_sound_twentySeconds :
    (twentySeconds.phase (.at 16)).rank ≤ (twentySeconds.phase (.at 20)).rank := by
  have hrun : Run Step (⟨twentySeconds, 16⟩ : Progress ℚ) [.wait 20] ⟨twentySeconds, 20⟩ :=
    Run.nil.snoc (Step.wait (by norm_num))
  have hordered (clock : ℚ) : (PhaseClock.at clock).Ordered := ⟨le_refl _, le_refl _⟩
  rcases (deadline_sound hrun).2.2.1 (.at 16) (.at 20) (hordered 16) (le_refl _) (hordered 20)
      (le_refl _) with hrank | ⟨-, first, event, rest, q, heq, -, hreopens⟩
  · exact hrank
  · exfalso
    have hwait : event ∈ [Event.wait (20 : ℚ)] := by
      rw [heq]
      exact List.mem_append_right _ List.mem_cons_self
    rwa [List.mem_singleton.mp hwait] at hreopens

/-- Four seconds before the end a tool is denied; after a model call of a tenth of a second the
reserve is lower than what remains, and the same tool is allowed. -/
theorem window_left :
    ∃ (p' : Progress ℚ) (events : List (Event ℚ)) (decision decision' : DeadlineStartDecision ℚ),
      Run Step ⟨twentySeconds, 16⟩ events p' ∧ p'.clock = 16 + 1 / 10 ∧
      twentySeconds.startDecisionOf "exploration_tool" 0 none none false (.at 16) = .ok decision ∧
      p'.deadline.startDecisionOf "exploration_tool" 0 none none false (.at p'.clock) =
        .ok decision' ∧
      decision.phase = .finalizationWindow ∧ decision.allowed = false ∧
      decision.reason = "finalization_disallows_operation" ∧
      decision'.phase.rank < decision.phase.rank ∧ decision'.allowed = true := by
  let quick := twentySeconds.observeDuration "main_llm" (1 / 10)
  have hrun : Run Step (⟨twentySeconds, 16⟩ : Progress ℚ)
      [.observe "main_llm" (1 / 10), .wait (16 + 1 / 10)] ⟨quick, 16 + 1 / 10⟩ :=
    (Run.nil.snoc (Step.observe "main_llm" (1 / 10))).snoc (Step.wait (by norm_num))
  have hdenied : (match twentySeconds.startDecisionOf "exploration_tool" 0 none none false
      (.at 16) with
      | .error _ => false
      | .ok decision => decide (decision.phase = .finalizationWindow) && !decision.allowed &&
          decide (decision.reason = "finalization_disallows_operation")) = true := by
    decide +kernel
  have hallowed : (match quick.startDecisionOf "exploration_tool" 0 none none false
      (.at (16 + 1 / 10)) with
      | .error _ => false
      | .ok decision => decide (decision.phase.rank < DeadlinePhase.rank .finalizationWindow) &&
          decision.allowed) = true := by
    decide +kernel
  cases h : twentySeconds.startDecisionOf "exploration_tool" 0 none none false (.at 16) with
  | error _ =>
    rw [h] at hdenied
    cases hdenied
  | ok decision =>
    cases h' : quick.startDecisionOf "exploration_tool" 0 none none false (.at (16 + 1 / 10)) with
    | error _ =>
      rw [h'] at hallowed
      cases hallowed
    | ok decision' =>
      rw [h] at hdenied
      rw [h'] at hallowed
      simp only [Bool.and_eq_true, Bool.not_eq_true', decide_eq_true_eq] at hdenied hallowed
      refine ⟨⟨quick, 16 + 1 / 10⟩, _, decision, decision', hrun, rfl, rfl, h', hdenied.1.1,
        hdenied.1.2, hdenied.2, ?_, hallowed.2⟩
      rw [hdenied.1.1]
      exact hallowed.1

end AlysisCode.Deadline
