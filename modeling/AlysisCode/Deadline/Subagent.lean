/-
Deadlines of nested subagents.

A child gets the earlier of its parent's deadline and its own timeout, unless the parent is
already finishing: then it gets the parent's deadline as it is, even where that is later, and
nothing that asks whether a subagent may start is told yes.

In a chain every parent is somebody's child.  Between being derived and deriving, a deadline
object observes durations, and the host may narrow it; it never moves later.
-/
import Mathlib.Tactic.NormNum
import AlysisCode.Library.Runs
import AlysisCode.Deadline.Basic

namespace AlysisCode.Deadline

open Runs

variable {T : Type} [Seconds T]

/-- When the run ends; `⊤` is never. -/
def ExecutionDeadline.bound (d : ExecutionDeadline T) : WithTop T := d.deadlineMonotonic

def parentBound : Option (ExecutionDeadline T) → WithTop T
  | none => ⊤
  | some parent => parent.bound

def ownBound (now : T) : Option T → WithTop T
  | none => ⊤
  | some fallback => ((now + fallback : T) : WithTop T)

/-- The parent's phase, as it is read, is the finalization window or later. -/
def finishing (parent : Option (ExecutionDeadline T)) (clock : DeriveClock T) : Prop :=
  ∃ p, parent = some p ∧
    (p.phase clock.phase = .finalizationWindow ∨ p.phase clock.phase = .exhausted)

/-! ### One child -/

variable {d child : ExecutionDeadline T} {clock : DeriveClock T} {fallback : Option T}
  {parent : Option (ExecutionDeadline T)}

theorem fromDuration_bound {duration : Option T} {started : T} {source : DeadlineSource}
    (h : ExecutionDeadline.fromDuration duration started source = .ok d) :
    d.bound = ownBound started duration := by
  obtain ⟨checked, hchecked, h⟩ := bind_eq_ok.mp h
  cases h
  cases duration with
  | none =>
    cases hchecked
    rfl
  | some duration =>
    obtain ⟨checked', hvalid, hchecked⟩ := bind_eq_ok.mp hchecked
    cases hchecked
    obtain ⟨-, hvalid⟩ := guard_eq_ok.mp hvalid
    cases hvalid
    rfl

theorem fromAbsolute_bound {started : T} {deadline configured : Option T} {source : DeadlineSource}
    {finalization : DeadlineFinalizationPolicy T} {degradation : DeadlineDegradationPolicy T}
    (h : ExecutionDeadline.fromAbsolute started deadline configured source
      finalization degradation = .ok d) : d.bound = deadline := by
  obtain ⟨-, h⟩ := guard_eq_ok.mp h
  obtain ⟨checked, -, h⟩ := bind_eq_ok.mp h
  cases h
  rfl

theorem phase_of_disabled (h : d.deadlineMonotonic = none) (clock : PhaseClock T) :
    d.phase clock = .normal := by
  have hremaining (reading : T) : d.remainingSeconds reading = none := by
    rw [ExecutionDeadline.remainingSeconds, h]
    rfl
  simp [ExecutionDeadline.phase, ExecutionDeadline.isExhausted, hremaining]

theorem bound_le_iff (d : ExecutionDeadline T) (deadline : T) :
    d.deadlineMonotonic.any (· ≤ deadline) = true ↔ d.bound ≤ (deadline : WithTop T) := by
  rw [ExecutionDeadline.bound]
  cases d.deadlineMonotonic with
  | none => exact ⟨fun h => (nomatch h), fun h => absurd (top_le_iff.mp h) (WithTop.coe_ne_top)⟩
  | some own =>
    rw [Option.any_some, decide_eq_true_eq]
    exact WithTop.coe_le_coe.symm

theorem derive_bound (h : deriveSubagentDeadline parent fallback clock = .ok child) :
    (finishing parent clock ∧ parent = some child) ∨
      child.bound = min (parentBound parent) (ownBound clock.now fallback) := by
  cases fallback with
  | none =>
    right
    cases parent with
    | none =>
      rw [fromDuration_bound h]
      exact (min_self _).symm
    | some parent =>
      cases h
      exact (min_eq_left le_top).symm
  | some fallback =>
    obtain ⟨checked, hvalid, h⟩ := bind_eq_ok.mp h
    obtain ⟨-, hvalid⟩ := guard_eq_ok.mp hvalid
    cases hvalid
    cases parent with
    | none =>
      right
      rw [fromDuration_bound h]
      exact (min_eq_right le_top).symm
    | some parent =>
      dsimp only at h
      split_ifs at h with hfinishing hearlier
      · cases h
        exact .inl ⟨⟨_, rfl, hfinishing.2⟩, rfl⟩
      · cases h
        exact .inr (min_eq_left ((bound_le_iff _ _).mp hearlier)).symm
      · have hlater := le_of_not_ge (mt (bound_le_iff parent _).mpr hearlier)
        rw [fromAbsolute_bound h]
        exact .inr (min_eq_right hlater).symm

theorem derive_of_finishing (hfinishing : finishing parent clock)
    (h : deriveSubagentDeadline parent fallback clock = .ok child) : parent = some child := by
  obtain ⟨p, rfl, hphase⟩ := hfinishing
  cases fallback with
  | none => exact congrArg some (Except.ok.inj h)
  | some fallback =>
    obtain ⟨checked, -, h⟩ := bind_eq_ok.mp h
    have henabled : p.enabled = true := by
      by_contra hnot
      have hnone : p.deadlineMonotonic = none := by simpa [ExecutionDeadline.enabled] using hnot
      rw [phase_of_disabled hnone] at hphase
      rcases hphase with hphase | hphase <;> cases hphase
    dsimp only at h
    rw [if_pos ⟨henabled, hphase⟩] at h
    exact congrArg some (Except.ok.inj h)

theorem derive_bound_le (h : deriveSubagentDeadline parent fallback clock = .ok child) :
    child.bound ≤ parentBound parent := by
  rcases derive_bound h with ⟨-, rfl⟩ | hmin
  · exact le_refl _
  · rw [hmin]
    exact min_le_left _ _

theorem startDecision_finishing {operation : DeadlineOperation}
    (hblocked : operation ∈ finalizationBlockedOperations) {minimum : T}
    {estimated configured : Option T} {clock : StartClock T}
    (hphase : d.phase clock.phase = .finalizationWindow ∨ d.phase clock.phase = .exhausted)
    {decision : DeadlineStartDecision T}
    (h : d.startDecision operation minimum estimated configured false clock = .ok decision) :
    decision.allowed = false := by
  have hsome : d.deadlineMonotonic ≠ none := by
    intro hnone
    rw [phase_of_disabled hnone] at hphase
    rcases hphase with hphase | hphase <;> cases hphase
  obtain ⟨deadline, hdeadline⟩ := Option.ne_none_iff_exists'.mp hsome
  obtain ⟨estimate, -, h⟩ := bind_eq_ok.mp h
  have hremaining : d.remainingSeconds clock.remaining =
      some (max zero (deadline - clock.remaining)) := by
    rw [ExecutionDeadline.remainingSeconds, hdeadline]
    rfl
  rw [hremaining] at h
  dsimp only at h
  split_ifs at h with hexhausted hminimum hestimate hfinal hclosed hdegraded
  all_goals try (obtain rfl := Except.ok.inj h; rfl)
  · exact absurd ⟨hblocked, rfl⟩ hclosed
  · rcases hphase with hphase | hphase
    · exact absurd hphase hfinal
    · exact absurd hphase hexhausted

/-! ### Chains -/

/-- One link of a chain: the parent's deadline as it stands when the child's is derived. -/
structure Link (T : Type) [Seconds T] where
  parent : ExecutionDeadline T
  fallback : Option T
  clock : DeriveClock T

/-- The parent's deadline may have been narrowed since it was derived. -/
def Nests (d : ExecutionDeadline T) (l : Link T) (child : ExecutionDeadline T) : Prop :=
  l.parent.bound ≤ d.bound ∧ deriveSubagentDeadline (some l.parent) l.fallback l.clock = .ok child

theorem Nests.bound_le {l : Link T} (h : Nests d l child) :
    child.bound ≤ d.bound := le_trans (derive_bound_le h.2) h.1

theorem Nests.own {l : Link T} (h : Nests d l child) (hopen : ¬finishing (some l.parent) l.clock) :
    child.bound ≤ ownBound l.clock.now l.fallback := by
  rcases derive_bound h.2 with ⟨hfinishing, -⟩ | hmin
  · exact absurd hfinishing hopen
  · rw [hmin]
    exact min_le_right _ _

theorem chain_bound {links : List (Link T)} (h : Run Nests d links child) :
    child.bound ≤ d.bound ∧ ∀ l ∈ links, ¬finishing (some l.parent) l.clock →
      child.bound ≤ ownBound l.clock.now l.fallback := by
  induction h with
  | nil => exact ⟨le_refl _, fun l hl => (nomatch hl)⟩
  | snoc _ hstep ih =>
    have hle := hstep.bound_le
    refine ⟨le_trans hle ih.1, ?_⟩
    intro l hl hopen
    rcases List.mem_append.mp hl with hl | hl
    · exact le_trans hle (ih.2 l hl hopen)
    · obtain rfl := List.mem_singleton.mp hl
      exact hstep.own hopen

/-- **A child's deadline is the earlier of its parent's and its own, unless the parent is
finishing; then it is the parent's, and no subagent may start under it.  Along a chain of any
depth deadlines never move later, and stay within every timeout set on the way while no parent
was finishing.** -/
theorem subagent_deadline :
    (∀ (parent : Option (ExecutionDeadline T)) (fallback : Option T) (clock : DeriveClock T)
      (child : ExecutionDeadline T), deriveSubagentDeadline parent fallback clock = .ok child →
        (¬finishing parent clock →
          child.bound = min (parentBound parent) (ownBound clock.now fallback)) ∧
        (finishing parent clock → parent = some child)) ∧
    (∀ (d : ExecutionDeadline T) (minimum : T) (estimated configured : Option T)
      (clock : StartClock T) (decision : DeadlineStartDecision T),
        d.phase clock.phase = .finalizationWindow ∨ d.phase clock.phase = .exhausted →
        d.startDecision .subagent minimum estimated configured false clock = .ok decision →
        decision.allowed = false) ∧
    ∀ (d child : ExecutionDeadline T) (links : List (Link T)), Run Nests d links child →
      child.bound ≤ d.bound ∧ ∀ l ∈ links, ¬finishing (some l.parent) l.clock →
        child.bound ≤ ownBound l.clock.now l.fallback := by
  refine ⟨?_, ?_, fun d child links hrun => chain_bound hrun⟩
  · intro parent fallback clock child h
    refine ⟨fun hopen => ?_, fun hfinishing => derive_of_finishing hfinishing h⟩
    rcases derive_bound h with ⟨hfinishing, -⟩ | hmin
    · exact absurd hfinishing hopen
    · exact hmin
  · intro d minimum estimated configured clock decision hphase h
    exact startDecision_finishing (by decide) hphase h

/-- A parent of twenty seconds whose model calls take four. -/
def twentySeconds : ExecutionDeadline ℚ where
  startedAtMonotonic := 0
  deadlineMonotonic := some 20
  configuredDurationSeconds := some 20
  source := .explicitCli
  finalizationPolicy := .default
  degradationPolicy := .default
  durationObservations := [("main_llm", (⟨0, []⟩ : DeadlineDurationObservation ℚ).record 4)]

theorem exists_of_isOk {α : Type} {x : Except String α} (h : x.isOk = true) : ∃ a, x = .ok a := by
  cases x with
  | error e => cases h
  | ok a => exact ⟨a, rfl⟩

/-- At the start of its run, a child that may take two seconds gets two, and its own child no
more than the run; four seconds before the end no subagent starts. -/
theorem subagent_deadline_twentySeconds :
    (∃ child grandchild, child.bound = min twentySeconds.bound (ownBound 0 (some 2)) ∧
      deriveSubagentDeadline (some child) (some 9) ⟨1, ⟨1, 1, 1⟩⟩ = .ok grandchild ∧
      grandchild.bound ≤ twentySeconds.bound) ∧
      ∃ decision, twentySeconds.startDecision .subagent 2 none none false
        ⟨16, 16, ⟨16, 16, 16⟩, 16, 16⟩ = .ok decision ∧ decision.allowed = false := by
  have hrun : (deriveSubagentDeadline (some twentySeconds) (some 2) ⟨0, ⟨0, 0, 0⟩⟩ >>= fun child =>
      deriveSubagentDeadline (some child) (some 9) ⟨1, ⟨1, 1, 1⟩⟩).isOk = true := by decide +kernel
  obtain ⟨grandchild, hgrandchild⟩ := exists_of_isOk hrun
  obtain ⟨child, hchild, hgrandchild⟩ := bind_eq_ok.mp hgrandchild
  have hnormal : twentySeconds.phase ⟨0, 0, 0⟩ = .normal := by decide +kernel
  have hopen : ¬finishing (some twentySeconds) ⟨0, ⟨0, 0, 0⟩⟩ := by
    rintro ⟨p, hp, hphase⟩
    cases hp
    rw [hnormal] at hphase
    rcases hphase with hphase | hphase <;> cases hphase
  have hfirst : Nests twentySeconds ⟨twentySeconds, some 2, ⟨0, ⟨0, 0, 0⟩⟩⟩ child :=
    ⟨le_refl _, hchild⟩
  have hsecond : Nests child ⟨child, some 9, ⟨1, ⟨1, 1, 1⟩⟩⟩ grandchild :=
    ⟨le_refl _, hgrandchild⟩
  have hdecision : (twentySeconds.startDecision .subagent 2 none none false
      ⟨16, 16, ⟨16, 16, 16⟩, 16, 16⟩).isOk = true := by decide +kernel
  obtain ⟨decision, hdecision⟩ := exists_of_isOk hdecision
  have hfinal : twentySeconds.phase ⟨16, 16, 16⟩ = .finalizationWindow := by decide +kernel
  refine ⟨⟨child, grandchild, ?_, hgrandchild, ?_⟩, decision, hdecision, ?_⟩
  · exact (subagent_deadline.1 _ _ _ _ hchild).1 hopen
  · exact (subagent_deadline.2.2 _ _ _ ((Run.nil.snoc hfirst).snoc hsecond)).1
  · exact subagent_deadline.2.1 twentySeconds 2 none none ⟨16, 16, ⟨16, 16, 16⟩, 16, 16⟩ decision
      (.inl hfinal) hdecision

/-- Four seconds before its end it is finishing, and a child that may take two gets four; and
a child derived while its parent's deadline passes gets that deadline, its own being earlier. -/
theorem child_outlasts_timeout :
    (∃ child, deriveSubagentDeadline (some twentySeconds) (some 2) ⟨16, ⟨16, 16, 16⟩⟩ = .ok child ∧
      child.deadlineMonotonic = some 20 ∧ (16 : ℚ) + 2 < 20) ∧
    ∃ child, deriveSubagentDeadline (some twentySeconds) (some 2) ⟨0, ⟨30, 30, 30⟩⟩ = .ok child ∧
      child.deadlineMonotonic = some 20 ∧ (0 : ℚ) + 2 < 20 := by
  refine ⟨⟨twentySeconds, ?_, rfl, by norm_num⟩, twentySeconds, ?_, rfl, by norm_num⟩
  · have hphase : twentySeconds.phase ⟨16, 16, 16⟩ = .finalizationWindow := by decide +kernel
    exact if_pos ⟨rfl, .inl hphase⟩
  · have hphase : twentySeconds.phase ⟨30, 30, 30⟩ = .exhausted := by decide +kernel
    exact if_pos ⟨rfl, .inr hphase⟩

end AlysisCode.Deadline
