/-
Terminating an owned process.

Whichever way the child is signalled, the signal is aimed, and a termination that is said to have
happened leaves the record over.
-/
import AlysisCode.Terminal.Inspect

namespace AlysisCode.Terminal

variable {host : Host} {evo : Evolution} {r : Payload} {s : State}

/-! ### Terminating a group -/

theorem ended_of_noProcess {clock : Nat} (horphan : Orphan evo.toHost clock r)
    (hpgid : r.posixPgid = some r.childPid)
    (hnone : (evo.world clock).killpg r.childPid = .noProcess)
    (hstays : Stays (evo.world clock) r) : Ended evo.toHost clock r := by
  obtain ⟨m, name, hm, hstored⟩ := horphan.stored
  have hnobody := killpg_noProcess hnone
  have hgone : Gone (evo.world clock) r.childPid r.childStartToken := by
    intro p hp hpid his
    exact hnobody p hp (hstays p hp ⟨hpid, his⟩)
  have hdeserted : Deserted (evo.world clock) r := by
    intro p hp hmember
    have hsame := hmember.1.symm.trans hpgid
    exact hnobody p hp (Option.some.inj hsame)
  intro n hn
  exact ⟨evo.childEnds m clock n name r hm hn hstored hgone,
    evo.groupEnds m clock n name r hm hn hstored hpgid hdeserted⟩

theorem later_awaitGroup (host : Host) (r : Payload) (n : Nat) :
    ∀ s, Later s (awaitGroup host r n s).2 := by
  induction n with
  | zero => exact Later.refl
  | succ n ih =>
    intro s
    unfold awaitGroup
    split
    · exact Later.call s _
    · exact Later.call s _
    · exact (Later.call s _).trans (ih _)

theorem AllRight.awaitGroup (n : Nat) : ∀ s, AllRight host s →
    AllRight host (awaitGroup host r n s).2 := by
  induction n with
  | zero => exact fun _ h => h
  | succ n ih =>
    intro s h
    have hcall : AllRight host (s.call (.poll s.clock r)) := h.call trivial
    unfold Terminal.awaitGroup
    split
    · exact hcall
    · exact hcall
    · exact ih _ hcall

theorem ended_of_awaitGroup (hpgid : r.posixPgid = some r.childPid) (n : Nat) :
    ∀ s, Orphan evo.toHost s.clock r → AllOrderly evo.toHost (awaitGroup evo.toHost r n s).2 →
      (awaitGroup evo.toHost r n s).1 = true →
      Ended evo.toHost (awaitGroup evo.toHost r n s).2.clock r := by
  induction n with
  | zero =>
    intro s _ _ h
    cases h
  | succ n ih =>
    intro s horphan horderly h
    unfold awaitGroup at horderly h ⊢
    split at h
    · rename_i hnone
      rw [hnone] at horderly
      have hended := ended_of_noProcess horphan hpgid hnone (horderly _ (mem_call s _))
      intro k hk
      exact hended k (Nat.le_of_succ_le hk)
    · cases h
    · rename_i hdone
      rw [hdone] at horderly
      exact ih _ (horphan.mono (Nat.le_succ _)) horderly h

variable {since : Nat}

theorem aimed_of_unmoved {n : Nat} (hpgid : r.posixPgid = some r.childPid)
    (hsince : ∀ q ∈ (host.world since).procs, q.ident.pid = r.childPid →
      q.group.is r.childStartToken) (h : GroupUnmoved host since n r) :
    Aimed (host.world n) r .group := by
  intro p hp hgroup
  obtain ⟨q, hq, hqpid, hsame⟩ := h p hp hgroup
  refine ⟨by rw [hgroup, hpgid], fun _ => ?_⟩
  rw [← hsame]
  exact hsince q hq hqpid

theorem later_terminatePosixGroup (host : Host) (r : Payload) (since : Nat) (s : State) :
    Later (s.call (.signal s.clock since r .group .term))
      (terminatePosixGroup host r since s).2 := by
  unfold terminatePosixGroup
  dsimp only
  split
  · exact Later.refl _
  · exact Later.refl _
  · have hwaited := later_awaitGroup host r (host.world (s.clock + 1)).polls
      (s.call (.signal s.clock since r .group .term))
    split
    · exact hwaited
    · split
      · exact hwaited.trans (Later.call _ _)
      · exact hwaited.trans (Later.call _ _)

theorem over_of_killed (horderly : Orderly host (.signal s.clock since r .group .kill))
    (hreply : (host.world s.clock).killpg r.childPid ≠ .failed)
    (hcontainer : Uncontained (host.world (s.clock + 1)) r) :
    Over host (s.call (.signal s.clock since r .group .kill)).events (s.clock + 1) r := by
  have hkilled : ∀ p ∈ (host.world (s.clock + 1)).procs, IsChild r p ∨ Member r p →
      Killed host (s.call (.signal s.clock since r .group .kill)).events r p := by
    intro p hp hrecorded
    obtain ⟨hthen, hgroup, hdenied⟩ := horderly.2 hreply p hp hrecorded
    exact ⟨s.clock, since, mem_call s _, hthen, hgroup, hdenied⟩
  exact ⟨fun p hp h => hkilled p hp (.inl h), fun p hp h => hkilled p hp (.inr h), hcontainer⟩

/-- What a termination owes: its calls are right, and when it says that it terminated the
record is over. -/
def Terminates (host : Host) (r : Payload) (result : Outcome × State) : Prop :=
  AllRight host result.2 ∧ (result.1 = .terminated → Over host result.2.events result.2.clock r)

/-- **A group is terminated rightly, and when it is said to be its record is over.** -/
theorem terminatePosixGroup_terminates (horphan : Orphan evo.toHost s.clock r)
    (hpgid : r.posixPgid = some r.childPid)
    (hsince : ∀ q ∈ (evo.world since).procs, q.ident.pid = r.childPid →
      q.group.is r.childStartToken) (hcontainer : ∀ n, s.clock ≤ n → Uncontained (evo.world n) r)
    (hright : AllRight evo.toHost s)
    (horderly : AllOrderly evo.toHost (terminatePosixGroup evo.toHost r since s).2) :
    Terminates evo.toHost r (terminatePosixGroup evo.toHost r since s) := by
  have hterm : Orderly evo.toHost (.signal s.clock since r .group .term) :=
    horderly.of_call (later_terminatePosixGroup evo.toHost r since s)
  have htermed : AllRight evo.toHost (s.call (.signal s.clock since r .group .term)) :=
    hright.call (horphan.right (aimed_of_unmoved hpgid hsince hterm.1))
  have horphan' : Orphan evo.toHost (s.clock + 1) r := horphan.mono (Nat.le_succ _)
  have hwaited := later_awaitGroup evo.toHost r (evo.world (s.clock + 1)).polls
    (s.call (.signal s.clock since r .group .term))
  have hwait := ended_of_awaitGroup hpgid (evo.world (s.clock + 1)).polls
    (s.call (.signal s.clock since r .group .term)) horphan'
  have hwaitright := AllRight.awaitGroup (r := r) (evo.world (s.clock + 1)).polls _ htermed
  unfold terminatePosixGroup at horderly ⊢
  dsimp only [State.call] at horderly hwait hwaited hwaitright ⊢
  generalize hw : awaitGroup evo.toHost r (evo.world (s.clock + 1)).polls
    { clock := s.clock + 1, events := s.events ++ [.signal s.clock since r .group .term] } = w
    at *
  split
  · rename_i hnone
    have hended := ended_of_noProcess horphan hpgid hnone hterm.2
    exact ⟨htermed, fun _ => (hended.mono (Nat.le_succ _)).over (hcontainer _ (Nat.le_succ _)) _⟩
  · exact ⟨htermed, nofun⟩
  · rename_i hdone
    rw [hdone] at horderly
    dsimp only at horderly
    split
    · rename_i hgone
      rw [if_pos hgone] at horderly
      have hended := hwait horderly hgone
      exact ⟨hwaitright, fun _ => hended.over
        (hcontainer _ ((Nat.le_succ _).trans hwaited.clock)) _⟩
    · rename_i hgone
      rw [if_neg hgone] at horderly
      have hkill : Orderly evo.toHost (.signal w.2.clock since r .group .kill) := by
        split at horderly
        · exact horderly _ (mem_call w.2 _)
        · exact horderly _ (mem_call w.2 _)
      have hclock : s.clock ≤ w.2.clock := (Nat.le_succ _).trans hwaited.clock
      have hkilled : AllRight evo.toHost (w.2.call (.signal w.2.clock since r .group .kill)) :=
        hwaitright.call ((horphan.mono hclock).right (aimed_of_unmoved hpgid hsince hkill.1))
      split
      · exact ⟨hkilled, nofun⟩
      · rename_i hreply
        exact ⟨hkilled, fun _ =>
          over_of_killed hkill hreply (hcontainer _ (hclock.trans (Nat.le_succ _)))⟩

/-! ### Terminating a process tree -/

theorem awaitExit_cases (host : Host) (r : Payload) (n : Nat) (s : State) :
    (((inspect host .confirm r s).1 = .dead ∨ (inspect host .confirm r s).1 = .reused) ∧
        awaitExit host r n s = (true, (inspect host .confirm r s).2)) ∨
      awaitExit host r n s = (false, (inspect host .confirm r s).2) ∨
      ∃ m < n, awaitExit host r n s = awaitExit host r m (inspect host .confirm r s).2 := by
  unfold awaitExit
  split
  · rename_i h
    rw [h]
    exact .inl ⟨.inl rfl, rfl⟩
  · rename_i h
    rw [h]
    exact .inl ⟨.inr rfl, rfl⟩
  · rename_i h
    rw [h]
    right
    cases n with
    | zero => exact .inl rfl
    | succ n => exact .inr ⟨n, Nat.lt_succ_self n, awaitExit.eq_def host r n _⟩

theorem later_awaitExit (host : Host) (r : Payload) (n : Nat) :
    ∀ s, Later s (awaitExit host r n s).2 := by
  induction n using Nat.strong_induction_on with
  | _ n ih =>
    intro s
    have hinspect := later_inspect host .confirm r s
    rcases awaitExit_cases host r n s with ⟨-, h⟩ | h | ⟨m, hm, h⟩
    · rw [h]
      exact hinspect
    · rw [h]
      exact hinspect
    · rw [h]
      exact hinspect.trans (ih m hm _)

theorem AllRight.awaitExit (n : Nat) : ∀ s, AllRight host s →
    AllRight host (awaitExit host r n s).2 := by
  induction n using Nat.strong_induction_on with
  | _ n ih =>
    intro s hright
    have hinspect := hright.inspect .confirm r
    rcases awaitExit_cases host r n s with ⟨-, h⟩ | h | ⟨m, hm, h⟩
    · rw [h]
      exact hinspect
    · rw [h]
      exact hinspect
    · rw [h]
      exact ih m hm _ hinspect

theorem ended_of_awaitExit (n : Nat) :
    ∀ s, Orphan evo.toHost s.clock r → AllOrderly evo.toHost (awaitExit evo.toHost r n s).2 →
      (awaitExit evo.toHost r n s).1 = true →
      Ended evo.toHost (awaitExit evo.toHost r n s).2.clock r := by
  induction n using Nat.strong_induction_on with
  | _ n ih =>
    intro s horphan horderly hgone
    rcases awaitExit_cases evo.toHost r n s with ⟨hstate, h⟩ | h | ⟨m, hm, h⟩
    · rw [h] at horderly ⊢
      exact ended_of_inspect ⟨rfl, rfl⟩ horphan rfl hstate
        (horderly _ (inspect_event evo.toHost .confirm r s))
    · rw [h] at hgone
      cases hgone
    · rw [h] at horderly hgone ⊢
      have hlater := later_inspect evo.toHost .confirm r s
      exact ih m hm _ (horphan.mono hlater.clock) horderly hgone

theorem aimed_of_unmoved_process {n : Nat}
    (hsince : ∀ p ∈ (host.world since).procs, p.ident.pid = r.childPid → IsChild r p)
    (h : Unmoved host since n r) : Aimed (host.world n) r .process :=
  fun p hp hpid => hsince p (h p hp hpid) hpid

theorem terminateWindowsProcessTree_terminates (horphan : Orphan evo.toHost s.clock r)
    (hsince : ∀ p ∈ (evo.world since).procs, p.ident.pid = r.childPid → IsChild r p)
    (hcontainer : ∀ n, s.clock ≤ n → Uncontained (evo.world n) r) (hright : AllRight evo.toHost s)
    (horderly : AllOrderly evo.toHost (terminateWindowsProcessTree evo.toHost r since s).2) :
    Terminates evo.toHost r (terminateWindowsProcessTree evo.toHost r since s) := by
  unfold terminateWindowsProcessTree at horderly ⊢
  dsimp only at horderly ⊢
  have hlater := later_awaitExit evo.toHost r (evo.world (s.clock + 1)).polls
    (s.call (.signal s.clock since r .process .kill))
  have hkill : Orderly evo.toHost (.signal s.clock since r .process .kill) :=
    horderly.of_call hlater
  have hkilled : AllRight evo.toHost (s.call (.signal s.clock since r .process .kill)) :=
    hright.call (horphan.right (aimed_of_unmoved_process hsince hkill))
  refine ⟨hkilled.awaitExit _ _, fun hterminated => ?_⟩
  have hconfirmed : (awaitExit evo.toHost r (evo.world (s.clock + 1)).polls
      (s.call (.signal s.clock since r .process .kill))).1 = true := by
    by_contra h
    rw [show (s.call (.signal s.clock since r .process .kill)).clock = s.clock + 1 from rfl,
      if_neg h] at hterminated
    cases hterminated
  have hended := ended_of_awaitExit (evo.world (s.clock + 1)).polls _
    (horphan.mono (Nat.le_succ _)) horderly hconfirmed
  exact hended.over (hcontainer _ ((Nat.le_succ _).trans hlater.clock)) _

/-! ### Terminating the child -/

theorem group_of_child {w : World} {p : Proc} (hp : w.holder r.childPid = some p)
    (hgroup : p.group.pid = r.childPid) (hchild : IsChild r p) :
    ∀ q ∈ w.procs, q.ident.pid = r.childPid → q.group.is r.childStartToken := by
  intro q hq hqpid
  have hsame := hp.symm.trans (holder_eq_some.mpr ⟨hq, hqpid⟩)
  cases hsame
  rw [p.led (hgroup.trans hchild.1.symm)]
  exact hchild.2

theorem ended_of_holder_eq_none (horphan : Orphan evo.toHost s.clock r)
    (hpgid : r.posixPgid = some r.childPid) (hnone : (evo.world s.clock).holder r.childPid = none)
    (horderly : Orderly evo.toHost (.getpgid s.clock since r)) :
    Ended evo.toHost s.clock r := by
  obtain ⟨m, name, hm, hstored⟩ := horphan.stored
  intro n hn
  constructor
  · exact evo.childEnds m s.clock n name r hm hn hstored
      fun p hp hpid => absurd hpid (holder_eq_none.mp hnone p hp)
  · exact evo.groupEnds m s.clock n name r hm hn hstored hpgid (horderly.2 hnone)

theorem signalOwnedProcess_terminates (horphan : Orphan evo.toHost s.clock r)
    (hsince : ∀ p ∈ (evo.world since).procs, p.ident.pid = r.childPid → IsChild r p)
    (hcontainer : ∀ n, s.clock ≤ n → Uncontained (evo.world n) r) (hright : AllRight evo.toHost s)
    (horderly : AllOrderly evo.toHost (signalOwnedProcess evo.toHost r since s).2) :
    Terminates evo.toHost r (signalOwnedProcess evo.toHost r since s) := by
  unfold signalOwnedProcess at horderly ⊢
  by_cases hnt : evo.nt
  · rw [if_pos hnt] at horderly ⊢
    exact terminateWindowsProcessTree_terminates horphan hsince hcontainer hright horderly
  rw [if_neg hnt] at horderly ⊢
  by_cases hmode : r.terminationMode = "process_group"
  · rw [if_pos hmode] at horderly ⊢
    by_cases hforeign : r.posixPgid ≠ some r.childPid ∨ r.childPid = (evo.world s.clock).ownGroup
    · rw [if_pos hforeign]
      exact ⟨hright, nofun⟩
    rw [if_neg hforeign] at horderly ⊢
    have hpgid : r.posixPgid = some r.childPid := by
      by_contra h
      exact hforeign (.inl h)
    have hasked : AllRight evo.toHost (s.call (.getpgid s.clock since r)) :=
      hright.call trivial
    have hnext : ∀ n, s.clock + 1 ≤ n → Uncontained (evo.world n) r :=
      fun n hn => hcontainer n (Nat.le_of_succ_le hn)
    cases hholder : (evo.world s.clock).holder r.childPid with
    | none =>
      rw [hholder] at horderly
      have hended := ended_of_holder_eq_none horphan hpgid hholder (horderly _ (mem_call s _))
      exact ⟨hasked, fun _ => (hended.mono (Nat.le_succ _)).over (hnext _ (Nat.le_refl _)) _⟩
    | some p =>
      rw [hholder] at horderly
      dsimp only at horderly ⊢
      by_cases hgroup : p.group.pid ≠ r.childPid
      · rw [if_pos hgroup]
        exact ⟨hasked, nofun⟩
      · rw [if_neg hgroup] at horderly ⊢
        have hgetpgid : Orderly evo.toHost (.getpgid s.clock since r) :=
          horderly.of_call ((Later.call _ _).trans
            (later_terminatePosixGroup evo.toHost r s.clock _))
        obtain ⟨hp, hpid⟩ := holder_eq_some.mp hholder
        have hchild : IsChild r p := hsince p (hgetpgid.1 p hp hpid) hpid
        exact terminatePosixGroup_terminates (horphan.mono (Nat.le_succ _)) hpgid
          (group_of_child hholder (not_not.mp hgroup) hchild) hnext hasked horderly
  · rw [if_neg hmode] at horderly ⊢
    have hterm : Orderly evo.toHost (.signal s.clock since r .process .term) := by
      split at horderly
      · exact horderly _ (mem_call s _)
      · exact horderly _ (mem_call s _)
    have htermed : AllRight evo.toHost (s.call (.signal s.clock since r .process .term)) :=
      hright.call (horphan.right (aimed_of_unmoved_process hsince hterm.1))
    split
    · exact ⟨htermed, nofun⟩
    · rename_i hreply
      obtain ⟨hgone, habandoned⟩ := hterm.2 hreply
      exact ⟨htermed, fun _ => {
        child := fun p hp hchild => absurd hchild.2 (hgone p hp hchild.1)
        group := fun p hp hmember => absurd hmember (habandoned.1 p hp)
        container := hcontainer _ (Nat.le_succ _) }⟩

theorem later_signalOwnedProcess (host : Host) (r : Payload) (since : Nat) (s : State) :
    Later s (signalOwnedProcess host r since s).2 := by
  unfold signalOwnedProcess
  split
  · exact (Later.call _ _).trans (later_awaitExit host r _ _)
  · split
    · split
      · exact Later.refl s
      · split
        · exact Later.call s _
        · split
          · exact Later.call s _
          · exact ((Later.call s _).trans (Later.call _ _)).trans
              (later_terminatePosixGroup host r s.clock _)
    · split
      · exact Later.call s _
      · exact Later.call s _

theorem later_terminateOwnedProcess (host : Host) (r : Payload) (s : State) :
    Later s (terminateOwnedProcess host r s).2 := by
  have hinspect := later_inspect host .recheck r s
  unfold terminateOwnedProcess
  split
  · rename_i checked h
    rw [h] at hinspect
    exact (hinspect.trans (later_cleanup r checked)).trans (later_signalOwnedProcess host r _ _)
  · rename_i checked h
    rwa [h] at hinspect

/-- **A child is terminated rightly, and when it is said to be its record is over.** -/
theorem terminateOwnedProcess_terminates (horphan : Orphan evo.toHost s.clock r)
    (hright : AllRight evo.toHost s)
    (horderly : AllOrderly evo.toHost (terminateOwnedProcess evo.toHost r s).2) :
    Terminates evo.toHost r (terminateOwnedProcess evo.toHost r s) := by
  have hlater := later_inspect evo.toHost .recheck r s
  have hinspect := hright.inspect .recheck r
  unfold terminateOwnedProcess at horderly ⊢
  split at horderly
  · rename_i checked h
    rw [h] at hlater hinspect
    obtain ⟨-, hchild⟩ := child_of_matching h
    obtain ⟨m, name, -, hstored⟩ := horphan.stored
    have hclean := later_cleanup r checked
    have hcleanly : AllOrderly evo.toHost (cleanupOwnedResource r checked) :=
      horderly.before (later_signalOwnedProcess evo.toHost r _ _)
    exact signalOwnedProcess_terminates (horphan.mono (hlater.clock.trans hclean.clock)) hchild
      (uncontained_of_cleanup hstored hcleanly) (hinspect.cleanup r) horderly
  · rename_i checked hstate h
    rw [h] at hinspect
    exact ⟨hinspect, nofun⟩

end AlysisCode.Terminal
