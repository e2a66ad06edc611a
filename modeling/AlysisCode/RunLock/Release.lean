/-
Mutual exclusion of the run lock.

In a run whose steps overwrite and remove only lock files they have read, no two live
processes hold a guard.  `refreshed_after_release` is a run in which one refresh does not:
it straddles a release and the next acquisition.
-/
import AlysisCode.RunLock.Invariant
import AlysisCode.Library.Runs

namespace AlysisCode.RunLock

open Runs

/-! ### Runs -/

section Runs

variable {host : String} {s : State} {k : OwnerToken} {c : Call} {s' s : State} {m : Metadata}
  {l : Label} {d : Call}

theorem run_eq_some {f : Call → Option State} : s.run k f = some s' ↔
      ∃ c, s.calls k = some c ∧ s.alive c.config.pid = true ∧ f c = some s' := by
  unfold State.run
  cases s.calls k with
  | none => simp
  | some c => simp [Option.ite_none_right_eq_some]

theorem Gone.mono {r r' : Nat → Option Bool} {now now' : Nat} (h : Gone r now m)
    (hr : ∀ pid, r pid = some false → r' pid = some false) (hnow : now ≤ now') :
    Gone r' now' m := by
  rcases h with ⟨pid, hpid, hrun⟩ | ⟨ttl, beat, httl, hat, hlt⟩
  · exact Or.inl ⟨pid, hpid, hr pid hrun⟩
  · exact Or.inr ⟨ttl, beat, httl, hat, by omega⟩

theorem CallOk.exit (h : CallOk s k c) (pid : Nat) :
    CallOk { s with alive := Function.update s.alive pid false } k c := by
  have hdead : ∀ p, Function.update s.alive pid false p = true → s.alive p = true := by
    intro p hp
    by_cases hpp : p = pid
    · rw [hpp, Function.update_self] at hp
      cases hp
    · rwa [Function.update_of_ne hpp] at hp
  refine ⟨h.opening, h.writing, ?_, ?_, h.own, h.beating, h.draft⟩
  · intro m hm
    refine (h.judged m hm).mono ?_ le_rfl
    intro p hp
    simp only [State.isRunning, Option.some.injEq] at hp ⊢
    by_contra hne
    rw [hdead p (by simpa using hne)] at hp
    cases hp
  · intro hphase halive
    exact h.tenured hphase (hdead _ halive)

theorem CallOk.tick (h : CallOk s k c) (elapsed : Nat) :
    CallOk { s with now := s.now + elapsed } k c := by
  refine ⟨h.opening, h.writing, ?_, ?_, h.own, h.beating, h.draft⟩
  · intro m hm
    exact (h.judged m hm).mono (fun _ hp => hp) (Nat.le_add_right _ _)
  · intro hphase halive
    rcases h.tenured hphase halive with hin | hlapsed
    · exact Or.inl hin
    · refine Or.inr ?_
      unfold Call.lapsed at hlapsed ⊢
      show c.config.heartbeatTtlS < s.now + elapsed - c.beatAt
      omega

/-- **Every step that meets the condition keeps every call well.** -/
theorem exec_sound (h : exec host s l = some s') (hs : Sound s)
    (hu : undisturbed s l = true) : Sound s' := by
  cases l with
  | start k config =>
    simp only [exec, Option.ite_none_right_eq_some, Option.some.injEq] at h
    obtain ⟨-, rfl⟩ := h
    have hstep : Stepped s k (s.put k { config := config }) :=
      ⟨rfl, rfl, .kept, _, rfl, .idle rfl rfl⟩
    exact hstep.sound hs
  | advance k patient =>
    obtain ⟨c, hk, -, hstep⟩ := run_eq_some.mp h
    exact ((advance_effect hstep).stepped (hs k c hk) ((Option.all_eq_true _ _).mp hu c hk)).sound hs
  | release k =>
    obtain ⟨c, hk, -, hstep⟩ := run_eq_some.mp h
    exact (release_stepped hstep (hs k c hk)).sound hs
  | beat k =>
    obtain ⟨c, hk, -, hstep⟩ := run_eq_some.mp h
    exact (beat_stepped hstep (hs k c hk) ((Option.all_eq_true _ _).mp hu c hk)).sound hs
  | beatError k =>
    obtain ⟨c, hk, -, hstep⟩ := run_eq_some.mp h
    simp only [beatError, Option.ite_none_left_eq_some, Option.some.injEq] at hstep
    obtain ⟨-, rfl⟩ := hstep
    exact (hs k c hk).rest_stepped.sound hs
  | exit pid =>
    cases h
    intro k c hk
    exact (hs k c hk).exit pid
  | tick elapsed =>
    cases h
    intro k c hk
    exact (hs k c hk).tick elapsed

theorem sound_of_run {alive : Nat → Bool} {lock recovery : File} {trace : List Label}
    (h : Run (Step host) (initial alive lock recovery) trace s)
    (hc : Throughout (Step host) (initial alive lock recovery) Undisturbed trace) :
    Sound s ∧ HeartbeatsKept s := by
  refine h.throughout (I := fun _ s => Sound s ∧ HeartbeatsKept s) ?_ ?_ hc
  · constructor
    · intro k c hk
      cases hk
    · rintro k c ⟨hk, -⟩
      cases hk
  · intro trace s l s' _ hs hu hstep
    exact ⟨exec_sound hstep.1 hs.1 hu, hstep.2⟩

theorem installed_of_holds (hs : Sound s) (hkept : HeartbeatsKept s) (h : Holds s k c) :
    Installed s.lock k c := by
  obtain ⟨hk, halive, hholds⟩ := h
  rcases (hs k c hk).tenured (phase_of_holds hholds) halive with hin | hlapsed
  · exact hin
  · exact absurd hlapsed (hkept k c ⟨hk, halive, hholds⟩)

/-- **Mutual exclusion of the run lock**, in every run whose steps overwrite and remove
only what they read. -/
theorem mutual_exclusion_of_undisturbed {alive : Nat → Bool} {lock recovery : File}
    {trace : List Label} {s : State} (h : Run (Step host) (initial alive lock recovery) trace s)
    (hc : Throughout (Step host) (initial alive lock recovery) Undisturbed trace) :
    MutualExclusion s := by
  obtain ⟨hs, hkept⟩ := sound_of_run h hc
  intro j k c d hj hk
  have hjk : j = k :=
    (installed_of_holds hs hkept hj).unique (installed_of_holds hs hkept hk)
  subst hjk
  obtain rfl : c = d := by simpa using hj.1.symm.trans hk.1
  rfl

end Runs

/-! ### A refresh after a release

The first process's heartbeat thread has read its lock and is about to replace it when the
process releases the lock and the second acquires it.  The replace puts the first lock
back over the second's.  The first process exits, and the third takes its lock for stale.
-/

def tokenA : OwnerToken := ⟨"0000000000000000000000000000000a", by decide⟩

def tokenB : OwnerToken := ⟨"0000000000000000000000000000000b", by decide⟩

def tokenC : OwnerToken := ⟨"0000000000000000000000000000000c", by decide⟩

/-- The default settings, for the process `pid`. -/
def defaultConfig (pid : Nat) : Config :=
  { pid := pid
    mode := "run"
    ownerId := "host"
    wait := false
    intervalS := 15000000
    envTtlS := 120000000 }

/-- The start of a call and `n` steps of its thread. -/
def started (k : OwnerToken) (pid n : Nat) : List Label :=
  .start k (defaultConfig pid) :: List.replicate n (.advance k false)

def refreshedTrace : List Label :=
  started tokenA 1 5 ++ List.replicate 3 (.beat tokenA) ++
    .release tokenA :: List.replicate 3 (.advance tokenA false) ++
    started tokenB 2 5 ++ [.beat tokenA, .exit 1] ++ started tokenC 3 17

/-- The test that the live process `pid` holds the guard of the call. -/
def holding (s : State) (k : OwnerToken) (pid : Nat) : Bool :=
  (s.calls k).any fun c => c.config.pid == pid && s.alive pid && c.main.holds

theorem holds_of_holding {k : OwnerToken} {pid : Nat} (h : holding s k pid = true) :
    ∃ c, Holds s k c ∧ c.config.pid = pid := by
  simp only [holding, Option.any_eq_true, Bool.and_eq_true, beq_iff_eq] at h
  obtain ⟨c, hk, ⟨rfl, halive⟩, hholds⟩ := h
  exact ⟨c, ⟨hk, halive, hholds⟩, rfl⟩

/-- The steps that take no time. -/
def punctual (host : String) (s : State) (l : Label) : Option State :=
  (exec host s l).filter (·.now == 0)

theorem step_of_punctual {host : String} (s : State) (l : Label) (s' : State)
    (h : punctual host s l = some s') : Step host s l s' := by
  simp only [punctual, Option.filter_eq_some_iff, beq_iff_eq] at h
  refine ⟨h.1, ?_⟩
  intro k c _ hlapsed
  unfold Call.lapsed at hlapsed
  omega

/-- A refresh that ends after the release puts two live processes in possession. -/
theorem refreshed_after_release : ∃ s,
    Run (Step "host") (initial (fun _ => true) none none) refreshedTrace s ∧
      ¬ MutualExclusion s := by
  have hplay : ((play (punctual "host") refreshedTrace (initial (fun _ => true) none none)).any
      fun s => holding s tokenB 2 && holding s tokenC 3) = true := by
    decide +kernel
  obtain ⟨s, hs, hboth⟩ := (Option.any_eq_true _ _).mp hplay
  rw [Bool.and_eq_true] at hboth
  obtain ⟨c, hc, hpid⟩ := holds_of_holding hboth.1
  obtain ⟨d, hd, hpid'⟩ := holds_of_holding hboth.2
  refine ⟨s, run_of_play step_of_punctual hs, ?_⟩
  intro hexcl
  have := hexcl _ _ _ _ hc hd
  omega

/-- The first process dies with the lock, and the third recovers it. -/
def recoveredTrace : List Label :=
  started tokenA 1 5 ++ List.replicate 4 (.beat tokenA) ++ .exit 1 :: started tokenC 3 17

theorem mutual_exclusion_recovered : ∃ s c,
    Run (Step "host") (initial (fun _ => true) none none) recoveredTrace s ∧
      Holds s tokenC c ∧ MutualExclusion s := by
  have hplay : ((play (punctual "host") recoveredTrace (initial (fun _ => true) none none)).any
      fun s => holding s tokenC 3) = true := by
    decide +kernel
  obtain ⟨s, hs, hheld⟩ := (Option.any_eq_true _ _).mp hplay
  obtain ⟨c, hc, -⟩ := holds_of_holding hheld
  have hrun := run_of_play step_of_punctual hs
  have hund : Throughout (Step "host") (initial (fun _ => true) none none) Undisturbed
      recoveredTrace :=
    throughout_of_allSteps (fun _ _ _ h => h.1)
      (by decide +kernel : allSteps (exec "host") undisturbed recoveredTrace _ = true)
  exact ⟨s, c, hrun, hc, mutual_exclusion_of_undisturbed hrun hund⟩

end AlysisCode.RunLock

/-! ### Releases

What a released lock is left to.

`release` signals the heartbeat thread and does not wait for it.  A refresh that has read
the lock before the release and replaces it after puts the released lock back, and nothing
removes it again: it names a live process until that process exits or its promise to beat
runs out.

`NoneInHand` is the condition: when a release unlinks the lock file, or finds it not its
own and returns, its heartbeat thread holds no copy of the lock.  No other thread is
restrained, and neither is time.
-/

namespace AlysisCode.RunLock

open Runs

/-! ### The claim and the condition -/

def Label.caller : Label → Option OwnerToken
  | .start k _ | .advance k _ | .release k | .beat k | .beatError k => some k
  | .exit _ | .tick _ => none

/-- `release` has returned at least once. -/
def MainPc.returned : MainPc → Bool
  | .releaseRead true | .releaseUnlink true | .released => true
  | _ => false

/-- A lock whose release has returned is not at the path, and no step that either of its
threads can take touches the path. -/
def ReleasedForGood (host : String) (s : State) : Prop :=
  ∀ k c, s.calls k = some c → c.main.returned = true → carries s.lock k = false ∧
      ∀ l s', l.caller = some k → exec host s l = some s' → s'.lock = s.lock

def MainPc.givesUp (lock : File) (k : OwnerToken) : MainPc → Bool
  | .releaseUnlink _ => true
  | .releaseRead _ => !carries lock k
  | _ => false

def noneInHand (s : State) : Label → Bool
  | .advance k _ => (s.calls k).all fun c => !c.main.givesUp s.lock k || c.beat.draft.isNone
  | _ => true

/-- The condition on the steps of a run. -/
def NoneInHand (_ : List Label) (s : State) (l : Label) : Prop :=
  noneInHand s l = true

/-! ### What a step may leave at the path -/

structure Left (s : State) (k : OwnerToken) (c : Call) : Prop where
  opening : ∀ m, c.main.phase = .opening m → m.ownedBy k = true
  writing : ∀ m, c.main.phase = .writing m → m.ownedBy k = true
  draft : ∀ m, c.beat.draft = some m → m.ownedBy k = true
  gone : c.main.phase = .released → carries s.lock k = false
  idle : c.main.phase = .released → c.beat.draft = none
  unlinking : c.main ≠ .releaseUnlink true

theorem phase_of_returned {pc : MainPc} (h : pc.returned = true) : pc.phase = .released := by
  unfold MainPc.returned at h
  split at h
  · rfl
  · rfl
  · rfl
  · cases h

variable {k : OwnerToken}

theorem carries_metadata {j : OwnerToken} (hm : m.ownedBy k = true)
    (h : carries (some (.metadata m)) j = true) : j = k := by
  obtain ⟨m', hm', hj⟩ := carries_iff.mp h
  cases hm'
  exact Metadata.ownedBy_unique hj hm

/-- After a step of the call `k`: its record answers for itself, and no other call's lock
has come to the path. -/
structure Moved (s : State) (k : OwnerToken) (s' : State) : Prop where
  calls : ∃ c, s'.calls = Function.update s.calls k (some c) ∧ Left s' k c
  lock : ∀ j, j ≠ k → carries s'.lock j = true → carries s.lock j = true

theorem Left.other {j : OwnerToken} (h : Left s j d)
    (hlock : carries s'.lock j = true → carries s.lock j = true) : Left s' j d where
  opening := h.opening
  writing := h.writing
  draft := h.draft
  gone := by
    intro hphase
    by_contra hcarries
    rw [Bool.not_eq_false] at hcarries
    rw [h.gone hphase] at hlock
    exact absurd (hlock hcarries) Bool.false_ne_true
  idle := h.idle
  unlinking := h.unlinking

theorem Moved.left (h : Moved s k s') (hs : ∀ j d, s.calls j = some d → Left s j d) :
    ∀ j d, s'.calls j = some d → Left s' j d := by
  intro j d hj
  obtain ⟨c, hcalls, hc⟩ := h.calls
  rw [hcalls] at hj
  by_cases hjk : j = k
  · rw [hjk, Function.update_self] at hj
    cases hj
    rw [hjk]
    exact hc
  · rw [Function.update_of_ne hjk] at hj
    exact (hs j d hj).other (h.lock j hjk)

section Steps

variable {host : String} {s s' : State} {k : OwnerToken} {c : Call}

theorem Advance.others (h : Advance host s k c s') (hleft : Left s k c) :
    ∀ j, j ≠ k → carries s'.lock j = true → carries s.lock j = true := by
  intro j hne hj
  cases h with
  | quiet | built => exact hj
  | opened => cases hj
  | @written pc m hphase =>
    have hown := hleft.writing m hphase
    change carries (writeOpened s.lock k m) j = true at hj
    unfold writeOpened at hj
    split at hj
    · exact absurd (carries_metadata hown hj) hne
    · exact hj
  | judged => exact hj
  | recovered | unlinked => cases hj

/-- What a step of the caller's thread has at hand, it built itself. -/
theorem Advance.at_hand (h : Advance host s k c s') (hleft : Left s k c) :
    ∃ d, s'.calls = Function.update s.calls k (some d) ∧ d.beat = c.beat ∧
      (∀ m, d.main.phase = .opening m → m.ownedBy k = true) ∧
      ∀ m, d.main.phase = .writing m → m.ownedBy k = true := by
  cases h with
  | @quiet pc recovery hquiet =>
    generalize c.main.phase = p at hquiet
    refine ⟨_, rfl, rfl, ?_, ?_⟩
    · intro m hm
      rw [show pc.phase = _ from hm] at hquiet
      cases hquiet
    · intro m hm
      rw [show pc.phase = _ from hm] at hquiet
      cases hquiet
  | @built pc hpc =>
    refine ⟨_, rfl, rfl, ?_, ?_⟩
    · intro m hm
      cases hpc.symm.trans hm
      exact own_buildMetadata.owned
    · intro m hm
      cases hpc.symm.trans hm
  | @opened pc m hphase _ hpc =>
    refine ⟨_, rfl, rfl, ?_, ?_⟩
    · intro m' hm
      cases hpc.symm.trans hm
    · intro m' hm
      cases hpc.symm.trans hm
      exact hleft.opening m hphase
  | @written pc m _ hpc =>
    refine ⟨_, rfl, rfl, ?_, ?_⟩
    · intro m' hm
      cases hpc.symm.trans hm
    · intro m' hm
      cases hpc.symm.trans hm
  | judged | recovered | unlinked =>
    refine ⟨_, rfl, rfl, ?_, ?_⟩
    · intro m hm
      cases hm
    · intro m hm
      cases hm

theorem advance_releasing {patient : Bool} (h : advance host s k c patient = some s')
    (hd : s'.calls k = some d) :
    (d.main.phase = .released → c.main.phase = .released ∧ s'.lock = s.lock ∨
      c.main.givesUp s.lock k = true ∧ carries s'.lock k = false) ∧
    (d.main = .releaseUnlink true → c.main = .releaseRead true ∧ carries s.lock k = true) := by
  have put : ∀ (t : State) (e : Call), some (t.put k e) = some s' → d = e ∧ s'.lock = t.lock := by
    intro t e heq
    cases heq
    simp only [State.put, Function.update_self, Option.some.injEq] at hd
    exact ⟨hd.symm, rfl⟩
  -- Wherever else the thread goes, it is not past a release there.
  have elsewhere : ∀ (t : State) (e : Call), some (t.put k e) = some s' →
      e.main.phase ≠ .released → (d.main.phase = .released → c.main.phase = .released ∧
        s'.lock = s.lock ∨ c.main.givesUp s.lock k = true ∧ carries s'.lock k = false) ∧
      (d.main = .releaseUnlink true → c.main = .releaseRead true ∧ carries s.lock k = true) := by
    intro t e heq hne
    obtain ⟨rfl, -⟩ := put t e heq
    refine ⟨fun hphase => absurd hphase hne, ?_⟩
    intro hmain
    rw [hmain] at hne
    exact absurd rfl hne
  unfold advance at h
  dsimp only at h
  cases hmain : c.main with
  | releaseRead again =>
    rw [hmain] at h
    dsimp only at h
    split at h
    · rename_i hcarries
      obtain ⟨rfl, hlock⟩ := put _ _ h
      cases again with
      | true => exact ⟨fun _ => Or.inl ⟨rfl, hlock⟩, fun _ => ⟨rfl, hcarries⟩⟩
      | false =>
        constructor
        · intro hphase
          cases hphase
        · intro hunlink
          cases hunlink
    · rename_i hcarries
      rw [Bool.not_eq_true] at hcarries
      obtain ⟨rfl, hlock⟩ := put _ _ h
      have hgone : carries s'.lock k = false := by rw [hlock]; exact hcarries
      refine ⟨fun _ => Or.inr ⟨by simp [MainPc.givesUp, hcarries], hgone⟩, ?_⟩
      intro hunlink
      cases hunlink
  | releaseUnlink again =>
    rw [hmain] at h
    obtain ⟨rfl, hlock⟩ := put _ _ h
    refine ⟨fun _ => Or.inr ⟨rfl, by rw [hlock]; rfl⟩, ?_⟩
    intro hunlink
    cases hunlink
  | releaseClaimRead =>
    rw [hmain] at h
    dsimp only at h
    split at h
    all_goals
      obtain ⟨rfl, hlock⟩ := put _ _ h
      refine ⟨fun _ => Or.inl ⟨rfl, hlock⟩, ?_⟩
      intro hunlink
      cases hunlink
  | releaseClaimUnlink =>
    rw [hmain] at h
    obtain ⟨rfl, hlock⟩ := put _ _ h
    refine ⟨fun _ => Or.inl ⟨rfl, hlock⟩, ?_⟩
    intro hunlink
    cases hunlink
  | clearRead next =>
    rw [hmain] at h elsewhere
    dsimp only at h
    split at h
    · exact elsewhere _ _ h (by simp [phase_resume])
    · exact elsewhere _ _ h (by simp [MainPc.phase])
  | clearUnlink next =>
    rw [hmain] at h elsewhere
    exact elsewhere _ _ h (by simp [phase_resume])
  | finallyRead outcome | finallyUnlink outcome =>
    rw [hmain] at h elsewhere
    cases outcome
    all_goals
      dsimp only at h
      try split at h
      all_goals exact elsewhere _ _ h (by simp [MainPc.phase])
  | failed | held | released =>
    rw [hmain] at h
    cases h
  | _ =>
    rw [hmain] at h elsewhere
    dsimp only at h
    repeat' split at h
    all_goals first
      | exact elsewhere _ _ h (by simp [MainPc.phase])
      | cases h

/-- A step of the caller's thread, under the condition. -/
theorem advance_moved {patient : Bool} (h : advance host s k c patient = some s')
    (hleft : Left s k c) (hnone : c.main.givesUp s.lock k = true → c.beat.draft = none) :
    Moved s k s' := by
  obtain ⟨d, hcalls, hbeat, hopening, hwriting⟩ := (advance_effect h).at_hand hleft
  have hd : s'.calls k = some d := by rw [hcalls, Function.update_self]
  obtain ⟨hreleased, hunlinking⟩ := advance_releasing h hd
  refine ⟨⟨d, hcalls, hopening, hwriting, ?_, ?_, ?_, ?_⟩, (advance_effect h).others hleft⟩
  · rw [hbeat]
    exact hleft.draft
  · intro hphase
    rcases hreleased hphase with ⟨hold, hlock⟩ | ⟨-, hgone⟩
    · rw [hlock]
      exact hleft.gone hold
    · exact hgone
  · intro hphase
    rw [hbeat]
    rcases hreleased hphase with ⟨hold, -⟩ | ⟨hgives, -⟩
    · exact hleft.idle hold
    · exact hnone hgives
  · intro hmain
    obtain ⟨hread, hcarries⟩ := hunlinking hmain
    rw [hleft.gone (by rw [hread]; rfl)] at hcarries
    cases hcarries

theorem Left.moved (hleft : Left s k c)
    (hbefore : ∀ m, d.main.phase ≠ .opening m ∧ d.main.phase ≠ .writing m)
    (hdraft : ∀ m, d.beat.draft = some m → m.ownedBy k = true)
    (hreleased : d.main.phase = .released → c.main.phase = .released ∧ d.beat.draft = none)
    (hunlinking : d.main ≠ .releaseUnlink true) : Moved s k (s.put k d) where
  calls := by
    refine ⟨d, rfl, ?_, ?_, hdraft, ?_, ?_, hunlinking⟩
    · intro m hm
      exact absurd hm (hbefore m).1
    · intro m hm
      exact absurd hm (hbefore m).2
    · intro hphase
      exact hleft.gone (hreleased hphase).1
    · intro hphase
      exact (hreleased hphase).2
  lock := fun _ _ hj => hj

theorem release_moved (h : release s k c = some s') (hleft : Left s k c) : Moved s k s' := by
  unfold release at h
  split at h
  · cases h
    refine hleft.moved ?_ hleft.draft ?_ ?_
    · intro m
      simp [MainPc.phase]
    · intro hphase
      cases hphase
    · simp
  · rename_i hmain
    have hphase : c.main.phase = .released := by rw [hmain]; rfl
    cases h
    refine hleft.moved ?_ hleft.draft (fun _ => ⟨hphase, hleft.idle hphase⟩) ?_
    · intro m
      simp [MainPc.phase]
    · simp
  · cases h

theorem Left.rebeat {b : BeatPc} (hleft : Left s k c)
    (hdraft : ∀ m, b.draft = some m → m.ownedBy k = true ∧ c.main.phase ≠ .released) :
    Moved s k (s.put k { c with beat := b }) where
  calls := by
    refine ⟨_, rfl, hleft.opening, hleft.writing, ?_, hleft.gone, ?_, hleft.unlinking⟩
    · intro m hm
      exact (hdraft m hm).1
    · intro hphase
      apply Option.eq_none_iff_forall_ne_some.mpr
      intro m hm
      exact (hdraft m hm).2 hphase
  lock := fun _ _ hj => hj

theorem Left.unreleased (hleft : Left s k c) (hm : c.beat.draft = some m) :
    c.main.phase ≠ .released := by
  intro hphase
  rw [hleft.idle hphase] at hm
  cases hm

theorem beat_moved (h : beat s k c = some s') (hleft : Left s k c) : Moved s k s' := by
  have rest : Moved s k (s.put k { c with beat := .waiting }) := by
    apply hleft.rebeat
    intro m hm
    cases hm
  unfold beat at h
  split at h
  · split at h
    · cases h
      apply hleft.rebeat
      intro m hm
      cases hm
    · cases h
  · split at h
    · cases h
      exact rest
    · rename_i current hload
      split at h
      · rename_i howned
        cases h
        apply hleft.rebeat
        intro m hm
        cases hm
        refine ⟨howned, ?_⟩
        intro hphase
        have hcarries : carries s.lock k = true :=
          carries_iff.mpr ⟨_, loadMetadata_eq_some.mp hload, howned⟩
        rw [hleft.gone hphase] at hcarries
        cases hcarries
      · cases h
        exact rest
  · rename_i current hbeat
    have hdraft : c.beat.draft = some current := by rw [hbeat]; rfl
    cases h
    apply hleft.rebeat
    intro m hm
    cases hm
    exact ⟨hleft.draft current hdraft, hleft.unreleased hdraft⟩
  · rename_i current hbeat
    have hdraft : c.beat.draft = some current := by rw [hbeat]; rfl
    have hown := hleft.draft current hdraft
    cases h
    refine ⟨⟨_, rfl, hleft.opening, hleft.writing, ?_, ?_, fun _ => rfl, hleft.unlinking⟩, ?_⟩
    · intro m hm
      cases hm
    · intro hphase
      exact absurd hphase (hleft.unreleased hdraft)
    · intro j hne hj
      exact absurd (carries_metadata hown hj) hne

/-- **Every step that meets the condition keeps every call answerable.** -/
theorem exec_left (h : exec host s l = some s')
    (hs : ∀ k c, s.calls k = some c → Left s k c) (hnone : noneInHand s l = true) :
    ∀ k c, s'.calls k = some c → Left s' k c := by
  cases l with
  | start k config =>
    simp only [exec, Option.ite_none_right_eq_some, Option.some.injEq] at h
    obtain ⟨-, rfl⟩ := h
    have hstep : Moved s k (s.put k { config := config }) := by
      refine ⟨⟨_, rfl, ?_, ?_, ?_, ?_, ?_, ?_⟩, fun _ _ hj => hj⟩
      all_goals simp [MainPc.phase, BeatPc.draft]
    exact hstep.left hs
  | advance k patient =>
    obtain ⟨c, hk, -, hstep⟩ := run_eq_some.mp h
    have hc := (Option.all_eq_true _ _).mp hnone c hk
    refine (advance_moved hstep (hs k c hk) ?_).left hs
    intro hgives
    simpa [hgives] using hc
  | release k =>
    obtain ⟨c, hk, -, hstep⟩ := run_eq_some.mp h
    exact (release_moved hstep (hs k c hk)).left hs
  | beat k =>
    obtain ⟨c, hk, -, hstep⟩ := run_eq_some.mp h
    exact (beat_moved hstep (hs k c hk)).left hs
  | beatError k =>
    obtain ⟨c, hk, -, hstep⟩ := run_eq_some.mp h
    simp only [beatError, Option.ite_none_left_eq_some, Option.some.injEq] at hstep
    obtain ⟨-, rfl⟩ := hstep
    refine ((hs k c hk).rebeat ?_).left hs
    intro m hm
    cases hm
  | exit pid | tick elapsed =>
    cases h
    intro k c hk
    exact (hs k c hk).other id

theorem Advance.untouched (h : Advance host s k c s') (hleft : Left s k c)
    (hphase : c.main.phase = .released) : s'.lock = s.lock := by
  cases h with
  | quiet => rfl
  | built _ hold | opened hold | written hold | judged hold =>
    rw [hphase] at hold
    cases hold
  | recovered hmain =>
    rw [hmain] at hphase
    cases hphase
  | @unlinked again hmain =>
    cases again with
    | true => exact absurd hmain hleft.unlinking
    | false =>
      rw [hmain] at hphase
      cases hphase

/-- Only a refresh with a copy of the lock in hand replaces the file. -/
theorem beat_untouched (h : beat s k c = some s') (hidle : c.beat.draft = none) :
    s'.lock = s.lock := by
  unfold beat at h
  split at h
  · split at h
    · cases h
      rfl
    · cases h
  · split at h
    · cases h
      rfl
    · split at h
      · cases h
        rfl
      · cases h
        rfl
  · cases h
    rfl
  · rename_i current hbeat
    rw [hbeat] at hidle
    cases hidle

theorem Left.untouched (hleft : Left s k c) (hk : s.calls k = some c)
    (hphase : c.main.phase = .released) (hl : l.caller = some k)
    (h : exec host s l = some s') : s'.lock = s.lock := by
  cases l with
  | start j config =>
    cases hl
    simp [exec, hk] at h
  | advance j patient =>
    cases hl
    obtain ⟨c', hk', -, hstep⟩ := run_eq_some.mp h
    obtain rfl : c = c' := by simpa using hk.symm.trans hk'
    exact (advance_effect hstep).untouched hleft hphase
  | release j =>
    cases hl
    obtain ⟨c', hk', -, hstep⟩ := run_eq_some.mp h
    obtain rfl : c = c' := by simpa using hk.symm.trans hk'
    unfold release at hstep
    split at hstep
    · cases hstep
      rfl
    · cases hstep
      rfl
    · cases hstep
  | beat j =>
    cases hl
    obtain ⟨c', hk', -, hstep⟩ := run_eq_some.mp h
    obtain rfl : c = c' := by simpa using hk.symm.trans hk'
    exact beat_untouched hstep (hleft.idle hphase)
  | beatError j =>
    cases hl
    obtain ⟨c', -, -, hstep⟩ := run_eq_some.mp h
    simp only [beatError, Option.ite_none_left_eq_some, Option.some.injEq] at hstep
    obtain ⟨-, rfl⟩ := hstep
    rfl
  | exit pid | tick elapsed => cases hl

end Steps

/-! ### Runs -/

/-- A step of any thread, however late. -/
def Exec (host : String) (s : State) (l : Label) (s' : State) : Prop :=
  exec host s l = some s'

/-- **A released lock stays released**, in every run in which no release overtakes a
refresh that has the lock in hand. -/
theorem released_for_good_of_none_in_hand {host : String} {alive : Nat → Bool}
    {lock recovery : File} {trace : List Label} {s : State}
    (h : Run (Exec host) (initial alive lock recovery) trace s)
    (hc : Throughout (Exec host) (initial alive lock recovery) NoneInHand trace) :
    ReleasedForGood host s := by
  have hleft : ∀ k c, s.calls k = some c → Left s k c := by
    refine h.throughout (I := fun _ s => ∀ k c, s.calls k = some c → Left s k c) ?_ ?_ hc
    · intro k c hk
      cases hk
    · intro trace s l s' _ hs hnone hstep
      exact exec_left hstep hs hnone
  intro k c hk hreturned
  have hphase := phase_of_returned hreturned
  refine ⟨(hleft k c hk).gone hphase, ?_⟩
  intro l s' hl hstep
  exact (hleft k c hk).untouched hk hphase hl hstep

/-! ### A refresh that the release overtakes -/

/-- The process acquires; its heartbeat thread reads the lock and stamps it; the process
releases; the heartbeat thread replaces the file. -/
def overtakenTrace : List Label :=
  started tokenA 1 5 ++ List.replicate 3 (.beat tokenA) ++
    .release tokenA :: List.replicate 3 (.advance tokenA false) ++ [.beat tokenA]

/-- The test that the release of a call has returned and its lock is at the path. -/
def releasedInPlace (s : State) (k : OwnerToken) : Bool :=
  (s.calls k).any fun c => c.main.returned && carries s.lock k

theorem not_released_for_good {host : String} (h : releasedInPlace s k = true) :
    ¬ ReleasedForGood host s := by
  simp only [releasedInPlace, Option.any_eq_true, Bool.and_eq_true] at h
  obtain ⟨c, hk, hreturned, hcarries⟩ := h
  intro hgood
  rw [(hgood k c hk hreturned).1] at hcarries
  cases hcarries

/-- The lock of a live process that has released it is back at the path. -/
theorem refresh_overtaken : ∃ s,
    Run (Exec "host") (initial (fun _ => true) none none) overtakenTrace s ∧
      ¬ ReleasedForGood "host" s := by
  have hplay : ((play (exec "host") overtakenTrace (initial (fun _ => true) none none)).any
      fun s => releasedInPlace s tokenA) = true := by
    decide +kernel
  obtain ⟨s, hs, hback⟩ := (Option.any_eq_true _ _).mp hplay
  exact ⟨s, run_of_play (fun _ _ _ h => h) hs, not_released_for_good hback⟩

/-- The refresh ends before the release, and another process acquires after it. -/
def settledTrace : List Label :=
  started tokenA 1 5 ++ List.replicate 4 (.beat tokenA) ++
    .release tokenA :: List.replicate 3 (.advance tokenA false) ++ started tokenB 2 5

theorem released_for_good_settled : ∃ s c,
    Run (Exec "host") (initial (fun _ => true) none none) settledTrace s ∧
      s.calls tokenA = some c ∧ c.main.returned = true ∧ ReleasedForGood "host" s := by
  have hplay : ((play (exec "host") settledTrace (initial (fun _ => true) none none)).any
      fun s => (s.calls tokenA).any fun c => c.main.returned) = true := by
    decide +kernel
  obtain ⟨s, hs, hcall⟩ := (Option.any_eq_true _ _).mp hplay
  obtain ⟨c, hc, hreturned⟩ := (Option.any_eq_true _ _).mp hcall
  have hrun : Run (Exec "host") (initial (fun _ => true) none none) settledTrace s :=
    run_of_play (fun _ _ _ h => h) hs
  have hnone : Throughout (Exec "host") (initial (fun _ => true) none none) NoneInHand
      settledTrace :=
    throughout_of_allSteps (fun _ _ _ h => h)
      (by decide +kernel : allSteps (exec "host") noneInHand settledTrace _ = true)
  exact ⟨s, c, hrun, hc, hreturned, released_for_good_of_none_in_hand hrun hnone⟩

end AlysisCode.RunLock
