/-
What every call of the lock answers for.

Three kinds of step overwrite or remove the lock file: a refresh replaces it, a release
unlinks it, a recovery unlinks it.  Each acts on what its thread read some steps earlier,
and nothing makes the file wait.  `Undisturbed` says that at such a step the file is gone
or is still what was read.

`CallOk` is the invariant of the runs whose steps all meet that condition: a call whose
lock is in place either is named by the lock file or has let its heartbeat lapse.  The
recovery claim plays no part in it.
-/
import AlysisCode.RunLock.Effects

namespace AlysisCode.RunLock

/-! ### The condition -/

/-- If the call's next step unlinks the lock file, the file is gone or is the one it read:
its own lock for a release, the text it judged stale for a recovery. -/
def Call.unlinkUndisturbed (c : Call) (k : OwnerToken) (lock : File) : Bool :=
  match c.main with
  | .releaseUnlink _ => lock.isNone || carries lock k
  | .unlinkStale current => lock.isNone || lock == some (.metadata current)
  | _ => true

/-- If the heartbeat thread's next step replaces the lock file, the file is gone or is still
the guard's own. -/
def Call.replaceUndisturbed (c : Call) (k : OwnerToken) (lock : File) : Bool :=
  match c.beat with
  | .replacing _ => lock.isNone || carries lock k
  | _ => true

/-- The step neither overwrites nor removes a lock file that changed hands since the step's
thread read it. -/
def undisturbed (s : State) : Label → Bool
  | .advance k _ => (s.calls k).all fun c => c.unlinkUndisturbed k s.lock
  | .beat k => (s.calls k).all fun c => c.replaceUndisturbed k s.lock
  | _ => true

/-- The condition on the steps of a run. -/
def Undisturbed (_ : List Label) (s : State) (l : Label) : Prop :=
  undisturbed s l = true

/-! ### The invariant -/

/-- The metadata is what the call writes: its token, its process, its promise. -/
structure Own (k : OwnerToken) (c : Call) (m : Metadata) : Prop where
  owned : m.ownedBy k = true
  pid : m.pid = some c.config.pid
  ttl : m.heartbeatTtlS = some c.config.heartbeatTtlS
  beats : ∃ beat, m.lastHeartbeatAt = some beat

def Installed (lock : File) (k : OwnerToken) (c : Call) : Prop :=
  ∃ m, lock = some (.metadata m) ∧ Own k c m ∧ m.lastHeartbeatAt = some c.beatAt

/-- The metadata a heartbeat thread has in hand. -/
def BeatPc.draft : BeatPc → Option Metadata
  | .stamping m | .replacing m => some m
  | _ => none

structure CallOk (s : State) (k : OwnerToken) (c : Call) : Prop where
  opening : ∀ m, c.main.phase = .opening m → Own k c m
  writing : ∀ m, c.main.phase = .writing m → Own k c m ∧ s.lock = some (.blank k)
  judged : ∀ m, c.main.phase = .judged m → Gone s.isRunning s.now m
  /-- Its lock is in place, unless it has let its heartbeat lapse. -/
  tenured : c.main.phase = .tenured → s.alive c.config.pid = true →
    Installed s.lock k c ∨ c.lapsed s.now
  /-- A lock of the call's is one the call wrote. -/
  own : c.main.phase.entered = true → ∀ m, s.lock = some (.metadata m) → m.ownedBy k = true →
    Own k c m
  beating : c.beat ≠ .waiting → c.main.phase.entered = true
  draft : ∀ m, c.beat.draft = some m → Own k c m

/-- Every call is well. -/
def Sound (s : State) : Prop :=
  ∀ k c, s.calls k = some c → CallOk s k c

variable {j k : OwnerToken} {c : Call}

theorem own_buildMetadata {host : String} {now : Nat} :
    Own k c (buildMetadata host c.config k now) where
  owned := by simp [Metadata.ownedBy, buildMetadata]
  pid := rfl
  ttl := rfl
  beats := ⟨_, rfl⟩

variable {f : File} {d : Call} {m : Metadata}

theorem Own.congr (h : Own k c m) (hconfig : d.config = c.config) : Own k d m where
  owned := h.owned
  pid := by rw [hconfig]; exact h.pid
  ttl := by rw [hconfig]; exact h.ttl
  beats := h.beats

theorem carries_iff : carries f k = true ↔ ∃ m, f = some (.metadata m) ∧ m.ownedBy k = true := by
  unfold carries
  rw [Option.any_eq_true]
  simp only [loadMetadata_eq_some]

theorem Installed.unique {lock : File} (hj : Installed lock j c) (hk : Installed lock k d) :
    j = k := by
  obtain ⟨m, hm, hown, -⟩ := hj
  obtain ⟨m', hm', hown', -⟩ := hk
  obtain rfl : m = m' := by simpa using hm.symm.trans hm'
  exact Metadata.ownedBy_unique hown.owned hown'.owned

/-! ### What a step of one call does to the others -/

/-- How a step of the call `k` may change the lock file, under the condition. -/
inductive LockChange (s : State) (k : OwnerToken) : File → Prop
  | kept : LockChange s k s.lock
  | opened (h : s.lock = none) : LockChange s k (some (.blank k))
  | written {m : Metadata} (h : s.lock = some (.blank k)) (hm : m.ownedBy k = true) :
      LockChange s k (some (.metadata m))
  | replaced {m : Metadata} (h : s.lock = none ∨ carries s.lock k = true)
      (hm : m.ownedBy k = true) : LockChange s k (some (.metadata m))
  | released (h : s.lock = none ∨ carries s.lock k = true) : LockChange s k none
  | recovered {m : Metadata} (h : s.lock = some (.metadata m)) (hm : Gone s.isRunning s.now m) :
      LockChange s k none

theorem lapsed_of_gone {s : State} (hgone : Gone s.isRunning s.now m) (hown : Own k c m)
    (hbeat : m.lastHeartbeatAt = some c.beatAt) (halive : s.alive c.config.pid = true) :
    c.lapsed s.now := by
  rcases hgone with ⟨pid, hpid, hrun⟩ | ⟨ttl, beat, httl, hat, hlt⟩
  · obtain rfl : pid = c.config.pid := by simpa using hpid.symm.trans hown.pid
    simp [State.isRunning, halive] at hrun
  · obtain rfl : ttl = c.config.heartbeatTtlS := by simpa using httl.symm.trans hown.ttl
    obtain rfl : beat = c.beatAt := by simpa using hat.symm.trans hbeat
    exact hlt

theorem not_installed_of_free (hne : j ≠ k) (h : f = none ∨ carries f k = true) :
    ¬ Installed f j d := by
  rintro ⟨m, hm, hown, -⟩
  rcases h with h | h
  · rw [hm] at h
    cases h
  · obtain ⟨m', hm', hk⟩ := carries_iff.mp h
    obtain rfl : m = m' := by simpa using hm.symm.trans hm'
    exact hne (Metadata.ownedBy_unique hown.owned hk)

theorem not_blank_of_free (h : f = none ∨ carries f k = true) : f ≠ some (.blank j) := by
  rintro rfl
  rcases h with h | h
  · cases h
  · obtain ⟨m, hm, -⟩ := carries_iff.mp h
    cases hm

section Change

variable {s : State} {j k : OwnerToken} {f : File}

theorem LockChange.blank (h : LockChange s k f) (hne : j ≠ k) (hj : s.lock = some (.blank j)) :
    f = some (.blank j) := by
  cases h with
  | kept => exact hj
  | opened hnone =>
    rw [hj] at hnone
    cases hnone
  | written hblank =>
    rw [hj] at hblank
    cases hblank
    exact absurd rfl hne
  | replaced hfree | released hfree => exact absurd hj (not_blank_of_free hfree)
  | recovered hm =>
    rw [hj] at hm
    cases hm

variable {d : Call}

theorem LockChange.installed (h : LockChange s k f) (hne : j ≠ k)
    (halive : s.alive d.config.pid = true) (hj : Installed s.lock j d) :
    Installed f j d ∨ d.lapsed s.now := by
  cases h with
  | kept => exact Or.inl hj
  | opened hnone => exact absurd hj (not_installed_of_free hne (Or.inl hnone))
  | written hblank =>
    obtain ⟨m, hm, -⟩ := hj
    rw [hblank] at hm
    cases hm
  | replaced hfree | released hfree => exact absurd hj (not_installed_of_free hne hfree)
  | recovered hm hgone =>
    obtain ⟨m', hm', hown, hbeat⟩ := hj
    rw [hm] at hm'
    cases hm'
    exact Or.inr (lapsed_of_gone hgone hown hbeat halive)

variable {m : Metadata}

theorem LockChange.metadata (h : LockChange s k f) (hne : j ≠ k)
    (hf : f = some (.metadata m)) (hm : m.ownedBy j = true) : s.lock = some (.metadata m) := by
  cases h with
  | kept => exact hf
  | opened => cases hf
  | written _ hown | replaced _ hown =>
    cases hf
    exact absurd (Metadata.ownedBy_unique hm hown) hne
  | released | recovered => cases hf

end Change

theorem CallOk.other {s s' : State} {j k : OwnerToken} (h : CallOk s j d)
    (hne : j ≠ k) (hchange : LockChange s k s'.lock) (hnow : s'.now = s.now)
    (halive : s'.alive = s.alive) : CallOk s' j d := by
  have hrun : s'.isRunning = s.isRunning := by
    unfold State.isRunning
    rw [halive]
  refine ⟨h.opening, ?_, ?_, ?_, ?_, h.beating, h.draft⟩
  · intro m hm
    obtain ⟨hown, hblank⟩ := h.writing m hm
    exact ⟨hown, hchange.blank hne hblank⟩
  · rw [hrun, hnow]
    exact h.judged
  · rw [halive, hnow]
    intro hphase hpid
    rcases h.tenured hphase hpid with hj | hj
    · exact hchange.installed hne hpid hj
    · exact Or.inr hj
  · intro hphase m hlock hm
    exact h.own hphase m (hchange.metadata hne hlock hm) hm

/-! ### What a step does to the call that takes it -/

/-- After a step of the call `k`: its record is `c`, it is well, and the lock file changed
in one of the ways it may. -/
structure Stepped (s : State) (k : OwnerToken) (s' : State) : Prop where
  now : s'.now = s.now
  alive : s'.alive = s.alive
  lock : LockChange s k s'.lock
  calls : ∃ c, s'.calls = Function.update s.calls k (some c) ∧ CallOk s' k c

theorem Stepped.sound {s s' : State} (h : Stepped s k s') (hs : Sound s) : Sound s' := by
  intro j d hj
  obtain ⟨c, hcalls, hc⟩ := h.calls
  rw [hcalls] at hj
  by_cases hjk : j = k
  · subst hjk
    rw [Function.update_self] at hj
    cases hj
    exact hc
  · rw [Function.update_of_ne hjk] at hj
    exact (hs j d hj).other hjk h.lock h.now h.alive

section Steps

variable {host : String} {s s' : State} {k : OwnerToken} {c : Call}

theorem CallOk.before (hphase : c.main.phase.entered = false) (hbeat : c.beat = .waiting)
    (hopening : ∀ m, c.main.phase = .opening m → Own k c m)
    (hwriting : ∀ m, c.main.phase = .writing m → Own k c m ∧ s.lock = some (.blank k))
    (hjudged : ∀ m, c.main.phase = .judged m → Gone s.isRunning s.now m) : CallOk s k c where
  opening := hopening
  writing := hwriting
  judged := hjudged
  tenured := by
    intro hten
    rw [hten] at hphase
    cases hphase
  own := by
    intro hin
    rw [hphase] at hin
    cases hin
  beating := fun h => absurd hbeat h
  draft := by
    intro m hm
    rw [hbeat] at hm
    cases hm

theorem CallOk.idle (hphase : c.main.phase = .outside) (hbeat : c.beat = .waiting) :
    CallOk s k c := by
  refine .before (by rw [hphase]; rfl) hbeat ?_ ?_ ?_
  all_goals
    intro m hm
    rw [hphase] at hm
    cases hm

theorem CallOk.beat_waiting (h : CallOk s k c) (hphase : c.main.phase.entered = false) :
    c.beat = .waiting := by
  by_contra hbeat
  rw [h.beating hbeat] at hphase
  cases hphase

theorem CallOk.onward (h : CallOk s k c) (hconfig : d.config = c.config)
    (hbeat : d.beat = c.beat) (hold : c.main.phase.entered = true)
    (hnew : d.main.phase.entered = true)
    (hlock : ∀ m, s'.lock = some (.metadata m) → s.lock = some (.metadata m))
    (htenured : d.main.phase = .tenured → s'.alive d.config.pid = true →
      Installed s'.lock k d ∨ d.lapsed s'.now) : CallOk s' k d where
  opening := by
    intro m hm
    rw [hm] at hnew
    cases hnew
  writing := by
    intro m hm
    rw [hm] at hnew
    cases hnew
  judged := by
    intro m hm
    rw [hm] at hnew
    cases hnew
  tenured := htenured
  own := by
    intro _ m hm hown
    exact (h.own hold m (hlock m hm) hown).congr hconfig
  beating := fun _ => hnew
  draft := by
    intro m hm
    rw [hbeat] at hm
    exact (h.draft m hm).congr hconfig

theorem CallOk.rebeat {b : BeatPc} (h : CallOk s k c)
    (hbeating : b ≠ .waiting → c.main.phase.entered = true)
    (hdraft : ∀ m, b.draft = some m → Own k c m) :
    CallOk (s.put k { c with beat := b }) k { c with beat := b } where
  opening := fun m hm => (h.opening m hm).congr rfl
  writing := fun m hm => ⟨(h.writing m hm).1.congr rfl, (h.writing m hm).2⟩
  judged := h.judged
  tenured := by
    intro hphase halive
    rcases h.tenured hphase halive with ⟨m, hm, hown, hat⟩ | hlapsed
    · exact Or.inl ⟨m, hm, hown.congr rfl, hat⟩
    · exact Or.inr hlapsed
  own := fun hphase m hm hown => (h.own hphase m hm hown).congr rfl
  beating := hbeating
  draft := fun m hm => (hdraft m hm).congr rfl

theorem Installed.congr {lock : File} (h : Installed lock k c)
    (hconfig : d.config = c.config) (hat : d.beatAt = c.beatAt) : Installed lock k d := by
  obtain ⟨m, hm, hown, hbeat⟩ := h
  exact ⟨m, hm, hown.congr hconfig, by rw [hat]; exact hbeat⟩

theorem CallOk.refreshed (h : CallOk s k c) (hin : c.main.phase.entered = true)
    (hown : Own k c m) (hat : m.lastHeartbeatAt = some (m.lastHeartbeatAt.getD 0)) :
    CallOk ({ s with lock := some (.metadata m) }.put k
        { c with beat := .waiting, beatAt := m.lastHeartbeatAt.getD 0 }) k
      { c with beat := .waiting, beatAt := m.lastHeartbeatAt.getD 0 } where
  opening := fun m' hm => (h.opening m' hm).congr rfl
  writing := by
    intro m' hm
    have hphase : c.main.phase = .writing m' := hm
    rw [hphase] at hin
    cases hin
  judged := h.judged
  tenured := fun _ _ => Or.inl ⟨m, rfl, hown.congr rfl, hat⟩
  own := by
    intro _ m' hm' _
    cases hm'
    exact hown.congr rfl
  beating := fun hne => absurd rfl hne
  draft := by
    intro m' hm
    cases hm

theorem CallOk.entering (hphase : c.main.phase = .tenured)
    (hbeat : c.beat = .waiting) (hlock : s.lock = some (.metadata m)) (hown : Own k c m)
    (hat : m.lastHeartbeatAt = some c.beatAt) : CallOk s k c where
  opening := by
    intro m' hm
    rw [hphase] at hm
    cases hm
  writing := by
    intro m' hm
    rw [hphase] at hm
    cases hm
  judged := by
    intro m' hm
    rw [hphase] at hm
    cases hm
  tenured := fun _ _ => Or.inl ⟨m, hlock, hown, hat⟩
  own := by
    intro _ m' hm' _
    rw [hlock] at hm'
    cases hm'
    exact hown
  beating := fun h => absurd hbeat h
  draft := by
    intro m' hm
    rw [hbeat] at hm
    cases hm

/-- A step of the caller's thread, under the condition. -/
theorem Advance.stepped (h : Advance host s k c s') (hok : CallOk s k c)
    (hu : c.unlinkUndisturbed k s.lock = true) : Stepped s k s' := by
  cases h with
  | @quiet pc recovery hquiet =>
    refine ⟨rfl, rfl, .kept, _, rfl, ?_⟩
    generalize hold : c.main.phase = p at hquiet
    generalize hnew : pc.phase = q at hquiet
    cases hquiet with
    | outside hp => exact .idle hnew (hok.beat_waiting (by rw [hold]; exact hp))
    | tenured =>
      refine hok.onward rfl rfl (by rw [hold]; rfl) (by rw [hnew]; rfl) (fun _ hm => hm) ?_
      intro _ halive
      rcases hok.tenured hold halive with hin | hlapsed
      · exact Or.inl (hin.congr rfl rfl)
      · exact Or.inr hlapsed
    | released hp =>
      refine hok.onward rfl rfl (by rw [hold]; exact hp) (by rw [hnew]; rfl) (fun _ hm => hm) ?_
      intro hten
      rw [hnew] at hten
      cases hten
  | @built pc hpc hphase =>
    refine ⟨rfl, rfl, .kept, _, rfl, ?_⟩
    have hwait := hok.beat_waiting (by rw [hphase]; rfl)
    refine .before (by show pc.phase.entered = false; rw [hpc]; rfl) hwait ?_ ?_ ?_
    · intro m hm
      obtain rfl : buildMetadata host c.config k s.now = m := by simpa using hpc.symm.trans hm
      exact own_buildMetadata.congr rfl
    · intro m hm
      cases hpc.symm.trans hm
    · intro m hm
      cases hpc.symm.trans hm
  | @opened pc m hphase hlock hpc =>
    refine ⟨rfl, rfl, .opened hlock, _, rfl, ?_⟩
    have hwait := hok.beat_waiting (by rw [hphase]; rfl)
    refine .before (by show pc.phase.entered = false; rw [hpc]; rfl) hwait ?_ ?_ ?_
    · intro m' hm
      cases hpc.symm.trans hm
    · intro m' hm
      obtain rfl : m = m' := by simpa using hpc.symm.trans hm
      exact ⟨(hok.opening m hphase).congr rfl, rfl⟩
    · intro m' hm
      cases hpc.symm.trans hm
  | @written pc m hphase hpc =>
    obtain ⟨hown, hblank⟩ := hok.writing m hphase
    obtain ⟨beat, hat⟩ := hown.beats
    have hlock : writeOpened s.lock k m = some (.metadata m) := if_pos hblank
    have hwait := hok.beat_waiting (by rw [hphase]; rfl)
    rw [hlock]
    refine ⟨rfl, rfl, .written hblank hown.owned, _, rfl, ?_⟩
    exact .entering hpc hwait rfl (hown.congr rfl) (by rw [hat]; rfl)
  | @judged m hphase hstale =>
    refine ⟨rfl, rfl, .kept, _, rfl, ?_⟩
    have hwait := hok.beat_waiting (by rw [hphase]; rfl)
    refine .before rfl hwait ?_ ?_ ?_
    · intro m' hm
      cases hm
    · intro m' hm
      cases hm
    · intro m' hm
      cases hm
      exact gone_of_recoverable hstale
  | @recovered m hmain hlock =>
    have hphase : c.main.phase = .judged m := by rw [hmain]; rfl
    have hsame : s.lock = some (.metadata m) := by
      simp only [Call.unlinkUndisturbed, hmain, Bool.or_eq_true, Option.isNone_iff_eq_none,
        beq_iff_eq] at hu
      exact hu.resolve_left hlock
    refine ⟨rfl, rfl, .recovered hsame (hok.judged m hphase), _, rfl, ?_⟩
    exact .idle rfl (hok.beat_waiting (by rw [hphase]; rfl))
  | @unlinked again hmain =>
    have hold : c.main.phase.entered = true := by
      rw [hmain]
      cases again
      · rfl
      · rfl
    simp only [Call.unlinkUndisturbed, hmain, Bool.or_eq_true, Option.isNone_iff_eq_none] at hu
    refine ⟨rfl, rfl, .released hu, _, rfl, ?_⟩
    refine hok.onward rfl rfl hold rfl ?_ ?_
    · intro m hm
      cases hm
    · intro hten
      cases hten

theorem release_stepped (h : release s k c = some s') (hok : CallOk s k c) : Stepped s k s' := by
  unfold release at h
  split at h
  · rename_i hmain
    have hphase : c.main.phase = .tenured := by rw [hmain]; rfl
    cases h
    refine ⟨rfl, rfl, .kept, _, rfl, ?_⟩
    refine hok.onward rfl rfl (by rw [hphase]; rfl) rfl (fun _ hm => hm) ?_
    intro _ halive
    rcases hok.tenured hphase halive with hin | hlapsed
    · exact Or.inl (hin.congr rfl rfl)
    · exact Or.inr hlapsed
  · rename_i hmain
    cases h
    refine ⟨rfl, rfl, .kept, _, rfl, ?_⟩
    refine hok.onward rfl rfl (by rw [hmain]; rfl) rfl (fun _ hm => hm) ?_
    intro hten
    cases hten
  · cases h

theorem CallOk.rebeat_stepped {b : BeatPc} (hok : CallOk s k c)
    (hbeating : b ≠ .waiting → c.main.phase.entered = true)
    (hdraft : ∀ m, b.draft = some m → Own k c m) : Stepped s k (s.put k { c with beat := b }) :=
  ⟨rfl, rfl, .kept, _, rfl, hok.rebeat hbeating hdraft⟩

theorem CallOk.rest_stepped (hok : CallOk s k c) :
    Stepped s k (s.put k { c with beat := .waiting }) := by
  refine hok.rebeat_stepped (fun h => absurd rfl h) ?_
  intro m hm
  cases hm

/-- A step of the heartbeat thread, under the condition. -/
theorem beat_stepped (h : beat s k c = some s') (hok : CallOk s k c)
    (hu : c.replaceUndisturbed k s.lock = true) : Stepped s k s' := by
  unfold beat at h
  split at h
  · split at h
    · rename_i hguard
      cases h
      refine hok.rebeat_stepped (fun _ => entered_of_guarded hguard.1) ?_
      intro m hm
      cases hm
    · cases h
  · rename_i hbeat
    have hin : c.main.phase.entered = true := hok.beating (by rw [hbeat]; simp)
    split at h
    · cases h
      exact hok.rest_stepped
    · rename_i current hload
      split at h
      · rename_i howned
        cases h
        refine hok.rebeat_stepped (fun _ => hin) ?_
        intro m hm
        cases hm
        exact hok.own hin _ (loadMetadata_eq_some.mp hload) howned
      · cases h
        exact hok.rest_stepped
  · rename_i current hbeat
    have hown : Own k c current := hok.draft current (by rw [hbeat]; rfl)
    cases h
    refine hok.rebeat_stepped (fun _ => hok.beating (by rw [hbeat]; simp)) ?_
    intro m hm
    cases hm
    exact ⟨hown.owned, hown.pid, hown.ttl, _, rfl⟩
  · rename_i current hbeat
    have hown : Own k c current := hok.draft current (by rw [hbeat]; rfl)
    have hin : c.main.phase.entered = true := hok.beating (by rw [hbeat]; simp)
    simp only [Call.replaceUndisturbed, hbeat, Bool.or_eq_true, Option.isNone_iff_eq_none] at hu
    obtain ⟨beat, hat⟩ := hown.beats
    cases h
    refine ⟨rfl, rfl, .replaced hu hown.owned, _, rfl, ?_⟩
    exact hok.refreshed hin hown (by rw [hat]; rfl)

end Steps

end AlysisCode.RunLock
