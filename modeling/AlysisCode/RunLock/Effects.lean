/-
What a step does to the lock file.

The caller's thread goes through two dozen places, but only six kinds of step matter to the
lock: it builds metadata, opens the lock file, writes to it, judges a lock stale, unlinks
the stale lock, and unlinks its own.  `Advance` is that list, and `advance_effect` says it
is complete; the proofs about locks are by cases on it.
-/
import AlysisCode.RunLock.Protocol

namespace AlysisCode.RunLock

/-! ### Phases -/

/-- How far the caller's thread is, as the lock file sees it. -/
inductive Phase
  | outside
  /-- About to open the lock file. -/
  | opening (m : Metadata)
  /-- Has opened the lock file and not written it. -/
  | writing (m : Metadata)
  /-- Has found the lock stale and is about to unlink it. -/
  | judged (m : Metadata)
  /-- Has its lock in place: from the write to the unlink of the first `release`. -/
  | tenured
  | released

def MainPc.phase : MainPc → Phase
  | .openLock m | .reopen m => .opening m
  | .writeLock m | .rewrite m => .writing m
  | .unlinkStale m => .judged m
  | .finallyRead (.ok _) | .finallyUnlink (.ok _) | .acquired | .held
  | .releaseRead false | .releaseUnlink false => .tenured
  | .releaseRead true | .releaseUnlink true | .releaseClaimRead | .releaseClaimUnlink
  | .released => .released
  | _ => .outside

/-- The call has put its lock in place. -/
def Phase.entered : Phase → Bool
  | .tenured | .released => true
  | _ => false

theorem phase_of_holds {pc : MainPc} (h : pc.holds = true) : pc.phase = .tenured := by
  unfold MainPc.holds at h
  split at h
  · rfl
  · rfl
  · rfl
  · cases h

theorem entered_of_guarded {pc : MainPc} (h : pc.guarded = true) : pc.phase.entered = true := by
  unfold MainPc.guarded at h
  split at h
  · rfl
  · rfl
  · rename_i again
    cases again
    · rfl
    · rfl
  · rename_i again
    cases again
    · rfl
    · rfl
  · rfl
  · rfl
  · rfl
  · cases h

/-! ### The steps of the caller's thread -/

/-- A move that neither touches the lock file nor decides to. -/
inductive Quiet : Phase → Phase → Prop
  | outside {p : Phase} (h : p.entered = false) : Quiet p .outside
  | tenured : Quiet .tenured .tenured
  | released {p : Phase} (h : p.entered = true) : Quiet p .released

/-- What a step of the caller's thread may do. -/
inductive Advance (host : String) (s : State) (k : OwnerToken) (c : Call) : State → Prop
  | quiet {pc : MainPc} {recovery : File} (h : Quiet c.main.phase pc.phase) :
      Advance host s k c ({ s with recovery := recovery }.put k { c with main := pc })
  | built {pc : MainPc} (h : pc.phase = .opening (buildMetadata host c.config k s.now))
      (hphase : c.main.phase = .outside) :
      Advance host s k c (s.put k { c with main := pc })
  | opened {pc : MainPc} {m : Metadata} (hphase : c.main.phase = .opening m)
      (hlock : s.lock = none) (h : pc.phase = .writing m) :
      Advance host s k c ({ s with lock := some (.blank k) }.put k { c with main := pc })
  | written {pc : MainPc} {m : Metadata} (hphase : c.main.phase = .writing m)
      (h : pc.phase = .tenured) :
      Advance host s k c ({ s with lock := writeOpened s.lock k m }.put k
        { c with main := pc, beatAt := m.lastHeartbeatAt.getD 0 })
  | judged {m : Metadata} (hphase : c.main.phase = .outside)
      (h : (s.assess host m).recoverable = true) :
      Advance host s k c (s.put k { c with main := .unlinkStale m })
  | recovered {m : Metadata} (h : c.main = .unlinkStale m) (hlock : s.lock ≠ none) :
      Advance host s k c ({ s with lock := none }.put k { c with main := .rebuild })
  | unlinked {again : Bool} (h : c.main = .releaseUnlink again) :
      Advance host s k c ({ s with lock := none }.put k { c with main := .releaseClaimRead })

theorem phase_resume (next : AfterClear) : next.resume.phase = .outside := by
  cases next
  · rfl
  · rfl

/-- The list is complete. -/
theorem advance_effect {host : String} {s s' : State} {k : OwnerToken} {c : Call} {patient : Bool}
    (h : advance host s k c patient = some s') : Advance host s k c s' := by
  have quiet : ∀ (pc : MainPc) (recovery : File), Quiet c.main.phase pc.phase →
      some ({ s with recovery := recovery }.put k { c with main := pc }) = some s' →
      Advance host s k c s' := by
    intro pc recovery hq heq
    cases heq
    exact .quiet hq
  have outside : ∀ (pc : MainPc) (recovery : File), c.main.phase.entered = false →
      pc.phase = .outside →
      some ({ s with recovery := recovery }.put k { c with main := pc }) = some s' →
      Advance host s k c s' := by
    intro pc recovery hp hpc heq
    exact quiet pc recovery (by rw [hpc]; exact .outside hp) heq
  have tenured : ∀ (pc : MainPc) (recovery : File), c.main.phase = .tenured → pc.phase = .tenured →
      some ({ s with recovery := recovery }.put k { c with main := pc }) = some s' →
      Advance host s k c s' := by
    intro pc recovery hp hpc heq
    exact quiet pc recovery (by rw [hp, hpc]; exact .tenured) heq
  unfold advance at h
  cases hmain : c.main with
  | clearRead next =>
    rw [hmain] at h outside
    dsimp only at h
    split at h
    · exact outside _ s.recovery rfl (phase_resume next) h
    · exact outside _ s.recovery rfl rfl h
  | clearAssess next claim =>
    rw [hmain] at h outside
    dsimp only at h
    split at h
    · exact outside _ s.recovery rfl rfl h
    · exact outside _ s.recovery rfl rfl h
  | clearUnlink next =>
    rw [hmain] at h outside
    exact outside _ none rfl (phase_resume next) h
  | build =>
    rw [hmain] at h
    cases h
    exact .built rfl (by rw [hmain]; rfl)
  | openLock m =>
    rw [hmain] at h outside
    dsimp only at h
    split at h
    · rename_i hlock
      cases h
      exact .opened (m := m) (by rw [hmain]; rfl) hlock rfl
    · exact outside _ s.recovery rfl rfl h
  | writeLock m =>
    rw [hmain] at h
    cases h
    exact .written (by rw [hmain]; rfl) rfl
  | readExisting =>
    rw [hmain] at h outside
    dsimp only at h
    split at h
    · exact outside _ s.recovery rfl rfl h
    · exact outside _ s.recovery rfl rfl h
  | assessExisting existing =>
    rw [hmain] at h outside
    dsimp only at h
    split at h
    · exact outside _ s.recovery rfl rfl h
    · split at h
      · exact outside _ s.recovery rfl rfl h
      · split at h
        · exact outside _ s.recovery rfl rfl h
        · exact outside _ s.recovery rfl rfl h
  | buildClaim existing kind =>
    rw [hmain] at h outside
    exact outside _ s.recovery rfl rfl h
  | openClaim existing kind claim =>
    rw [hmain] at h outside
    dsimp only at h
    split at h
    · exact outside _ (some (.blank k)) rfl rfl h
    · exact outside _ s.recovery rfl rfl h
  | writeClaim existing kind claim =>
    rw [hmain] at h outside
    dsimp only at h
    split at h
    · exact outside _ (writeOpened s.recovery k claim) rfl rfl h
    · exact outside _ (writeOpened s.recovery k claim) rfl rfl h
  | grace existing wakeAt =>
    rw [hmain] at h outside
    dsimp only at h
    split at h
    · exact outside _ s.recovery rfl rfl h
    · cases h
  | reread existing =>
    rw [hmain] at h outside
    dsimp only at h
    split at h
    · exact outside _ s.recovery rfl rfl h
    · split at h
      · exact outside _ s.recovery rfl rfl h
      · exact outside _ s.recovery rfl rfl h
  | reassess current =>
    rw [hmain] at h outside
    dsimp only at h
    split at h
    · rename_i hstale
      cases h
      exact .judged (by rw [hmain]; rfl) hstale
    · exact outside _ s.recovery rfl rfl h
  | unlinkStale current =>
    rw [hmain] at h outside
    dsimp only at h
    split at h
    · exact outside _ s.recovery rfl rfl h
    · rename_i hlock
      cases h
      exact .recovered hmain (by rw [hlock]; exact Option.some_ne_none _)
  | rebuild =>
    rw [hmain] at h
    cases h
    exact .built rfl (by rw [hmain]; rfl)
  | reopen m =>
    rw [hmain] at h outside
    dsimp only at h
    split at h
    · rename_i hlock
      cases h
      exact .opened (m := m) (by rw [hmain]; rfl) hlock rfl
    · exact outside _ s.recovery rfl rfl h
  | rewrite m =>
    rw [hmain] at h
    cases h
    exact .written (by rw [hmain]; rfl) rfl
  | finallyRead outcome =>
    rw [hmain] at h quiet tenured
    dsimp only at h
    cases outcome with
    | ok =>
      split at h
      · exact tenured _ s.recovery rfl rfl h
      · exact tenured _ s.recovery rfl rfl h
    | error =>
      split at h
      · exact quiet _ s.recovery (.outside rfl) h
      · exact quiet _ s.recovery (.outside rfl) h
  | finallyUnlink outcome =>
    rw [hmain] at h quiet tenured
    cases outcome with
    | ok => exact tenured _ none rfl rfl h
    | error => exact quiet _ none (.outside rfl) h
  | acquired =>
    rw [hmain] at h tenured
    exact tenured _ s.recovery rfl rfl h
  | releaseRead again =>
    rw [hmain] at h quiet tenured
    dsimp only at h
    cases again with
    | false =>
      split at h
      · exact tenured _ s.recovery rfl rfl h
      · exact quiet _ s.recovery (.released rfl) h
    | true =>
      split at h
      · exact quiet _ s.recovery (.released rfl) h
      · exact quiet _ s.recovery (.released rfl) h
  | releaseUnlink again =>
    rw [hmain] at h
    cases h
    exact .unlinked hmain
  | releaseClaimRead =>
    rw [hmain] at h quiet
    dsimp only at h
    split at h
    · exact quiet _ s.recovery (.released rfl) h
    · exact quiet _ s.recovery (.released rfl) h
  | releaseClaimUnlink =>
    rw [hmain] at h quiet
    exact quiet _ none (.released rfl) h
  | failed error | held | released =>
    rw [hmain] at h
    cases h

end AlysisCode.RunLock
