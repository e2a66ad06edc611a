/-
What is asked of a scavenge, and of the calls it makes.

A signal must reach only the process or the group of a record whose owner is gone, and a record
may go when its child, its group and its container are over.  What the calls must meet for that
is said call by call, of the world the call is made in.
-/
import AlysisCode.Terminal.Basic

namespace AlysisCode.Terminal

/-! ### Facts about the world -/

variable (host : Host) {pid : Int} (w : World) (r : Payload)

/-- A record that would be read back is stored under the name. -/
def Stored (name : String) (r : Payload) : Prop :=
  w.files.lookup name = some (.payload r) ∧ r.valid name = true

/-- Nobody has the number and the start. -/
def Gone (pid : Int) (token : String) : Prop :=
  ∀ p ∈ w.procs, p.ident.pid = pid → ¬p.ident.is token

/-- The process is the recorded child. -/
def IsChild (p : Proc) : Prop :=
  p.ident.pid = r.childPid ∧ p.ident.is r.childStartToken

/-- The process is in the recorded group; one with the child's number is led by the child. -/
def Member (p : Proc) : Prop :=
  r.posixPgid = some p.group.pid ∧ (p.group.pid = r.childPid → p.group.is r.childStartToken)

/-- No member of the recorded group is left. -/
def Deserted : Prop := ∀ p ∈ w.procs, ¬Member r p

def Uncontained : Prop :=
  ∀ id, r.cleanupId = some id → id ∉ w.containers

/-- The platform and the world at every tick, where a file is written once, and what a record
names does not come back. -/
structure Evolution extends Host where
  constant : ∀ m n name f f', (world m).files.lookup name = some f →
    (world n).files.lookup name = some f' → f = f'
  once : ∀ k m n name f f', k ≤ m → m ≤ n → (world k).files.lookup name = some f →
    (world n).files.lookup name = some f' → ((world m).files.lookup name).isSome
  ownerEnds : ∀ m k n name r, m ≤ k → k ≤ n → Stored (world m) name r →
    Gone (world k) r.ownerPid r.ownerStartToken → Gone (world n) r.ownerPid r.ownerStartToken
  childEnds : ∀ m k n name r, m ≤ k → k ≤ n → Stored (world m) name r →
    Gone (world k) r.childPid r.childStartToken → Gone (world n) r.childPid r.childStartToken
  groupEnds : ∀ m k n name r, m ≤ k → k ≤ n → Stored (world m) name r →
    r.posixPgid = some r.childPid → Deserted (world k) r → Deserted (world n) r

/-! ### What is asked of a scavenge -/

/-- A `SIGKILL` has been sent to the group of the process, and was permitted. -/
def Killed (events : List Event) (r : Payload) (p : Proc) : Prop :=
  ∃ n since, .signal n since r .group .kill ∈ events ∧ p ∈ (host.world n).procs ∧
    p.group.pid = r.childPid ∧ (host.world n).denied p = false

structure Over (host : Host) (events : List Event) (n : Nat) (r : Payload) : Prop where
  child : ∀ p ∈ (host.world n).procs, IsChild r p → Killed host events r p
  group : ∀ p ∈ (host.world n).procs, Member r p → Killed host events r p
  container : Uncontained (host.world n) r

/-- Whom a signal reaches. -/
def Aimed : Target → Prop
  | .process => ∀ p ∈ w.procs, p.ident.pid = r.childPid → IsChild r p
  | .group => ∀ p ∈ w.procs, p.group.pid = r.childPid → Member r p

/-- A signal goes to a stored record's child or group, when the owner is gone; a record that is
removed is over. -/
def Right (events : List Event) : Event → Prop
  | .signal n _ r target _ =>
    (∃ m name, m ≤ n ∧ Stored (host.world m) name r) ∧
      Gone (host.world n) r.ownerPid r.ownerStartToken ∧ Aimed (host.world n) r target
  | .unlink n name => ∀ r, Stored (host.world n) name r → Over host events n r
  | _ => True

/-! ### What the calls must meet -/

/-- A token that is read of the process is read where the recorded one was. -/
def SameSource (pid : Int) (token : String) : Prop :=
  ∀ p ∈ w.procs, p.ident.pid = pid → p.ident.is token →
    ∀ token', w.pidStartToken pid = some token' → token' = token

/-- Who has the child's number had it at `since`. -/
def Unmoved (since n : Nat) (r : Payload) : Prop :=
  ∀ p ∈ (host.world n).procs, p.ident.pid = r.childPid → p ∈ (host.world since).procs

/-- Who has the group's number is in the group that the child had at `since`. -/
def GroupUnmoved (since n : Nat) (r : Payload) : Prop :=
  ∀ p ∈ (host.world n).procs, p.group.pid = r.childPid →
    ∃ q ∈ (host.world since).procs, q.ident.pid = r.childPid ∧ q.group = p.group

/-- The child has not left its group. -/
def Stays : Prop :=
  ∀ p ∈ w.procs, IsChild r p → p.group.pid = r.childPid

/-- The recorded group is deserted, and stays so if it was not the child's. -/
def Abandoned (n : Nat) (r : Payload) : Prop :=
  Deserted (host.world n) r ∧
    (r.posixPgid ≠ some r.childPid → ∀ k, n ≤ k → Deserted (host.world k) r)

/-- What an inspection after which the record may go must meet. -/
def Settled (n : Nat) (r : Payload) (state : ProcessState) : Prop :=
  (state = .dead ∨ state = .reused → Abandoned host (n + 1) r) ∧
    (state = .reused → SameSource (host.world (n + 1)) r.childPid r.childStartToken ∧
      ∀ k, n < k → Uncontained (host.world k) r)

def Orderly : Event → Prop
  | .read n name => ∀ r, Stored (host.world n) name r → (host.world n).unreadable name = false
  | .inspect n .owner r state =>
    state = .reused → SameSource (host.world (n + 1)) r.ownerPid r.ownerStartToken
  | .inspect _ .recheck _ _ => True
  | .inspect n _ r state => Settled host n r state
  | .docker n id => ∀ k, n < k → id ∉ (host.world k).containers
  | .getpgid n since r =>
    Unmoved host since n r ∧ ((host.world n).holder r.childPid = none → Deserted (host.world n) r)
  | .signal n since r .process .term =>
    Unmoved host since n r ∧ ((host.world n).kill r.childPid ≠ .failed →
      Gone (host.world (n + 1)) r.childPid r.childStartToken ∧ Abandoned host (n + 1) r)
  | .signal n since r .process .kill => Unmoved host since n r
  | .signal n since r .group .term => GroupUnmoved host since n r ∧ Stays (host.world n) r
  | .signal n since r .group .kill =>
    GroupUnmoved host since n r ∧ ((host.world n).killpg r.childPid ≠ .failed →
      ∀ p ∈ (host.world (n + 1)).procs, IsChild r p ∨ Member r p →
        p ∈ (host.world n).procs ∧ p.group.pid = r.childPid ∧ (host.world n).denied p = false)
  | .poll n r => Stays (host.world n) r
  | .unlink _ _ => True

/-! ### Reading the world -/

variable {w : World}

theorem holder_eq_none : w.holder pid = none ↔ ∀ p ∈ w.procs, p.ident.pid ≠ pid := by
  simp [World.holder]

theorem holder_eq_some {p : Proc} : w.holder pid = some p ↔ p ∈ w.procs ∧ p.ident.pid = pid := by
  constructor
  · intro h
    exact ⟨List.mem_of_find?_eq_some h, by simpa using List.find?_some h⟩
  · rintro ⟨hp, hpid⟩
    cases h : w.holder pid with
    | none => exact absurd hpid (holder_eq_none.mp h p hp)
    | some q =>
      have hq := List.mem_of_find?_eq_some h
      have hqpid : q.ident.pid = pid := by simpa using List.find?_some h
      rw [List.inj_on_of_nodup_map w.nodup hq hp (hqpid.trans hpid.symm)]

variable {name token : String}

theorem is_of_pidStartToken (h : w.pidStartToken pid = some token) :
    ∀ p ∈ w.procs, p.ident.pid = pid → p.ident.is token := by
  intro p hp hpid
  unfold World.pidStartToken at h
  rw [holder_eq_some.mpr ⟨hp, hpid⟩] at h
  dsimp only at h
  split at h
  · exact .inl (Option.some.inj h).symm
  · split at h
    · exact .inr (Option.some.inj h).symm
    · cases h

theorem killpg_noProcess {pgid : Int} (h : w.killpg pgid = .noProcess) :
    ∀ p ∈ w.procs, p.group.pid ≠ pgid := by
  unfold World.killpg at h
  split at h
  · cases h
  · split at h
    · rename_i hempty
      intro p hp hpid
      have hmem : p ∈ w.members pgid := List.mem_filter.mpr ⟨hp, by simpa using hpid⟩
      rw [List.isEmpty_iff.mp hempty] at hmem
      cases hmem
    · split at h <;> cases h

theorem stored_of_readRecord {r : Payload} (h : w.readRecord name = some r) : Stored w name r := by
  unfold World.readRecord at h
  split at h
  · cases h
  · split at h
    · rename_i p hp
      split at h
      · rename_i hvalid
        cases h
        exact ⟨hp, hvalid⟩
      · cases h
    · cases h

theorem readRecord_of_stored {r : Payload} (h : Stored w name r)
    (hreadable : w.unreadable name = false) : w.readRecord name = some r := by
  unfold World.readRecord
  rw [if_neg (by simp [hreadable]), h.1]
  dsimp only
  rw [if_pos h.2]

/-- What an inspection says of the process it inspects. -/
theorem processState_cases (pid : Int) (token : String) (clock : Nat) :
    (processState host pid token clock = (.dead, clock + 1) ∧
        ∀ p ∈ (host.world clock).procs, p.ident.pid ≠ pid) ∨
      (processState host pid token clock = (.matching, clock + 2) ∧
        (host.world (clock + 1)).pidStartToken pid = some token) ∨
      (∃ token', processState host pid token clock = (.reused, clock + 2) ∧ token' ≠ token ∧
        (host.world (clock + 1)).pidStartToken pid = some token') ∨
      processState host pid token clock = (.unknown, clock + 2) := by
  unfold processState
  split
  · rename_i hexists
    left
    refine ⟨rfl, ?_⟩
    unfold World.pidExists at hexists
    split at hexists
    · cases hexists
    · have hnone : (host.world clock).holder pid = none := by simpa using hexists
      exact holder_eq_none.mp hnone
  · right
    split
    · rename_i token' htoken
      by_cases heq : token' = token
      · left
        rw [if_pos heq, htoken, heq]
        exact ⟨rfl, rfl⟩
      · right
        left
        exact ⟨token', by rw [if_neg heq], heq, htoken⟩
    · right
      right
      rfl

theorem gone_of_reused {token' : String} (hsource : SameSource w pid token)
    (htoken : w.pidStartToken pid = some token') (hne : token' ≠ token) : Gone w pid token := by
  intro p hp hpid his
  exact hne (hsource p hp hpid his token' htoken)

/-! ### Tracking -/

end AlysisCode.Terminal

/-! ### What the calls leave behind

What the calls of a scavenge leave behind.

Every function is followed from a state whose calls were right to the next one; what an inspection
has shown stays true until the record is removed, since nothing that a record names comes back.
-/

namespace AlysisCode.Terminal

variable {host : Host} {evo : Evolution} {r : Payload} {s : State}

/-! ### Calls and what they leave -/

/-- All calls so far are right. -/
def AllRight (host : Host) (s : State) : Prop := ∀ e ∈ s.events, Right host s.events e

def AllOrderly (host : Host) (s : State) : Prop := ∀ e ∈ s.events, Orderly host e

variable {events events' : List Event} {s' : State} {clock : Nat}

theorem Killed.mono {p : Proc} (h : Killed host events r p) (hsub : events ⊆ events') :
    Killed host events' r p := by
  obtain ⟨n, since, hmem, h⟩ := h
  exact ⟨n, since, hsub hmem, h⟩

theorem Over.mono {n : Nat} (h : Over host events n r) (hsub : events ⊆ events') :
    Over host events' n r where
  child p hp hchild := (h.child p hp hchild).mono hsub
  group p hp hmember := (h.group p hp hmember).mono hsub
  container := h.container

variable {clock' : Nat} {e : Event} {name : String} {state : ProcessState}

theorem Right.mono (h : Right host events e) (hsub : events ⊆ events') : Right host events' e := by
  cases e with
  | unlink n name => exact fun r hr => (h r hr).mono hsub
  | signal => exact h
  | read | inspect | docker | getpgid | poll => trivial

theorem AllRight.append (h : AllRight host s) (he : Right host (s.events ++ [e]) e) (clock : Nat) :
    AllRight host { clock := clock, events := s.events ++ [e] } := by
  intro e' he'
  rcases List.mem_append.mp he' with he' | he'
  · exact (h e' he').mono (List.subset_append_left _ _)
  · obtain rfl := List.mem_singleton.mp he'
    exact he

theorem AllRight.call (h : AllRight host s) (he : Right host (s.events ++ [e]) e) :
    AllRight host (s.call e) :=
  h.append he _

/-- The calls behind a state are its own and some more. -/
structure Later (s s' : State) : Prop where
  clock : s.clock ≤ s'.clock
  events : s.events ⊆ s'.events

theorem Later.refl (s : State) : Later s s := ⟨Nat.le_refl _, List.Subset.refl _⟩

theorem Later.trans {s s'' : State} (h : Later s s') (h' : Later s' s'') : Later s s'' :=
  ⟨h.clock.trans h'.clock, List.Subset.trans h.events h'.events⟩

theorem Later.call (s : State) (e : Event) : Later s (s.call e) :=
  ⟨Nat.le_succ _, List.subset_append_left _ _⟩

theorem mem_call (s : State) (e : Event) : e ∈ (s.call e).events :=
  List.mem_append_right _ (List.mem_singleton_self _)

theorem AllOrderly.before (h : AllOrderly host s') (hlater : Later s s') : AllOrderly host s :=
  fun e he => h e (hlater.events he)

theorem AllOrderly.of_call (h : AllOrderly host s') (hlater : Later (s.call e) s') :
    Orderly host e :=
  h e (hlater.events (mem_call s e))

/-! ### Inspections -/

theorem clock_lt_inspect (host : Host) (reason : Reason) (r : Payload) (s : State) :
    s.clock < (inspect host reason r s).2.clock := by
  show s.clock < (processState host (reason.pid r) (reason.token r) s.clock).2
  rcases processState_cases host (reason.pid r) (reason.token r) s.clock with
    ⟨h, -⟩ | ⟨h, -⟩ | ⟨_, h, -⟩ | h <;> rw [h] <;> simp

theorem later_inspect (host : Host) (reason : Reason) (r : Payload) (s : State) :
    Later s (inspect host reason r s).2 :=
  ⟨Nat.le_of_lt (clock_lt_inspect host reason r s), List.subset_append_left _ _⟩

theorem inspect_event (host : Host) (reason : Reason) (r : Payload) (s : State) :
    .inspect s.clock reason r (inspect host reason r s).1 ∈ (inspect host reason r s).2.events :=
  List.mem_append_right _ (List.mem_singleton_self _)

theorem AllRight.inspect (h : AllRight host s) (reason : Reason) (r : Payload) :
    AllRight host (inspect host reason r s).2 := by
  have hright : ∀ state events, Right host events (.inspect s.clock reason r state) :=
    fun _ _ => trivial
  exact h.append (hright _ _) _

/-- The record has been read, and its owner is gone for good. -/
structure Orphan (host : Host) (clock : Nat) (r : Payload) : Prop where
  stored : ∃ m name, m ≤ clock ∧ Stored (host.world m) name r
  owner : ∀ n, clock ≤ n → Gone (host.world n) r.ownerPid r.ownerStartToken

theorem Orphan.mono (h : Orphan host clock r) (hle : clock ≤ clock') : Orphan host clock' r := by
  obtain ⟨⟨m, name, hm, hstored⟩, howner⟩ := h
  exact ⟨⟨m, name, hm.trans hle, hstored⟩, fun n hn => howner n (hle.trans hn)⟩

theorem Orphan.right {n since : Nat} {target : Target} {sig : Sig} (h : Orphan host n r)
    (haimed : Aimed (host.world n) r target) :
    Right host events (.signal n since r target sig) :=
  ⟨h.stored, h.owner n (Nat.le_refl n), haimed⟩

theorem gone_of_processState {pid : Int} {token : String}
    (hstate : (processState host pid token clock).1 = .dead ∨
      (processState host pid token clock).1 = .reused)
    (hsource : (processState host pid token clock).1 = .reused →
      SameSource (host.world (clock + 1)) pid token) :
    clock + 1 ≤ (processState host pid token clock).2 ∧
      Gone (host.world ((processState host pid token clock).2 - 1)) pid token := by
  rcases processState_cases host pid token clock with
    ⟨heq, hnobody⟩ | ⟨heq, -⟩ | ⟨token', heq, hne, htoken⟩ | heq
  · rw [heq]
    exact ⟨Nat.le_refl _, fun p hp hpid => absurd hpid (hnobody p hp)⟩
  · rw [heq] at hstate
    rcases hstate with hstate | hstate <;> cases hstate
  · rw [heq] at hsource ⊢
    exact ⟨Nat.le_succ _, gone_of_reused (hsource rfl) htoken hne⟩
  · rw [heq] at hstate
    rcases hstate with hstate | hstate <;> cases hstate

/-- The child and the group of the record are gone from the clock on. -/
def Ended (host : Host) (clock : Nat) (r : Payload) : Prop :=
  ∀ n, clock ≤ n → Gone (host.world n) r.childPid r.childStartToken ∧ Deserted (host.world n) r

theorem Ended.mono (h : Ended host clock r) (hle : clock ≤ clock') : Ended host clock' r :=
  fun n hn => h n (hle.trans hn)

theorem Ended.over (h : Ended host clock r) (hcontainer : Uncontained (host.world clock) r)
    (events : List Event) :
    Over host events clock r where
  child p hp hchild := absurd hchild.2 ((h clock (Nat.le_refl _)).1 p hp hchild.1)
  group p hp hmember := absurd hmember ((h clock (Nat.le_refl _)).2 p hp)
  container := hcontainer

theorem ended_of_inspect {reason : Reason}
    (hreason : reason.pid r = r.childPid ∧ reason.token r = r.childStartToken)
    (horphan : Orphan evo.toHost s.clock r) (h : inspect evo.toHost reason r s = (state, s'))
    (hstate : state = .dead ∨ state = .reused) (hsettled : Settled evo.toHost s.clock r state) :
    Ended evo.toHost s'.clock r := by
  obtain ⟨m, name, hm, hstored⟩ := horphan.stored
  have habandoned := hsettled.1 hstate
  cases h
  have hgone := gone_of_processState hstate fun hreused => by
    rw [hreason.1, hreason.2]
    exact (hsettled.2 hreused).1
  rw [hreason.1, hreason.2] at hgone
  intro n hn
  dsimp only at hn
  rw [hreason.1, hreason.2] at hn
  constructor
  · exact evo.childEnds m _ n name r (by omega) (by omega) hstored hgone.2
  · by_cases hpgid : r.posixPgid = some r.childPid
    · exact evo.groupEnds m (s.clock + 1) n name r (by omega) (by omega) hstored hpgid habandoned.1
    · exact habandoned.2 hpgid n (by omega)

theorem orphan_of_owner {m : Nat} (hm : m ≤ s.clock) (hstored : Stored (evo.world m) name r)
    (h : inspect evo.toHost .owner r s = (state, s')) (hstate : state = .dead ∨ state = .reused)
    (horderly : Orderly evo.toHost (.inspect s.clock .owner r state)) :
    Orphan evo.toHost s'.clock r := by
  cases h
  obtain ⟨hclock, hgone⟩ := gone_of_processState hstate horderly
  have hm' : m ≤ (inspect evo.toHost .owner r s).2.clock :=
    hm.trans (later_inspect evo.toHost .owner r s).clock
  refine ⟨⟨m, name, hm', hstored⟩, fun n hn => ?_⟩
  dsimp only at hn
  exact evo.ownerEnds m _ n name r (by omega) (by omega) hstored hgone

theorem child_of_matching (h : inspect host .recheck r s = (.matching, s')) :
    s'.clock = s.clock + 2 ∧ ∀ p ∈ (host.world (s.clock + 1)).procs,
      p.ident.pid = r.childPid → IsChild r p := by
  have hseen : ProcessState.matching = (processState host r.childPid r.childStartToken s.clock).1 ∧
      s'.clock = (processState host r.childPid r.childStartToken s.clock).2 := by
    obtain ⟨h₁, rfl⟩ := Prod.mk.inj h
    exact ⟨h₁.symm, rfl⟩
  rcases processState_cases host r.childPid r.childStartToken s.clock with
    ⟨heq, -⟩ | ⟨heq, htoken⟩ | ⟨token', heq, -, -⟩ | heq
  · rw [heq] at hseen
    cases hseen.1
  · rw [heq] at hseen
    exact ⟨hseen.2, fun p hp hpid => ⟨hpid, is_of_pidStartToken htoken p hp hpid⟩⟩
  · rw [heq] at hseen
    cases hseen.1
  · rw [heq] at hseen
    cases hseen.1

/-! ### The container -/

theorem cleanup_of_stored {w : World} {id : String} (h : Stored w name r)
    (hid : r.cleanupId = some id) :
    ∃ kind, r.cleanupKind = some kind ∧ kind = "docker-container" ∧ validCleanupId id = true := by
  have hvalid := h.2
  unfold Payload.valid at hvalid
  simp only [Bool.and_eq_true] at hvalid
  have hcleanup := hvalid.2
  unfold validCleanup at hcleanup
  rw [hid] at hcleanup
  split at hcleanup
  · cases hcleanup
  · rename_i kind hkind
    rw [Bool.and_eq_true, decide_eq_true_iff, Option.any_some] at hcleanup
    exact ⟨kind, hkind, hcleanup.1, hcleanup.2⟩

theorem cleanup_cases (r : Payload) (s : State) : cleanupOwnedResource r s = s ∨
      ∃ id, r.cleanupId = some id ∧ cleanupOwnedResource r s = s.call (.docker s.clock id) := by
  unfold cleanupOwnedResource
  split
  · rename_i kind id _ hid
    split
    · exact .inr ⟨id, hid, rfl⟩
    · exact .inl rfl
  · exact .inl rfl

theorem later_cleanup (r : Payload) (s : State) : Later s (cleanupOwnedResource r s) := by
  rcases cleanup_cases r s with h | ⟨id, -, h⟩
  · rw [h]
    exact Later.refl s
  · rw [h]
    exact Later.call s _

theorem AllRight.cleanup (h : AllRight host s) (r : Payload) :
    AllRight host (cleanupOwnedResource r s) := by
  rcases cleanup_cases r s with heq | ⟨id, -, heq⟩
  · rw [heq]
    exact h
  · rw [heq]
    exact h.call trivial

theorem uncontained_of_cleanup {w : World} (hstored : Stored w name r)
    (horderly : AllOrderly host (cleanupOwnedResource r s)) :
    ∀ n, (cleanupOwnedResource r s).clock ≤ n → Uncontained (host.world n) r := by
  intro n hn id hid
  obtain ⟨kind, hkind, hdocker, hvalid⟩ := cleanup_of_stored hstored hid
  have hcall : cleanupOwnedResource r s = s.call (.docker s.clock id) := by
    unfold cleanupOwnedResource
    rw [hkind, hid]
    dsimp only
    rw [if_pos (by simp [hdocker, hvalid])]
  rw [hcall] at horderly hn
  exact horderly _ (mem_call s _) n hn

end AlysisCode.Terminal
