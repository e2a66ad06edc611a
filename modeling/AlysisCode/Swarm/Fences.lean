/-
What a worker's lease is good for.

A lease is checked against the row it names: state, generation, token digest and expiry.
Whatever ends a claim moves the row's generation, and generations never go back, so a
lease left behind names a generation the row will not have again.  The expiry is compared
with the reading of the call itself; nothing is assumed about successive readings.
-/
import AlysisCode.Swarm.Lifecycle

namespace AlysisCode.Swarm

open Table Runs

section Fences

variable {T J : Type} [Clock T] {codec : Codec J} {config : ResumableSwarmConfig}

def SwarmWorkerLease.resolved (me : Coordinator) (lease : SwarmWorkerLease T J) : JobKey :=
  me.key (strip lease.sessionId) (strip lease.jobId)

/-- Both tables are left as they are, and the worker is not told to go on. -/
def Refused (codec : Codec J) (config : ResumableSwarmConfig) (q : Store T) (call : Call T J) :
    Prop :=
  ∀ outcome q', Commit (exec codec config) q (call, outcome) q' →
    q' = q ∧ ∀ answer, outcome = .ok answer → answer.accepts = false

variable {answer : Answer T J} {call : Call T J} {lease : SwarmWorkerLease T J} {q : Store T}
  {key : JobKey} {me : Coordinator} {c : Option T} {r₀ : Row T}

theorem Change.leased {row row' : Row T} (h : Change codec q call answer row row')
    (hcall : call.presents = some (me, lease, c)) :
    ∃ now, readClock c = .ok now ∧ Leased codec q me lease now row := by
  cases h with
  | renewed hclock hlease | used hclock hlease =>
    obtain ⟨rfl, rfl, rfl⟩ : _ = me ∧ _ = lease ∧ _ = c := by simpa [Call.presents] using hcall
    exact ⟨_, hclock, hlease⟩
  | finished hcall' _ hclock hlease =>
    obtain ⟨rfl, rfl, rfl⟩ : _ = me ∧ _ = lease ∧ _ = c := by
      simpa using hcall'.symm.trans hcall
    exact ⟨_, hclock, hlease⟩
  | _ => cases hcall

theorem Effect.leased {q' : Store T} (h : Effect codec q q' call answer) {me : Coordinator}
    {c : Option T} (hcall : call.presents = some (me, lease, c)) :
    (∃ now row, readClock c = .ok now ∧ Leased codec q me lease now row) ∨
      (q' = q ∧ answer.accepts = false) := by
  cases h with
  | idle hsame _ hlease =>
    cases haccepts : answer.accepts with
    | true => exact .inl (hlease me lease c hcall haccepts)
    | false => exact .inr ⟨hsame, rfl⟩
  | changed _ _ hchange =>
    obtain ⟨now, hclock, hlease⟩ := hchange.leased hcall
    exact .inl ⟨now, _, hclock, hlease⟩
  | recovered | inserted => cases hcall

theorem refused_of_lease (hq : Clean q) (hcall : call.presents = some (me, lease, c))
    (hnot : ∀ now row, readClock c = .ok now → ¬ Leased codec q me lease now row) :
    Refused codec config q call := by
  intro outcome q' hstep
  cases hstep with
  | ok hexec =>
    rcases (exec_effect hq hexec).leased hcall with ⟨now, row, hclock, hlease⟩ | ⟨hsame, hno⟩
    · exact absurd hlease (hnot now row hclock)
    · refine ⟨hsame, ?_⟩
      intro answer' heq
      rw [← Except.ok.inj heq]
      exact hno
  | error _ => exact ⟨rfl, fun _ h => (nomatch h)⟩

/-! ### Generations do not go back -/

/-- The job's row is past generation `g`. -/
def Past (key : JobKey) (g : Nat) (q : Store T) : Prop :=
  ∀ r ∈ q.jobs, r.key = key → g < r.generation

theorem Effect.past {q' : Store T} (h : Effect codec q q' call answer) {g : Nat} (hr₀ : r₀ ∈ q.jobs)
    (hkey₀ : r₀.key = key) (hpast : Past key g q) :
    Past key g q' := by
  intro r' hr' hkey
  rcases h.from hr' with hmem | ⟨r, hmem, hchange⟩ | ⟨-, -, hnew⟩
  · exact hpast r' hmem hkey
  · have hmoves := change_moves hchange
    exact lt_of_lt_of_le (hpast r hmem (hmoves.key ▸ hkey)) hmoves.generation_le
  · exact absurd (hkey₀.trans hkey.symm) (hnew r₀ hr₀)

theorem past_of_run {g : Nat} {rest : List (Event T J)} {m : Store T} (hm : Clean m)
    (hr₀ : r₀ ∈ m.jobs) (hkey : r₀.key = key) (hpast : Past key g m)
    (h : Run (Commit (exec codec config)) m rest q) : Past key g q := by
  have hall : Clean q ∧ (∃ r ∈ q.jobs, r.key = key) ∧ Past key g q := by
    refine h.commit_invariant (I := fun q => Clean q ∧ (∃ r ∈ q.jobs, r.key = key) ∧ Past key g q)
      ⟨hm, ⟨r₀, hr₀, hkey⟩, hpast⟩ ?_
    rintro call s answer s' ⟨hclean, ⟨r, hr, hrkey⟩, hp⟩ hexec
    have heffect := exec_effect hclean hexec
    refine ⟨heffect.clean hclean, ?_, heffect.past hr hrkey hp⟩
    rcases heffect.kept hr with hr' | ⟨r', hr', hchange⟩
    · exact ⟨r, hr', hrkey⟩
    · exact ⟨r', hr', (change_moves hchange).key.trans hrkey⟩
  exact hall.2.2

/-! ### The guarantees -/

/-- What holds of the coordinator after a run, and of every further call. -/
structure Guarantees (codec : Codec J) (config : ResumableSwarmConfig) (trace : List (Event T J))
    (q : Store T) : Prop where
  /-- A lease is accepted only while its job runs under the latest claim, unexpired. -/
  accepted : ∀ call answer q' me lease c, exec codec config call q = .ok (answer, q') →
    Call.presents call = some (me, lease, c) → answer.accepts = true →
    ∃ row ∈ q.jobs, row.key = lease.resolved me ∧ row.state = .running ∧
      (∃ claim, latest (claimOf row.key) trace = some claim ∧ lease.generation = claim.generation ∧
        codec.sha256 lease.leaseToken = codec.sha256 claim.leaseToken) ∧
      ∃ now expiresAt, readClock c = .ok now ∧ row.leaseExpiresAt = some expiresAt ∧ now < expiresAt
  /-- Leases handed out so far are of the row's generation at most. -/
  issued : ∀ r ∈ q.jobs, ∀ e ∈ trace, ∀ lease, claimOf r.key e = some lease →
    lease.generation ≤ r.generation
  /-- After a cancellation, recovery, resumption or finish of a job, leases of the
  generation it had, or of earlier ones, are refused. -/
  fenced : ∀ first e rest m m' r r', trace = first ++ e :: rest → History codec config first m →
    Commit (exec codec config) m e m' → r ∈ m.jobs → r' ∈ m'.jobs → r'.key = r.key → r' ≠ r →
    Call.extends e.1 = false → ∀ call me lease c, Call.presents call = some (me, lease, c) →
    lease.resolved me = r.key → lease.generation ≤ r.generation → Refused codec config q call
  /-- `succeeded` and `cancelled` rows stay as they are. -/
  settled : ∀ e q', Commit (exec codec config) q e q' → ∀ r ∈ q.jobs, r.state.settled = true →
    r ∈ q'.jobs
  /-- A row that changes gets a later revision. -/
  revision : ∀ e q', Commit (exec codec config) q e q' → ∀ r ∈ q.jobs,
    r ∈ q'.jobs ∨ ∃ r' ∈ q'.jobs, r'.key = r.key ∧ r.revision < r'.revision
  /-- A job becomes queued by being started or by being resumed, with the fingerprint it was
  started with and a grant for the revision it has. -/
  requeued : ∀ e q', Commit (exec codec config) q e q' → ∀ r' ∈ q'.jobs, r'.state = .queued →
    r' ∈ q.jobs ∨ (Call.starts e.1 = true ∧ ∀ r ∈ q.jobs, r.key ≠ r'.key) ∨
      ∃ r ∈ q.jobs, r.key = r'.key ∧ ∃ me s j scope revision c,
        e.1 = .resumeJob me s j scope (.fields 1 (strip s) (strip j) r.revision) revision c ∧
        r.key = me.key (strip s) (strip j) ∧
        ∃ scope₀, latest (scopeOf r.key) trace = some scope₀ ∧
          codec.permissionFingerprint scope = codec.permissionFingerprint scope₀

end Fences

/-! ### A lease that is resumed over -/

def swarmConfig : ResumableSwarmConfig := {}

/-- JSON objects by their canonical text, with the digests of the texts used below. -/
def textCodec : Codec String where
  sha256 text :=
    if text = "k1" then "6ab9f1eb8f7d3388f4f9d586f66e99fd54080df2c446f0e58668b09c08a16dd0"
    else if text = "w1" then "60c5590f72eef292f9545afc28bf63ca91d2016a0a288f90f9a32f89d3fffcaf"
    else if text = "lease_token_00000000000000000001" then
      "0871d1e2b9a3524280a9ea4e0bdd059666ee0390ae1d17527537c5db3011003f"
    else if text = "lease_token_00000000000000000002" then
      "f745da8c8ee284a828888d18e1918159e543bffb428da9347001e47be96b1dc3"
    else "44136fa355b3678a1146ad16f7e8649e94fb4fc21fe77e8310c060f61caaff8a"
  serializeSpec text := .ok (text, text)
  serializeResult text := .ok (text, text)
  serializeScope text := .ok (text, text)
  decodeSpec := .ok
  publicText := .ok

def desk : Coordinator := ⟨"owner", "workspace"⟩

def firstLease : SwarmWorkerLease Nat String :=
  { jobId := "job_1", sessionId := "s1", generation := 1, expiresAt := 11,
    executionSpec := "\x7b\x7d", leaseToken := "lease_token_00000000000000000001" }

def resumingCalls : List (Call Nat String) :=
  [.startJob desk "s1" "k1" "\x7b\x7d" "\x7b\x7d" "job_1" (some 0),
    .claimJob desk "s1" "job_1" "w1" "\x7b\x7d" 10 "lease_token_00000000000000000001" (some 1),
    .resumeJob desk "s1" "job_1" "\x7b\x7d" (.fields 1 "s1" "job_1" 2) none (some 20),
    .claimJob desk "s1" "job_1" "w1" "\x7b\x7d" 10 "lease_token_00000000000000000002" (some 21),
    .complete desk firstLease "\x7b\x7d" (some 5)]

/-- Claimed until 11, resumed at 20 and claimed again; the first worker then completes with
a clock that reads 5. -/
def resuming := replay (exec textCodec swarmConfig) resumingCalls Store.empty

end AlysisCode.Swarm
