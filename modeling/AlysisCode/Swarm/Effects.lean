/-
The effect of a successful call on the coordinator's tables.

A call that succeeds leaves the rows alone, changes one row, expires the stale rows of a
coordinator, or inserts one.  `Change` lists what can become of a row, with the checks
that were passed; `exec_effect` is the inversion every later proof starts from.

As in the request ledger, a lease names its job as the caller spells it, and the
statements after the check use that spelling: stored names are stripped (`Clean`), so a
padded lease can renew without effect and can do nothing else.
-/
import AlysisCode.Swarm.Basic

namespace AlysisCode.Swarm

open Table Runs

variable {T J : Type}

/-- A public call, with the coordinator it is made on, the clock reading it takes and the
identifiers it draws. -/
inductive Call (T J : Type) where
  | startJob (me : Coordinator) (sessionId idempotencyKey : String) (spec scope : J)
      (freshId : String) (clock : Option T)
  | claimJob (me : Coordinator) (sessionId jobId workerId : String) (scope : J)
      (leaseSeconds : T) (freshToken : String) (clock : Option T)
  | renew (me : Coordinator) (lease : SwarmWorkerLease T J) (leaseSeconds : T) (clock : Option T)
  | recordUsage (me : Coordinator) (lease : SwarmWorkerLease T J) (usage : SwarmUsage)
      (idempotencyKey : String) (clock : Option T)
  | complete (me : Coordinator) (lease : SwarmWorkerLease T J) (result : J) (clock : Option T)
  | interrupt (me : Coordinator) (lease : SwarmWorkerLease T J) (errorCode errorSummary : String)
      (clock : Option T)
  | fail (me : Coordinator) (lease : SwarmWorkerLease T J) (errorCode errorSummary : String)
      (clock : Option T)
  | cancelJob (me : Coordinator) (sessionId jobId : String) (expectedRevision : Option Int)
      (clock : Option T)
  | recoverStaleJobs (me : Coordinator) (sessionId : Option String) (clock : Option T)
  | resumeJob (me : Coordinator) (sessionId jobId : String) (scope : J) (grant : Grant)
      (expectedRevision : Option Int) (clock : Option T)
  | shouldCancel (me : Coordinator) (lease : SwarmWorkerLease T J) (clock : Option T)
  | getStatus (me : Coordinator) (sessionId jobId : String)

/-- What a call answers. -/
inductive Answer (T J : Type) where
  | started (creation : SwarmJobCreation T)
  | claimed (lease : SwarmWorkerLease T J)
  | renewed (lease : SwarmWorkerLease T J)
  | used (status : SwarmJobStatus T)
  | completed (result : SwarmJobResult T J)
  | finished (status : SwarmJobStatus T)
  | cancelled (status : SwarmJobStatus T)
  | recovered (statuses : List (SwarmJobStatus T))
  | resumed (status : SwarmJobStatus T)
  | shouldCancel (value : Bool)
  | status (status : SwarmJobStatus T)

/-- A call and how it ended. -/
abbrev Event (T J : Type) := Call T J × Except ResumableSwarmError (Answer T J)

def Call.presents : Call T J → Option (Coordinator × SwarmWorkerLease T J × Option T)
  | .renew me lease _ c | .recordUsage me lease _ _ c | .complete me lease _ c
  | .interrupt me lease _ _ c | .fail me lease _ _ c | .shouldCancel me lease c =>
    some (me, lease, c)
  | _ => none

/-- The answer lets the worker go on: any but `should_cancel`'s `True`. -/
def Answer.accepts : Answer T J → Bool
  | .shouldCancel value => !value
  | _ => true

/-- The answer reports neither a new job nor a new lease. -/
def Answer.quiet : Answer T J → Bool
  | .started creation => !creation.created
  | .claimed _ => false
  | _ => true

variable {α : Type} {events : List (UsageEvent T)} {wrap : α → Answer T J} {q' : Store T}

def tag (wrap : α → Answer T J) (r : Except ResumableSwarmError (α × Store T)) :
    Except ResumableSwarmError (Answer T J × Store T) := do
  let (a, q') ← r
  .ok (wrap a, q')

/-- A read answers and leaves the tables. -/
def reading (wrap : α → Answer T J) (q : Store T) (r : Except ResumableSwarmError α) :
    Except ResumableSwarmError (Answer T J × Store T) := do
  let a ← r
  .ok (wrap a, q)

variable {jobs : List (Row T)} {answer : Answer T J} {key : JobKey} {me : Coordinator}

theorem tag_ok {r : Except ResumableSwarmError (α × Store T)} (h : tag wrap r = .ok (answer, q')) :
    ∃ a, answer = wrap a ∧ r = .ok (a, q') := by
  obtain ⟨⟨a, q₁⟩, hr, h⟩ := bind_eq_ok.mp h
  obtain ⟨rfl, rfl⟩ : wrap a = answer ∧ q₁ = q' := by simpa using h
  exact ⟨a, rfl, hr⟩

variable {q : Store T}

theorem reading_ok {r : Except ResumableSwarmError α} (h : reading wrap q r = .ok (answer, q')) :
    ∃ a, answer = wrap a ∧ r = .ok a ∧ q' = q := by
  obtain ⟨a, hr, h⟩ := bind_eq_ok.mp h
  obtain ⟨rfl, rfl⟩ : wrap a = answer ∧ q = q' := by simpa using h
  exact ⟨a, rfl, hr, rfl⟩

section Exec

variable [Clock T] (codec : Codec J) (config : ResumableSwarmConfig)

def exec (call : Call T J) (q : Store T) : Except ResumableSwarmError (Answer T J × Store T) :=
  match call with
  | .startJob me s k spec scope i c => tag .started (startJob codec config me s k spec scope i c q)
  | .claimJob me s j w scope d t c => tag .claimed (claimJob codec me s j w scope d t c q)
  | .renew me l d c => tag .renewed (renew codec me l d c q)
  | .recordUsage me l u k c => tag .used (recordUsage codec me l u k c q)
  | .complete me l r c => tag .completed (complete codec me l r c q)
  | .interrupt me l e t c => tag .finished (interrupt codec me l e t c q)
  | .fail me l e t c => tag .finished (fail codec me l e t c q)
  | .cancelJob me s j r c => tag .cancelled (cancelJob codec me s j r c q)
  | .recoverStaleJobs me s c => tag .recovered (recoverStaleJobs codec me s c q)
  | .resumeJob me s j scope g r c => tag .resumed (resumeJob codec me s j scope g r c q)
  | .shouldCancel me l c => reading .shouldCancel q (shouldCancel codec me l c q)
  | .getStatus me s j => reading .status q (getStatus codec me s j q)

end Exec

/-! ### Looking rows up -/

theorem Store.eq_of_key (q : Store T) {a b : Row T} (ha : a ∈ q.jobs) (hb : b ∈ q.jobs)
    (h : a.key = b.key) : a = b :=
  List.inj_on_of_nodup_map q.constraints.key_unique ha hb h

theorem Store.eq_of_tables (hjobs : q'.jobs = q.jobs) (hevents : q'.events = q.events) :
    q' = q := by
  cases q
  cases q'
  subst hjobs hevents
  rfl

theorem jobRow_ok {row : Row T} (h : q.jobRow key = .ok row) : row ∈ q.jobs ∧ row.key = key := by
  unfold Store.jobRow at h
  split at h
  · cases h
  · rename_i r hfind
    cases h
    exact ⟨List.mem_of_find?_eq_some hfind, by simpa using List.find?_some hfind⟩

theorem write_some (h : Store.write jobs events = some q) : q.jobs = jobs ∧ q.events = events := by
  unfold Store.write at h
  split at h
  · cases h
    exact ⟨rfl, rfl⟩
  · cases h

theorem execute_ok (h : Store.execute jobs events = .ok q) : q.jobs = jobs ∧ q.events = events := by
  unfold Store.execute at h
  split at h
  · rename_i q' hw
    cases h
    exact write_some hw
  · cases h

/-! ### Stored job names -/

/-- Stored session and job names are their own stripped forms. -/
def Clean (q : Store T) : Prop :=
  ∀ r ∈ q.jobs, strip r.key.sessionId = r.key.sessionId ∧ strip r.key.jobId = r.key.jobId

theorem identifier_ok {value kind v : String} {n : Nat} (h : identifier value kind n = .ok v) :
    v = strip value ∧ strip v = v := by
  obtain ⟨hnot, h⟩ := guard_eq_ok.mp h
  have hv : strip value = v := by simpa using h
  simp only [Bool.not_eq_true, Bool.or_eq_false_iff, Bool.not_eq_false'] at hnot
  exact ⟨hv.symm, hv ▸ strip_of_matches hnot.1.2⟩

theorem jobScope_ok {s j : String} (h : jobScope me s j = .ok key) :
    key = me.key (strip s) (strip j) := by
  obtain ⟨s', hs, h⟩ := bind_eq_ok.mp h
  obtain ⟨j', hj, h⟩ := bind_eq_ok.mp h
  rw [Except.ok.injEq] at h
  rw [← h, (identifier_ok hs).1, (identifier_ok hj).1]

theorem Clean.named (hq : Clean q) {r : Row T} (hr : r ∈ q.jobs) {lease : SwarmWorkerLease T J}
    (h : r.key = lease.named me) :
    r.key = me.key (strip lease.sessionId) (strip lease.jobId) := by
  obtain ⟨hs, hj⟩ := hq r hr
  rw [h] at hs hj
  rw [h]
  show me.key lease.sessionId lease.jobId = _
  rw [show strip lease.sessionId = lease.sessionId from hs,
    show strip lease.jobId = lease.jobId from hj]

/-! ### The checks, read backwards -/

section Effects

variable [Clock T] {codec : Codec J} {config : ResumableSwarmConfig}

/-- The checks of `_require_live_lease`, passed. -/
structure Leased (codec : Codec J) (q : Store T) (me : Coordinator)
    (lease : SwarmWorkerLease T J) (now : T) (row : Row T) : Prop where
  mem : row ∈ q.jobs
  key : row.key = me.key (strip lease.sessionId) (strip lease.jobId)
  running : row.state = .running
  generation : row.generation = lease.generation
  token : row.leaseTokenSha256 = some (codec.sha256 lease.leaseToken)
  live : ∃ expiresAt, row.leaseExpiresAt = some expiresAt ∧ now < expiresAt

variable {lease : SwarmWorkerLease T J} {me : Coordinator} {q q' : Store T} {row : Row T}
  {st : SwarmJobStatus T} {answer : Answer T J} {f : Row T → Row T} {c : Option T} {s : String}
  {call : Call T J} {j : String} {now : T} {scope : J} {r : Option Int}

theorem requireLiveLease_ok (h : requireLiveLease codec me lease now q = .ok row) :
    Leased codec q me lease now row := by
  obtain ⟨key, hkey, h⟩ := bind_eq_ok.mp h
  obtain ⟨r, hr, h⟩ := bind_eq_ok.mp h
  obtain ⟨hnot, h⟩ := guard_eq_ok.mp h
  cases h
  obtain ⟨hmem, hrkey⟩ := jobRow_ok hr
  simp only [not_or, not_not, Bool.not_eq_true] at hnot
  obtain ⟨hrun, hgen, hsome, hexp, htok⟩ := hnot
  refine ⟨hmem, hrkey.trans (jobScope_ok hkey), hrun, hgen, htok, ?_⟩
  obtain ⟨e, he⟩ := Option.ne_none_iff_exists'.mp hsome
  refine ⟨e, he, ?_⟩
  simpa [Row.expiredBy, he] using hexp

theorem Leased.row_named {r : Row T} (h : Leased codec q me lease now row) (hq : Clean q)
    (hr : r ∈ q.jobs) (hname : r.key = lease.named me) : r = row :=
  q.eq_of_key hr h.mem ((hq.named hr hname).trans h.key.symm)

/-! ### What can become of a row -/

inductive Change (codec : Codec J) (q : Store T) :
    Call T J → Answer T J → Row T → Row T → Prop
  | claimed {me : Coordinator} {s j w token worker : String} {scope spec : J} {d now : T}
      {c : Option T} {row : Row T} (hclock : readClock c = .ok now)
      (hkey : row.key = me.key (strip s) (strip j)) (hqueued : row.state = .queued)
      (hscope : codec.permissionFingerprint scope = .ok row.permissionScopeSha256) :
      Change codec q (.claimJob me s j w scope d token c)
        (.claimed { jobId := strip j, sessionId := strip s, generation := row.generation + 1,
                    expiresAt := now + d, executionSpec := spec, leaseToken := token })
        row (row.claim (codec.sha256 token) worker (now + d) now)
  | renewed {me : Coordinator} {lease lease' : SwarmWorkerLease T J} {d now : T} {c : Option T}
      {row : Row T} (hclock : readClock c = .ok now) (hlease : Leased codec q me lease now row) :
      Change codec q (.renew me lease d c) (.renewed lease') row (row.renew (now + d) now)
  | used {me : Coordinator} {lease : SwarmWorkerLease T J} {u usage : SwarmUsage} {k : String}
      {now : T} {c : Option T} {row : Row T} {status : SwarmJobStatus T}
      (hclock : readClock c = .ok now) (hlease : Leased codec q me lease now row) :
      Change codec q (.recordUsage me lease u k c) (.used status) row (row.use usage now)
  | finished {call : Call T J} {answer : Answer T J} {me : Coordinator}
      {lease : SwarmWorkerLease T J} {now : T} {c : Option T} {row : Row T}
      {state : SwarmJobState} {result code summary : Option String}
      (hcall : call.presents = some (me, lease, c)) (hanswer : answer.quiet = true)
      (hclock : readClock c = .ok now) (hlease : Leased codec q me lease now row)
      (hstate : state = .succeeded ∨ state = .interrupted ∨ state = .failed) :
      Change codec q call answer row (row.finish state result code summary now)
  | cancelled {me : Coordinator} {s j : String} {r : Option Int} {now : T} {c : Option T}
      {row : Row T} {status : SwarmJobStatus T} (hkey : row.key = me.key (strip s) (strip j))
      (hlive : row.state.terminal = false) :
      Change codec q (.cancelJob me s j r c) (.cancelled status) row (row.cancel now)
  | expired {me : Coordinator} {s session : Option String} {now : T} {c : Option T} {row : Row T}
      {statuses : List (SwarmJobStatus T)} (hclock : readClock c = .ok now)
      (hstale : row.stale me session now = true) :
      Change codec q (.recoverStaleJobs me s c) (.recovered statuses) row (row.expire now)
  | resumed {me : Coordinator} {s j : String} {scope : J} {r : Option Int} {now : T}
      {c : Option T} {row row₁ : Row T} {status : SwarmJobStatus T}
      (hclock : readClock c = .ok now) (hkey : row.key = me.key (strip s) (strip j))
      (hrow₁ : row₁ = row ∨ (row.state = .running ∧ row.expiredBy now = true ∧
        row₁ = row.expire now))
      (hstate : row₁.state = .interrupted ∨ row₁.state = .failed)
      (hscope : codec.permissionFingerprint scope = .ok row.permissionScopeSha256) :
      Change codec q (.resumeJob me s j scope (.fields 1 (strip s) (strip j) row.revision) r c)
        (.resumed status) row (row₁.requeue now)

/-- A call's effect on the tables. -/
inductive Effect (codec : Codec J) (q q' : Store T) : Call T J → Answer T J → Prop
  | idle {call : Call T J} {answer : Answer T J} (h : q' = q) (hquiet : answer.quiet = true)
      (hlease : ∀ me lease c, call.presents = some (me, lease, c) → answer.accepts = true →
        ∃ now row, readClock c = .ok now ∧ Leased codec q me lease now row) :
      Effect codec q q' call answer
  | changed {call : Call T J} {answer : Answer T J} {row : Row T} {f : Row T → Row T}
      (hrow : row ∈ q.jobs) (hjobs : q'.jobs = updateWhere (·.key == row.key) f q.jobs)
      (hchange : Change codec q call answer row (f row)) : Effect codec q q' call answer
  | recovered {me : Coordinator} {s session : Option String} {now : T} {c : Option T}
      {statuses : List (SwarmJobStatus T)} (hclock : readClock c = .ok now)
      (hjobs : q'.jobs = updateWhere (Row.stale me session now) (Row.expire now) q.jobs) :
      Effect codec q q' (.recoverStaleJobs me s c) (.recovered statuses)
  | inserted {me : Coordinator} {s k i idem specJson specSha permission : String} {spec scope : J}
      {now : T} {c : Option T} {status : SwarmJobStatus T}
      (hscope : codec.permissionFingerprint scope = .ok permission)
      (hid : status.jobId = strip i) (hclean : strip (strip s) = strip s ∧ strip (strip i) = strip i)
      (hjobs : q'.jobs = q.jobs ++
        [newRow (me.key (strip s) (strip i)) idem specJson specSha permission now]) :
      Effect codec q q' (.startJob me s k spec scope i c) (.started ⟨status, true⟩)

/-! ### Each operation's effect -/

theorem status_jobId (h : status codec row = .ok st) : st.jobId = strip row.key.jobId := by
  obtain ⟨jobId, hid, h⟩ := bind_eq_ok.mp h
  obtain ⟨-, h⟩ := guard_eq_ok.mp h
  obtain ⟨code, -, h⟩ := bind_eq_ok.mp h
  obtain ⟨summary, -, h⟩ := bind_eq_ok.mp h
  obtain ⟨-, h⟩ := guard_eq_ok.mp h
  obtain ⟨-, h⟩ := guard_eq_ok.mp h
  obtain ⟨-, h⟩ := guard_eq_ok.mp h
  rw [Except.ok.injEq] at h
  rw [← h]
  cases hx : identifier row.key.jobId "stored job" 128 with
  | error e =>
    rw [hx] at hid
    cases hid
  | ok v =>
    rw [hx] at hid
    obtain rfl : v = jobId := by simpa [Except.mapError] using hid
    exact (identifier_ok hx).1

theorem changed_of_update (hrow : row ∈ q.jobs) (h : q.updateJob row.key f = .ok q')
    (hchange : Change codec q call answer row (f row)) :
    Effect codec q q' call answer :=
  .changed hrow (execute_ok h).1 hchange

theorem update_named (hq : Clean q) (hlease : Leased codec q me lease now row)
    (h : q.updateJob (lease.named me) f = .ok q') :
    (row.key = lease.named me ∧ q.updateJob row.key f = .ok q') ∨ q' = q := by
  by_cases hname : row.key = lease.named me
  · exact .inl ⟨hname, by rw [hname]; exact h⟩
  · have hnone : ∀ r ∈ q.jobs, ¬ (r.key == lease.named me) = true := by
      intro r hr hkey
      rw [beq_iff_eq] at hkey
      exact hname (hlease.row_named hq hr hkey ▸ hkey)
    obtain ⟨hjobs, hevents⟩ := execute_ok h
    rw [updateWhere_of_none hnone] at hjobs
    exact .inr (Store.eq_of_tables hjobs hevents)

theorem leased_named {r : Row T} (hq : Clean q) (hlease : Leased codec q me lease now row)
    (hf : ∀ r, (f r).key = r.key) (hjobs : q'.jobs = updateWhere (·.key == lease.named me) f q.jobs)
    (h : q'.jobRow (lease.named me) = .ok r) : row.key = lease.named me := by
  obtain ⟨hmem, hkey⟩ := jobRow_ok h
  rw [hjobs] at hmem
  rcases of_mem_updateWhere hmem with ⟨hr, -⟩ | ⟨a, ha, -, rfl⟩
  · exact hlease.row_named hq hr hkey ▸ hkey
  · rw [hf] at hkey
    exact hlease.row_named hq ha hkey ▸ hkey

theorem startJob_effect {k i : String} {spec : J} {creation : SwarmJobCreation T}
    (h : startJob codec config me s k spec scope i c q = .ok (creation, q')) :
    Effect codec q q' (.startJob me s k spec scope i c) (.started creation) := by
  obtain ⟨s', hs, h⟩ := bind_eq_ok.mp h
  obtain ⟨k', -, h⟩ := bind_eq_ok.mp h
  obtain ⟨⟨specJson, specObject⟩, -, h⟩ := bind_eq_ok.mp h
  obtain ⟨permission, hscope, h⟩ := bind_eq_ok.mp h
  obtain ⟨now, -, h⟩ := bind_eq_ok.mp h
  simp only at h
  split at h
  · obtain ⟨-, h⟩ := guard_eq_ok.mp h
    obtain ⟨st, -, h⟩ := bind_eq_ok.mp h
    obtain ⟨rfl, rfl⟩ : _ = creation ∧ q = q' := by simpa using h
    refine .idle rfl rfl ?_
    intro me lease c hcall
    cases hcall
  · obtain ⟨-, h⟩ := guard_eq_ok.mp h
    obtain ⟨i', hi, h⟩ := bind_eq_ok.mp h
    split at h
    · cases h
    · rename_i q₁ hwrite
      obtain ⟨st, hst, h⟩ := bind_eq_ok.mp h
      obtain ⟨rfl, rfl⟩ : _ = creation ∧ q₁ = q' := by simpa using h
      obtain ⟨rfl, hsclean⟩ := identifier_ok hs
      obtain ⟨rfl, hiclean⟩ := identifier_ok hi
      exact .inserted hscope ((status_jobId hst).trans hiclean) ⟨hsclean, hiclean⟩
        (write_some hwrite).1

theorem claimJob_effect {w t : String} {d : T}
    (h : claimJob codec me s j w scope d t c q = .ok (lease, q')) :
    Effect codec q q' (.claimJob me s j w scope d t c) (.claimed lease) := by
  obtain ⟨key, hkey, h⟩ := bind_eq_ok.mp h
  obtain ⟨worker, -, h⟩ := bind_eq_ok.mp h
  obtain ⟨duration, hd, h⟩ := bind_eq_ok.mp h
  obtain ⟨permission, hscope, h⟩ := bind_eq_ok.mp h
  obtain ⟨now, hclock, h⟩ := bind_eq_ok.mp h
  obtain ⟨token, ht, h⟩ := bind_eq_ok.mp h
  obtain ⟨row, hrow, h⟩ := bind_eq_ok.mp h
  obtain ⟨u, hperm, h⟩ := bind_eq_ok.mp h
  obtain ⟨hqueued, h⟩ := guard_eq_ok.mp h
  obtain ⟨q₁, hq₁, h⟩ := bind_eq_ok.mp h
  obtain ⟨spec, -, h⟩ := bind_eq_ok.mp h
  obtain ⟨rfl, rfl⟩ : _ = lease ∧ q₁ = q' := by simpa using h
  obtain ⟨hmem, hrkey⟩ := jobRow_ok hrow
  obtain rfl : d = duration := by
    unfold durationOf at hd
    split at hd
    · exact Except.ok.inj hd
    · cases hd
  obtain rfl : t = token := Except.ok.inj (guard_eq_ok.mp ht).2
  obtain rfl := not_not.mp (guard_eq_ok.mp hperm).1
  obtain rfl := jobScope_ok hkey
  rw [← hrkey] at hq₁
  exact changed_of_update hmem hq₁ (.claimed hclock hrkey (not_not.mp hqueued) hscope)

theorem renew_effect {renewed : SwarmWorkerLease T J} {d : T} (hq : Clean q)
    (h : renew codec me lease d c q = .ok (renewed, q')) :
    Effect codec q q' (.renew me lease d c) (.renewed renewed) := by
  obtain ⟨duration, hd, h⟩ := bind_eq_ok.mp h
  obtain ⟨now, hclock, h⟩ := bind_eq_ok.mp h
  obtain ⟨row, hrow, h⟩ := bind_eq_ok.mp h
  obtain ⟨q₁, hq₁, h⟩ := bind_eq_ok.mp h
  obtain ⟨spec, -, h⟩ := bind_eq_ok.mp h
  obtain ⟨rfl, rfl⟩ : _ = renewed ∧ q₁ = q' := by simpa using h
  obtain rfl : d = duration := by
    unfold durationOf at hd
    split at hd
    · exact Except.ok.inj hd
    · cases hd
  have hlease := requireLiveLease_ok hrow
  rcases update_named hq hlease hq₁ with ⟨-, hupdate⟩ | hsame
  · exact changed_of_update hlease.mem hupdate (.renewed hclock hlease)
  · refine .idle hsame rfl ?_
    intro me' lease' c' hcall _
    obtain ⟨rfl, rfl, rfl⟩ : me = me' ∧ lease = lease' ∧ c = c' := by
      simpa [Call.presents] using hcall
    exact ⟨now, row, hclock, hlease⟩

theorem recordUsage_effect {u : SwarmUsage} {k : String} (hq : Clean q)
    (h : recordUsage codec me lease u k c q = .ok (st, q')) :
    Effect codec q q' (.recordUsage me lease u k c) (.used st) := by
  obtain ⟨delta, -, h⟩ := bind_eq_ok.mp h
  obtain ⟨event, -, h⟩ := bind_eq_ok.mp h
  obtain ⟨now, hclock, h⟩ := bind_eq_ok.mp h
  obtain ⟨row, hrow, h⟩ := bind_eq_ok.mp h
  have hlease := requireLiveLease_ok hrow
  split at h
  · obtain ⟨-, h⟩ := guard_eq_ok.mp h
    obtain ⟨st', -, h⟩ := bind_eq_ok.mp h
    obtain ⟨rfl, rfl⟩ : st' = st ∧ q = q' := by simpa using h
    refine .idle rfl rfl ?_
    intro me' lease' c' hcall _
    obtain ⟨rfl, rfl, rfl⟩ : me = me' ∧ lease = lease' ∧ c = c' := by
      simpa [Call.presents] using hcall
    exact ⟨now, row, hclock, hlease⟩
  · simp only [bind_eq_ok] at h
    obtain ⟨combined, -, q₁, hq₁, q₂, hq₂, r, hr, st', -, h⟩ := h
    obtain ⟨rfl, rfl⟩ : st' = st ∧ q₂ = q' := by simpa using h
    have hjobs := (execute_ok hq₂).1
    rw [(execute_ok hq₁).1] at hjobs
    have hname := leased_named (f := Row.use combined now) hq hlease (fun _ => rfl) hjobs hr
    rw [← hname] at hjobs
    exact .changed hlease.mem hjobs (.used hclock hlease)

theorem finish_effect {state : SwarmJobState} {result code summary : Option String} (hq : Clean q)
    (hcall : call.presents = some (me, lease, c)) (hanswer : answer.quiet = true)
    (hstate : state = .succeeded ∨ state = .interrupted ∨ state = .failed)
    (h : finish codec me lease state result code summary c q = .ok (st, q')) :
    Effect codec q q' call answer := by
  obtain ⟨now, hclock, h⟩ := bind_eq_ok.mp h
  obtain ⟨row, hrow, h⟩ := bind_eq_ok.mp h
  obtain ⟨q₁, hq₁, h⟩ := bind_eq_ok.mp h
  obtain ⟨r, hr, h⟩ := bind_eq_ok.mp h
  obtain ⟨st', -, h⟩ := bind_eq_ok.mp h
  obtain ⟨rfl, rfl⟩ : st' = st ∧ q₁ = q' := by simpa using h
  have hlease := requireLiveLease_ok hrow
  have hjobs := (execute_ok hq₁).1
  have hname := leased_named (f := Row.finish state result code summary now) hq hlease
    (fun _ => rfl) hjobs hr
  rw [← hname] at hjobs
  exact .changed hlease.mem hjobs (.finished hcall hanswer hclock hlease hstate)

theorem cancelJob_effect (h : cancelJob codec me s j r c q = .ok (st, q')) :
    Effect codec q q' (.cancelJob me s j r c : Call T J) (.cancelled st) := by
  obtain ⟨key, hkey, h⟩ := bind_eq_ok.mp h
  obtain ⟨revision, -, h⟩ := bind_eq_ok.mp h
  obtain ⟨now, -, h⟩ := bind_eq_ok.mp h
  obtain ⟨row, hrow, h⟩ := bind_eq_ok.mp h
  obtain ⟨u, -, h⟩ := bind_eq_ok.mp h
  obtain ⟨hmem, hrkey⟩ := jobRow_ok hrow
  by_cases hdone : row.state = .cancelled
  · rw [if_pos hdone] at h
    obtain ⟨st', -, h⟩ := bind_eq_ok.mp h
    obtain ⟨rfl, rfl⟩ : st' = st ∧ q = q' := by simpa using h
    refine .idle rfl rfl ?_
    intro me lease c hcall
    cases hcall
  · rw [if_neg hdone] at h
    obtain ⟨hlive, h⟩ := guard_eq_ok.mp h
    simp only [bind_eq_ok] at h
    obtain ⟨q₁, hq₁, r', -, st', -, h⟩ := h
    obtain ⟨rfl, rfl⟩ : st' = st ∧ q₁ = q' := by simpa using h
    have hterm : row.state.terminal = false := by
      cases hstate : row.state <;> simp_all [SwarmJobState.terminal]
    rw [← hrkey] at hq₁
    exact changed_of_update hmem hq₁ (.cancelled (hrkey.trans (jobScope_ok hkey)) hterm)

theorem recoverStaleJobs_effect {s : Option String} {sts : List (SwarmJobStatus T)}
    (h : recoverStaleJobs codec me s c q = .ok (sts, q')) :
    Effect codec q q' (.recoverStaleJobs me s c : Call T J) (.recovered sts) := by
  obtain ⟨session, -, h⟩ := bind_eq_ok.mp h
  obtain ⟨now, hclock, h⟩ := bind_eq_ok.mp h
  obtain ⟨q₁, hq₁, h⟩ := bind_eq_ok.mp h
  obtain ⟨sts', -, h⟩ := bind_eq_ok.mp h
  obtain ⟨rfl, rfl⟩ : sts' = sts ∧ q₁ = q' := by simpa using h
  exact .recovered hclock (execute_ok hq₁).1

/-- An expired row is interrupted first, in the same transaction. -/
theorem resumeJob_change {g : Grant} (h : resumeJob codec me s j scope g r c q = .ok (st, q')) :
    ∃ row f, row ∈ q.jobs ∧ q'.jobs = updateWhere (·.key == row.key) f q.jobs ∧
      Change codec q (.resumeJob me s j scope g r c) (.resumed st) row (f row) := by
  obtain ⟨key, hkey, h⟩ := bind_eq_ok.mp h
  obtain ⟨revision, -, h⟩ := bind_eq_ok.mp h
  obtain ⟨permission, hscope, h⟩ := bind_eq_ok.mp h
  obtain ⟨now, hclock, h⟩ := bind_eq_ok.mp h
  obtain ⟨row, hrow, h⟩ := bind_eq_ok.mp h
  obtain ⟨u, -, h⟩ := bind_eq_ok.mp h
  obtain ⟨u', hgrant, h⟩ := bind_eq_ok.mp h
  obtain ⟨q₁, hq₁, h⟩ := bind_eq_ok.mp h
  obtain ⟨row₁, hrow₁, h⟩ := bind_eq_ok.mp h
  obtain ⟨u'', hperm, h⟩ := bind_eq_ok.mp h
  obtain ⟨hstate, h⟩ := guard_eq_ok.mp h
  simp only [bind_eq_ok] at h
  obtain ⟨q₂, hq₂, row₂, -, st', -, h⟩ := h
  obtain ⟨rfl, rfl⟩ : st' = st ∧ q₂ = q' := by simpa using h
  obtain ⟨hmem, hrkey⟩ := jobRow_ok hrow
  obtain ⟨hmem₁, hrkey₁⟩ := jobRow_ok hrow₁
  obtain rfl := not_not.mp (guard_eq_ok.mp hgrant).1
  obtain rfl := not_not.mp (guard_eq_ok.mp hperm).1
  have hstate₁ : row₁.state = .interrupted ∨ row₁.state = .failed := by
    by_contra hnot
    exact hstate (not_or.mp hnot)
  have hjobs₂ := (execute_ok hq₂).1
  rw [← hrkey] at hjobs₂
  have hk := hrkey.trans (jobScope_ok hkey)
  rw [jobScope_ok hkey]
  unfold Store.interruptExpired at hq₁
  by_cases hexp : row.state = .running ∧ row.expiredBy now = true
  · rw [if_pos hexp] at hq₁
    have hjobs₁ := (execute_ok hq₁).1
    rw [← hrkey] at hjobs₁
    have hrow₁ : row₁ = row.expire now :=
      q₁.eq_of_key hmem₁ (hjobs₁ ▸ mem_updateWhere_of_pos hmem (beq_self_eq_true _))
        (hrkey₁.trans hrkey.symm)
    have hpermission : row₁.permissionScopeSha256 = row.permissionScopeSha256 := by
      rw [hrow₁]
      rfl
    rw [hjobs₁, updateWhere_updateWhere (f := Row.expire now) fun _ => rfl] at hjobs₂
    rw [hpermission] at hscope
    have hresumed : Change codec q (.resumeJob me s j scope (.fields 1 (strip s) (strip j)
        row.revision) r c) (.resumed st') row ((row.expire now).requeue now) :=
      .resumed hclock hk (.inr ⟨hexp.1, hexp.2, rfl⟩) (hrow₁ ▸ hstate₁) hscope
    exact ⟨row, _, hmem, hjobs₂, hresumed⟩
  · rw [if_neg hexp] at hq₁
    obtain rfl : q = q₁ := Except.ok.inj hq₁
    obtain rfl := q.eq_of_key hmem₁ hmem (hrkey₁.trans hrkey.symm)
    exact ⟨_, _, hmem, hjobs₂, .resumed hclock hk (.inl rfl) hstate₁ hscope⟩

theorem resumeJob_effect {g : Grant} (h : resumeJob codec me s j scope g r c q = .ok (st, q')) :
    Effect codec q q' (.resumeJob me s j scope g r c) (.resumed st) := by
  obtain ⟨row, f, hrow, hjobs, hchange⟩ := resumeJob_change h
  exact .changed hrow hjobs hchange

theorem shouldCancel_effect {value : Bool} (h : shouldCancel codec me lease c q = .ok value) :
    Effect codec q q (.shouldCancel me lease c) (.shouldCancel value) := by
  refine .idle rfl rfl ?_
  intro me' lease' c' hcall haccepts
  obtain ⟨rfl, rfl, rfl⟩ : me = me' ∧ lease = lease' ∧ c = c' := by
    simpa [Call.presents] using hcall
  obtain ⟨now, hclock, h⟩ := bind_eq_ok.mp h
  cases hlease : requireLiveLease codec me lease now q with
  | ok row => exact ⟨now, row, hclock, requireLiveLease_ok hlease⟩
  | error e =>
    rw [hlease] at h
    -- a refused lease is answered by `True`, which does not accept
    have htrue : value = true := by
      cases e with
      | jobNotFound | leaseLost => exact (Except.ok.inj h).symm
      | _ => cases h
    rw [htrue] at haccepts
    cases haccepts

/-- **Whatever a call answers, it had one of the effects.** -/
theorem exec_effect (hq : Clean q) (h : exec codec config call q = .ok (answer, q')) :
    Effect codec q q' call answer := by
  cases call with
  | startJob me s k spec scope i c =>
    obtain ⟨a, rfl, hop⟩ := tag_ok h
    exact startJob_effect hop
  | claimJob me s j w scope d t c =>
    obtain ⟨a, rfl, hop⟩ := tag_ok h
    exact claimJob_effect hop
  | renew me l d c =>
    obtain ⟨a, rfl, hop⟩ := tag_ok h
    exact renew_effect hq hop
  | recordUsage me l u k c =>
    obtain ⟨a, rfl, hop⟩ := tag_ok h
    exact recordUsage_effect hq hop
  | complete me l r c =>
    obtain ⟨a, rfl, hop⟩ := tag_ok h
    obtain ⟨⟨json, normalized⟩, -, hop⟩ := bind_eq_ok.mp hop
    obtain ⟨⟨st, q₁⟩, hfinish, hop⟩ := bind_eq_ok.mp hop
    obtain ⟨rfl, rfl⟩ : _ = a ∧ q₁ = q' := by simpa using hop
    exact finish_effect hq rfl rfl (.inl rfl) hfinish
  | interrupt me l e t c =>
    obtain ⟨a, rfl, hop⟩ := tag_ok h
    obtain ⟨code, -, hop⟩ := bind_eq_ok.mp hop
    obtain ⟨summary, -, hop⟩ := bind_eq_ok.mp hop
    exact finish_effect hq rfl rfl (.inr (.inl rfl)) hop
  | fail me l e t c =>
    obtain ⟨a, rfl, hop⟩ := tag_ok h
    obtain ⟨code, -, hop⟩ := bind_eq_ok.mp hop
    obtain ⟨summary, -, hop⟩ := bind_eq_ok.mp hop
    exact finish_effect hq rfl rfl (.inr (.inr rfl)) hop
  | cancelJob me s j r c =>
    obtain ⟨a, rfl, hop⟩ := tag_ok h
    exact cancelJob_effect hop
  | recoverStaleJobs me s c =>
    obtain ⟨a, rfl, hop⟩ := tag_ok h
    exact recoverStaleJobs_effect hop
  | resumeJob me s j scope g r c =>
    obtain ⟨a, rfl, hop⟩ := tag_ok h
    exact resumeJob_effect hop
  | shouldCancel me l c =>
    obtain ⟨a, rfl, hop, rfl⟩ := reading_ok h
    exact shouldCancel_effect hop
  | getStatus me s j =>
    obtain ⟨a, rfl, hop, rfl⟩ := reading_ok h
    refine .idle rfl rfl ?_
    intro me lease c hcall
    cases hcall

end Effects

end AlysisCode.Swarm
