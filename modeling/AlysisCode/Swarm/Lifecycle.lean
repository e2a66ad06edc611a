/-
The life of a swarm job.

Rows are never removed, so a job's life is the whole trace.  Every change of a row moves
its revision up and its generation not down, and only `renew` and `record_usage` leave the
generation where it is: `change_moves` says what each transition does to a row, and what a
row owes to its past (`Told`) is carried across a call by it.
-/
import AlysisCode.Swarm.Effects

namespace AlysisCode.Swarm

open Table Runs

variable {T J : Type}

/-! ### Events -/

def claimOf (key : JobKey) (e : Event T J) : Option (SwarmWorkerLease T J) :=
  match e with
  | (.claimJob me _ _ _ _ _ _ _, .ok (.claimed lease)) =>
    if lease.named me = key then some lease else none
  | _ => none

def scopeOf (key : JobKey) (e : Event T J) : Option J :=
  match e with
  | (.startJob me s _ _ scope _ _, .ok (.started creation)) =>
    if creation.created = true ∧ me.key (strip s) creation.status.jobId = key then some scope
    else none
  | _ => none

/-- The call keeps a lease alive: the two that leave a row's generation where it is. -/
def Call.extends : Call T J → Bool
  | .renew .. | .recordUsage .. => true
  | _ => false

def Call.starts : Call T J → Bool
  | .startJob .. => true
  | _ => false

/-- `succeeded` and `cancelled`. -/
def SwarmJobState.settled : SwarmJobState → Bool
  | .succeeded | .cancelled => true
  | _ => false

variable {call : Call T J} {answer : Answer T J}

theorem claimOf_of_quiet {key : JobKey} (h : answer.quiet = true) :
    claimOf key (call, .ok answer) = none := by
  cases answer with
  | claimed => cases h
  | _ => cases call <;> rfl

theorem scopeOf_of_quiet {key : JobKey} (h : answer.quiet = true) :
    scopeOf key (call, .ok answer) = none := by
  cases answer with
  | started creation =>
    have hold : creation.created = false := by simpa [Answer.quiet] using h
    cases call with
    | startJob =>
      simp only [scopeOf, hold]
      rw [if_neg]
      rintro ⟨htrue, -⟩
      cases htrue
    | _ => rfl
  | _ => cases call <;> rfl

theorem none_of_error {key : JobKey} {e : ResumableSwarmError} :
    claimOf key (call, .error e) = none ∧ scopeOf key (call, .error e) = none := by
  cases call <;> exact ⟨rfl, rfl⟩

/-- What a row owes to the events so far. -/
structure Told (codec : Codec J) (trace : List (Event T J)) (r : Row T) : Prop where
  /-- No lease of a later generation than the row's was handed out. -/
  generation : ∀ e ∈ trace, ∀ lease, claimOf r.key e = some lease → lease.generation ≤ r.generation
  running : r.state = .running → ∃ lease, latest (claimOf r.key) trace = some lease ∧
    lease.generation = r.generation ∧ r.leaseTokenSha256 = some (codec.sha256 lease.leaseToken)
  /-- The fingerprint is that of the scope the job was started with. -/
  scope : ∃ scope, latest (scopeOf r.key) trace = some scope ∧
    codec.permissionFingerprint scope = .ok r.permissionScopeSha256

variable {trace : List (Event T J)} {r row : Row T}

theorem Told.snoc {codec : Codec J} {e : Event T J}
    (h : Told codec trace r) (hclaim : claimOf r.key e = none) (hscope : scopeOf r.key e = none) :
    Told codec (trace ++ [e]) r := by
  refine ⟨?_, ?_, ?_⟩
  · intro e' he' lease hlease
    rcases List.mem_append.mp he' with he' | he'
    · exact h.generation e' he' lease hlease
    · rw [List.mem_singleton.mp he', hclaim] at hlease
      cases hlease
  · intro hrun
    rw [latest_snoc_none hclaim]
    exact h.running hrun
  · rw [latest_snoc_none hscope]
    exact h.scope

/-! ### What a call does to a row it changes -/

/-- What every transition does to a row. -/
structure Moves (call : Call T J) (row row' : Row T) : Prop where
  identity : row'.identity = row.identity
  revision : row.revision < row'.revision
  generation_le : row.generation ≤ row'.generation
  generation_lt : call.extends = false → row.generation < row'.generation
  live : row.state.settled = false

theorem Moves.key {row' : Row T} (h : Moves call row row') :
    row'.key = row.key := congrArg (·.1) h.identity

theorem settled_of_running (h : row.state = .running) : row.state.settled = false := by
  rw [h]
  rfl

section Rows

variable [Clock T] {codec : Codec J} {config : ResumableSwarmConfig}

variable {answer : Answer T J} {call : Call T J} {q : Store T} {row row' : Row T}

theorem change_moves (h : Change codec q call answer row row') : Moves call row row' := by
  cases h with
  | claimed _ _ hqueued =>
    have hlive : row.state.settled = false := by
      rw [hqueued]
      rfl
    exact ⟨rfl, Nat.lt_succ_self _, Nat.le_succ _, fun _ => Nat.lt_succ_self _, hlive⟩
  | renewed _ hlease | used _ hlease =>
    exact ⟨rfl, Nat.lt_succ_self _, Nat.le_refl _, fun hext => (nomatch hext),
      settled_of_running hlease.running⟩
  | finished _ _ _ hlease =>
    exact ⟨rfl, Nat.lt_succ_self _, Nat.le_succ _, fun _ => Nat.lt_succ_self _,
      settled_of_running hlease.running⟩
  | cancelled _ hlive =>
    refine ⟨rfl, Nat.lt_succ_self _, Nat.le_succ _, fun _ => Nat.lt_succ_self _, ?_⟩
    cases hstate : row.state <;> simp_all [SwarmJobState.settled, SwarmJobState.terminal]
  | expired _ hstale =>
    have hrun : row.state = .running := by
      simp only [Row.stale, Bool.and_eq_true, beq_iff_eq] at hstale
      exact hstale.1.1.2
    exact ⟨rfl, Nat.lt_succ_self _, Nat.le_succ _, fun _ => Nat.lt_succ_self _,
      settled_of_running hrun⟩
  | @resumed _ _ _ _ _ now _ _ row₁ _ _ _ hrow₁ hstate _ =>
    rcases hrow₁ with rfl | ⟨hrun, -, rfl⟩
    · have hlive : row₁.state.settled = false := by
        rcases hstate with hstate | hstate
        · rw [hstate]
          rfl
        · rw [hstate]
          rfl
      exact ⟨rfl, Nat.lt_succ_self _, Nat.le_succ _, fun _ => Nat.lt_succ_self _, hlive⟩
    · -- an expired row moves twice
      refine ⟨rfl, ?_, ?_, ?_, settled_of_running hrun⟩
      · show row.revision < row.revision + 1 + 1
        omega
      · show row.generation ≤ row.generation + 1 + 1
        omega
      · intro _
        show row.generation < row.generation + 1 + 1
        omega

theorem Change.claim (h : Change codec q call answer row row') {key : JobKey}
    {lease : SwarmWorkerLease T J} (hc : claimOf key (call, .ok answer) = some lease) :
    key = row.key ∧ lease.generation = row'.generation ∧
      row'.leaseTokenSha256 = some (codec.sha256 lease.leaseToken) := by
  cases h with
  | claimed _ hkey =>
    simp only [claimOf] at hc
    split_ifs at hc with hnamed
    cases hc
    exact ⟨hnamed.symm.trans hkey.symm, rfl, rfl⟩
  | @finished _ _ _ _ _ _ _ _ _ _ _ _ hquiet =>
    rw [claimOf_of_quiet hquiet] at hc
    cases hc
  | _ => simp [claimOf] at hc

theorem Change.scope_none (h : Change codec q call answer row row') (key : JobKey) :
    scopeOf key (call, .ok answer) = none := by
  cases h with
  | finished _ hquiet => exact scopeOf_of_quiet hquiet
  | _ => rfl

theorem Change.running (h : Change codec q call answer row row') (hrun : row'.state = .running) :
    (row.state = .running ∧ row'.generation = row.generation ∧
      row'.leaseTokenSha256 = row.leaseTokenSha256) ∨
      ∃ lease, claimOf row.key (call, .ok answer) = some lease := by
  cases h with
  | claimed _ hkey => exact .inr ⟨_, if_pos hkey.symm⟩
  | renewed _ hlease | used _ hlease => exact .inl ⟨hlease.running, rfl, rfl⟩
  | @finished _ _ _ _ _ _ _ state _ _ _ _ _ _ _ hstate =>
    have hnew : state = .running := hrun
    rcases hstate with rfl | rfl | rfl <;> cases hnew
  | cancelled | expired | resumed => cases hrun

theorem Change.queued (h : Change codec q call answer row row') (hqueued : row'.state = .queued) :
    ∃ me s j scope r c, call = .resumeJob me s j scope (.fields 1 (strip s) (strip j) row.revision)
      r c ∧ row.key = me.key (strip s) (strip j) ∧
      codec.permissionFingerprint scope = .ok row.permissionScopeSha256 := by
  cases h with
  | @finished _ _ _ _ _ _ _ state _ _ _ _ _ _ _ hstate =>
    have hnew : state = .queued := hqueued
    rcases hstate with rfl | rfl | rfl <;> cases hnew
  | renewed _ hlease | used _ hlease =>
    have hrun := hlease.running
    rw [show row.state = .queued from hqueued] at hrun
    cases hrun
  | claimed | cancelled | expired => cases hqueued
  | resumed _ hkey _ _ hscope => exact ⟨_, _, _, _, _, _, rfl, hkey, hscope⟩

theorem Told.change (h : Told codec trace row) (hc : Change codec q call answer row row') :
    Told codec (trace ++ [(call, .ok answer)]) row' := by
  have hmoves := change_moves hc
  have hid := hmoves.identity
  simp only [Row.identity, Prod.mk.injEq] at hid
  have hkey : row'.key = row.key := hid.1
  refine ⟨?_, ?_, ?_⟩
  · intro e he lease hlease
    rcases List.mem_append.mp he with he | he
    · rw [hkey] at hlease
      exact le_trans (h.generation e he lease hlease) hmoves.generation_le
    · rw [List.mem_singleton.mp he] at hlease
      exact le_of_eq (hc.claim hlease).2.1
  · intro hrun
    rw [hkey]
    cases hclaim : claimOf row.key (call, .ok answer) with
    | none =>
      rw [latest_snoc_none hclaim]
      rcases hc.running hrun with ⟨hold, hgen, htok⟩ | ⟨lease, hlease⟩
      · rw [hgen, htok]
        exact h.running hold
      · rw [hclaim] at hlease
        cases hlease
    | some lease => exact ⟨lease, latest_snoc_some hclaim, (hc.claim hclaim).2⟩
  · rw [hkey, latest_snoc_none (hc.scope_none row.key), hid.2.2.2.2.1]
    exact h.scope

variable {call : Call T J} {answer : Answer T J} {q q' : Store T}

theorem Told.other {row' : Row T} (h : Told codec trace r)
    (hc : Change codec q call answer row row') (hne : r.key ≠ row.key) :
    Told codec (trace ++ [(call, .ok answer)]) r := by
  refine h.snoc ?_ (hc.scope_none r.key)
  cases hclaim : claimOf r.key (call, .ok answer) with
  | none => rfl
  | some lease => exact absurd (hc.claim hclaim).1 hne

/-! ### What a call does to the table -/

/-- A row found afterwards was there, or comes from one that was, or is a new job's. -/
theorem Effect.from (h : Effect codec q q' call answer) {r' : Row T} (hr' : r' ∈ q'.jobs) :
    r' ∈ q.jobs ∨ (∃ r ∈ q.jobs, Change codec q call answer r r') ∨
      (call.starts = true ∧ r'.state = .queued ∧ ∀ r ∈ q.jobs, r.key ≠ r'.key) := by
  cases h with
  | idle h => exact .inl (h ▸ hr')
  | changed hrow hjobs hchange =>
    rw [hjobs] at hr'
    rcases of_mem_updateWhere hr' with ⟨hmem, -⟩ | ⟨r, hmem, hkey, rfl⟩
    · exact .inl hmem
    · obtain rfl := q.eq_of_key hmem hrow (by simpa using hkey)
      exact .inr (.inl ⟨r, hmem, hchange⟩)
  | recovered hclock hjobs =>
    rw [hjobs] at hr'
    rcases of_mem_updateWhere hr' with ⟨hmem, -⟩ | ⟨r, hmem, hstale, rfl⟩
    · exact .inl hmem
    · exact .inr (.inl ⟨r, hmem, .expired hclock hstale⟩)
  | inserted _ _ _ hjobs =>
    have hnodup := q'.constraints.key_unique
    rw [hjobs] at hr' hnodup
    rcases List.mem_append.mp hr' with hmem | hnew
    · exact .inl hmem
    · rw [List.mem_singleton] at hnew
      subst hnew
      refine .inr (.inr ⟨rfl, rfl, ?_⟩)
      intro r hr heq
      rw [List.map_append, List.nodup_append] at hnodup
      exact hnodup.2.2 _ (List.mem_map_of_mem hr) _ (List.mem_singleton.mpr rfl) heq

theorem Effect.kept (h : Effect codec q q' call answer) (hr : r ∈ q.jobs) :
    r ∈ q'.jobs ∨ ∃ r' ∈ q'.jobs, Change codec q call answer r r' := by
  cases h with
  | idle h => exact .inl (h ▸ hr)
  | @changed _ _ row f hrow hjobs hchange =>
    rw [hjobs]
    by_cases hkey : r.key = row.key
    · obtain rfl := q.eq_of_key hr hrow hkey
      exact .inr ⟨f r, mem_updateWhere_of_pos hr (beq_self_eq_true _), hchange⟩
    · exact .inl (mem_updateWhere_of_neg hr (by simpa using hkey))
  | @recovered me s session now c statuses hclock hjobs =>
    rw [hjobs]
    by_cases hstale : r.stale me session now = true
    · exact .inr ⟨_, mem_updateWhere_of_pos hr hstale, .expired hclock hstale⟩
    · exact .inl (mem_updateWhere_of_neg hr hstale)
  | inserted _ _ _ hjobs =>
    rw [hjobs]
    exact .inl (List.mem_append_left _ hr)

theorem Effect.claim (h : Effect codec q q' call answer) {key : JobKey}
    {lease : SwarmWorkerLease T J} (hc : claimOf key (call, .ok answer) = some lease) :
    ∃ r ∈ q.jobs, r.key = key := by
  cases h with
  | idle _ hquiet =>
    rw [claimOf_of_quiet hquiet] at hc
    cases hc
  | changed hrow _ hchange => exact ⟨_, hrow, (hchange.claim hc).1.symm⟩
  | recovered | inserted => cases hc

end Rows

/-! ### Runs -/

/-- What is true after every run. -/
structure Sound (codec : Codec J) (trace : List (Event T J)) (q : Store T) : Prop where
  clean : Clean q
  told : ∀ r ∈ q.jobs, Told codec trace r
  known : ∀ e ∈ trace, ∀ key lease, claimOf key e = some lease → ∃ r ∈ q.jobs, r.key = key

theorem told_inserted {codec : Codec J} {me : Coordinator}
    {s k i idem specJson specSha permission : String} {spec scope : J} {now : T} {c : Option T}
    {status : SwarmJobStatus T} (hid : status.jobId = strip i)
    (hscope : codec.permissionFingerprint scope = .ok permission)
    (hnone : ∀ e ∈ trace, claimOf (me.key (strip s) (strip i)) e = none) :
    Told codec (trace ++ [(.startJob me s k spec scope i c, .ok (.started ⟨status, true⟩))])
      (newRow (me.key (strip s) (strip i)) idem specJson specSha permission now) := by
  refine ⟨?_, fun hrun => (nomatch hrun), scope, ?_, hscope⟩
  · intro e he lease hlease
    rcases List.mem_append.mp he with he | he
    · have hno := (hnone e he).symm.trans hlease
      cases hno
    · rw [List.mem_singleton.mp he] at hlease
      cases hlease
  · refine latest_snoc_some (if_pos ⟨rfl, ?_⟩)
    show me.key (strip s) status.jobId = me.key (strip s) (strip i)
    rw [hid]

section Runs

variable [Clock T] {codec : Codec J} {config : ResumableSwarmConfig}

/-- Every run of the coordinators: any calls, in any order, from empty tables. -/
abbrev History (codec : Codec J) (config : ResumableSwarmConfig) (trace : List (Event T J))
    (q : Store T) : Prop :=
  Run (Commit (exec codec config)) Store.empty trace q

theorem Effect.clean (h : Effect codec q q' call answer) (hq : Clean q) : Clean q' := by
  intro r' hr'
  cases h with
  | inserted _ _ hclean hjobs =>
    rw [hjobs] at hr'
    rcases List.mem_append.mp hr' with hmem | hnew
    · exact hq r' hmem
    · rw [List.mem_singleton.mp hnew]
      exact hclean
  | idle h => exact hq r' (h ▸ hr')
  | changed hrow hjobs hchange =>
    rw [hjobs] at hr'
    rcases of_mem_updateWhere hr' with ⟨hmem, -⟩ | ⟨r, hmem, hkey, rfl⟩
    · exact hq r' hmem
    · obtain rfl := q.eq_of_key hmem hrow (by simpa using hkey)
      rw [(change_moves hchange).key]
      exact hq r hmem
  | recovered _ hjobs =>
    rw [hjobs] at hr'
    rcases of_mem_updateWhere hr' with ⟨hmem, -⟩ | ⟨r, hmem, -, rfl⟩
    · exact hq r' hmem
    · exact hq r hmem

theorem Sound.step (hq : Sound codec trace q) (h : Effect codec q q' call answer) :
    Sound codec (trace ++ [(call, .ok answer)]) q' := by
  have hkept : ∀ key, (∃ r ∈ q.jobs, r.key = key) → ∃ r ∈ q'.jobs, r.key = key := by
    rintro key ⟨r, hr, rfl⟩
    rcases h.kept hr with hr' | ⟨r', hr', hchange⟩
    · exact ⟨r, hr', rfl⟩
    · exact ⟨r', hr', (change_moves hchange).key⟩
  refine ⟨h.clean hq.clean, ?_, ?_⟩
  · intro r' hr'
    cases h with
    | idle h hquiet =>
      exact (hq.told r' (h ▸ hr')).snoc (claimOf_of_quiet hquiet) (scopeOf_of_quiet hquiet)
    | changed hrow hjobs hchange =>
      rw [hjobs] at hr'
      rcases of_mem_updateWhere hr' with ⟨hmem, hkey⟩ | ⟨r, hmem, hkey, rfl⟩
      · exact (hq.told r' hmem).other hchange (by simpa using hkey)
      · obtain rfl := q.eq_of_key hmem hrow (by simpa using hkey)
        exact (hq.told r hmem).change hchange
    | recovered hclock hjobs =>
      rw [hjobs] at hr'
      rcases of_mem_updateWhere hr' with ⟨hmem, -⟩ | ⟨r, hmem, hstale, rfl⟩
      · exact (hq.told r' hmem).snoc rfl rfl
      · exact (hq.told r hmem).change (q := q) (.expired hclock hstale)
    | inserted hscope hid _ hjobs =>
      have hnodup := q'.constraints.key_unique
      rw [hjobs] at hr' hnodup
      rw [List.map_append, List.nodup_append] at hnodup
      rcases List.mem_append.mp hr' with hmem | hnew
      · refine (hq.told r' hmem).snoc rfl ?_
        refine if_neg ?_
        rintro ⟨-, hkey⟩
        refine hnodup.2.2 _ (List.mem_map_of_mem hmem) _ (List.mem_singleton.mpr rfl) ?_
        rw [← hkey, hid]
        rfl
      · rw [List.mem_singleton.mp hnew]
        refine told_inserted hid hscope ?_
        intro e he
        by_contra hclaim
        obtain ⟨lease, hlease⟩ := Option.ne_none_iff_exists'.mp hclaim
        obtain ⟨r, hr, hkey⟩ := hq.known e he _ lease hlease
        exact hnodup.2.2 _ (List.mem_map_of_mem hr) _ (List.mem_singleton.mpr rfl) hkey
  · intro e he key lease hlease
    refine hkept key ?_
    rcases List.mem_append.mp he with he | he
    · exact hq.known e he key lease hlease
    · rw [List.mem_singleton.mp he] at hlease
      exact h.claim hlease

theorem History.sound (h : History codec config trace q) : Sound codec trace q := by
  refine Run.history (I := Sound codec) ?_ ?_ h
  · exact ⟨fun r hr => (nomatch hr), fun r hr => (nomatch hr), fun e he => (nomatch he)⟩
  · intro trace q e q' _ hq hstep
    cases hstep with
    | ok hexec => exact hq.step (exec_effect hq.clean hexec)
    | error _ =>
      refine ⟨hq.clean, fun r hr => (hq.told r hr).snoc none_of_error.1 none_of_error.2, ?_⟩
      intro e he key lease hlease
      rcases List.mem_append.mp he with he | he
      · exact hq.known e he key lease hlease
      · rw [List.mem_singleton.mp he, none_of_error.1] at hlease
        cases hlease

end Runs

end AlysisCode.Swarm
