/-
What the ledger guarantees.

`ledger_guarantees` collects it for every run: a job begins at most once, dead leases do
nothing, terminal states stay, a request keeps its one job until its row is pruned, and
pruning takes terminal rows only.
-/
import AlysisCode.ForgeLedger.Lifecycle

namespace AlysisCode.ForgeLedger

open Table Runs

variable {T P : Type}

/-! ### Looking rows up -/

theorem Ledger.eq_of_requests {host : Host P} (q : Ledger T) {w : Except ForgeRequestLedgerError String}
    {k k' : String} {a b : Row T} (ha : a ∈ q.rows) (hb : b ∈ q.rows)
    (hreq : Requests host w k a) (hreq' : Requests host w k' b) (hk : strip k' = strip k) :
    a = b := by
  obtain ⟨root, hw, h1, h2⟩ := hreq
  obtain ⟨root', hw', h1', h2'⟩ := hreq'
  obtain rfl : root = root' := by simpa using hw.symm.trans hw'
  refine List.inj_on_of_nodup_map q.request_unique ha hb (Prod.ext ?_ ?_)
  · exact h1.trans h1'.symm
  · exact h2.trans (by rw [← hk]; exact h2'.symm)

theorem rowByJob_of_mem {q : Ledger T} {r : Row T} (h : r ∈ q.rows) :
    q.rowByJob r.jobId = .ok r := by
  unfold Ledger.rowByJob
  split
  · rename_i hnone
    simpa using List.find?_eq_none.mp hnone r h
  · rename_i r' hfind
    rw [q.eq_of_jobId (List.mem_of_find?_eq_some hfind) h (by simpa using List.find?_some hfind)]

section Fences

variable [Clock T] {host : Host P} {config : ForgeRequestLedgerConfig T}

/-- The call raises and leaves the table as it is. -/
def Fails (host : Host P) (config : ForgeRequestLedgerConfig T) (q : Ledger T)
    (call : Call T P) : Prop :=
  ∀ outcome q', Commit (exec host config) q (call, outcome) q' → (∃ e, outcome = .error e) ∧ q' = q

variable {call : Call T P} {q q' : Ledger T} {answer : Answer T} {c : Option T}
  {lease : ForgeLease T} {row r : Row T} {w : Except ForgeRequestLedgerError String}

theorem fails_of_not_ok (h : ∀ answer q', exec host config call q ≠ .ok (answer, q')) :
    Fails host config q call := by
  intro outcome q' hstep
  cases hstep with
  | ok hexec => exact absurd hexec (h _ _)
  | error _ => exact ⟨⟨_, rfl⟩, rfl⟩

/-! ### Leases -/

theorem Effect.presented (h : Effect host config q q' call answer)
    (hcall : call.presents = some (lease, c)) :
    ∃ row now expected, readClock c = .ok now ∧ Leased host q lease expected now row ∧
      expected.terminal = false := by
  cases h with
  | missing | inserted => simp [Call.presents] at hcall
  | changed hrep hchange =>
    cases hchange with
    | begun hclock hlease | renewed hclock hlease | rejected hclock hlease =>
      obtain ⟨rfl, rfl⟩ : _ = lease ∧ _ = c := by simpa [Call.presents] using hcall
      exact ⟨_, _, _, hclock, hlease, rfl⟩
    | finished hfin hclock hlease =>
      rw [hfin, Option.some.injEq, Prod.mk.injEq] at hcall
      obtain ⟨rfl, rfl⟩ := hcall
      exact ⟨_, _, _, hclock, hlease, rfl⟩
    | _ => simp [Call.presents] at hcall

theorem fails_of_lease (hq : Clean q) (hcall : call.presents = some (lease, c))
    (hno : ∀ row now expected, readClock c = .ok now → Leased host q lease expected now row →
      expected.terminal = false → False) : Fails host config q call := by
  refine fails_of_not_ok ?_
  intro answer q' hexec
  obtain ⟨row, now, expected, hclock, hlease, hlive⟩ := (exec_effect hq hexec).presented hcall
  exact hno row now expected hclock hlease hlive

/-- The row can no longer pass the lease's checks at any reading from `now₀` on. -/
def Dead (lease : ForgeLease T) (now₀ : T) (r : Row T) : Prop :=
  lease.generation ≤ r.generation ∧
    (lease.generation < r.generation ∨ r.state.terminal = true ∨ r.expiry ≤ now₀)

variable {now₀ : T} {s k k' : String} {now : T} {j t : String} {p : P}

theorem not_dead_of_leased {l : ForgeLease T} {expected : ForgeRequestState}
    (h : Leased host q l expected now row) (hlive : expected.terminal = false) (hle : now₀ ≤ now)
    (hdead : Dead lease now₀ row) : lease.generation < row.generation := by
  rcases hdead.2 with hlt | hterm | hexp
  · exact hlt
  · rw [h.state, hlive] at hterm
    cases hterm
  · exact absurd (lt_of_le_of_lt (le_trans hexp hle) h.live) (lt_irrefl _)

theorem reconciled_dead (h : Dead lease now₀ row) : Dead lease now₀ (row.reconciled now) := by
  unfold Row.reconciled
  split
  · exact ⟨h.1, .inr (.inl rfl)⟩
  · exact h

/-- No call at a reading from `now₀` on revives it. -/
theorem Change.dead {row' : Row T} (h : Change host config q call answer row row')
    (hclock : ∀ now, readClock call.clock = .ok now → now₀ ≤ now) (hdead : Dead lease now₀ row) :
    Dead lease now₀ row' := by
  cases h with
  | retried | got => exact reconciled_dead hdead
  | redispatched _ _ _ _ _ hrow' =>
    rw [hrow']
    have hlt := Nat.lt_succ_of_le hdead.1
    exact ⟨Nat.le_of_lt hlt, .inl hlt⟩
  | begun hc hlease =>
    have hlt := not_dead_of_leased hlease rfl (hclock _ hc) hdead
    exact ⟨hdead.1, .inl hlt⟩
  | renewed hc hlease hrow' =>
    have hlt := not_dead_of_leased hlease rfl (hclock _ hc) hdead
    rcases hrow' with rfl | rfl
    · exact ⟨hdead.1, .inl hlt⟩
    · exact hdead
  | @finished _ _ _ _ _ state _ _ hcall hc hlease =>
    exact ⟨hdead.1, .inr (.inl state.2)⟩
  | rejected => exact ⟨hdead.1, .inr (.inl rfl)⟩
  | attached => exact hdead

/-- An event leaves the job alone as a whole or takes its clock from `now₀` on. -/
def Later (job : String) (now₀ : T) (e : Event T P) : Prop :=
  creates job e = false ∧ ∀ now, readClock e.1.clock = .ok now → now₀ ≤ now

theorem dead_of_run {m : Ledger T} {rest : List (Event T P)} (hm : Clean m)
    (hdead : ∀ r ∈ m.rows, r.jobId = strip lease.jobId → Dead lease now₀ r)
    (hrun : Run (Commit (exec host config)) m rest q)
    (hlater : ∀ e ∈ rest, Later (strip lease.jobId) now₀ e) :
    Clean q ∧ ∀ r ∈ q.rows, r.jobId = strip lease.jobId → Dead lease now₀ r := by
  induction hrun with
  | nil => exact ⟨hm, hdead⟩
  | @snoc trace s s' l _ hstep ih =>
    obtain ⟨hclean, hdead⟩ := ih fun e he => hlater e (List.mem_append_left _ he)
    obtain ⟨hnot, hclock⟩ := hlater l (List.mem_append_right _ (List.mem_singleton.mpr rfl))
    cases hstep with
    | error _ => exact ⟨hclean, hdead⟩
    | ok hexec =>
      cases exec_effect hclean hexec with
      | missing h =>
        subst h
        exact ⟨hclean, hdead⟩
      | changed hrep hchange =>
        constructor
        · intro r hr
          rcases (hrep.rows r).mp hr with ⟨hr, -⟩ | rfl
          · exact hclean r hr
          · rw [hrep.jobId]
            exact hclean _ hrep.mem
        · intro r hr hid
          rcases (hrep.rows r).mp hr with ⟨hr, -⟩ | rfl
          · exact hdead r hr hid
          · exact hchange.dead hclock (hdead _ hrep.mem (hrep.jobId.symm.trans hid))
      | @inserted _ _ _ _ _ _ job _ _ _ _ _ _ row _ _ hprune hjob _ hrow _ _ hrows =>
        have hid : row.jobId = job := by rw [hrow]; rfl
        constructor
        · intro r hr
          rw [hrows, List.mem_append, List.mem_singleton] at hr
          rcases hr with hr | rfl
          · exact hclean r (hprune.sub r hr)
          · rw [hid, hjob]
        · intro r hr hr'
          rw [hrows, List.mem_append, List.mem_singleton] at hr
          rcases hr with hr | rfl
          · exact hdead r (hprune.sub r hr) hr'
          · simp [creates, Row.record, hr'] at hnot

/-! ### One job a request -/

theorem accept_returns (hq : Clean q) (hr : r ∈ q.rows) (hreq : Requests host w k r)
    (hk : strip k' = strip k) (h : exec host config (.accept w s k' p j t c) q = .ok (answer, q')) :
    host.payloadDigest p = .ok r.payloadSha256 ∧
      ∃ acceptance, answer = .accepted acceptance ∧ acceptance.created = false ∧
        acceptance.record.jobId = r.jobId := by
  have heffect := exec_effect hq h
  cases heffect with
  | inserted _ hfree =>
    obtain ⟨root, hw, h1, h2⟩ := hreq
    exact absurd ⟨root, hw, h1, by rw [hk]; exact h2⟩ (hfree r hr)
  | changed hrep hchange =>
    have hjob := hrep.jobId
    cases hchange with
    | retried _ hreq' hpay | redispatched _ hreq' hpay =>
      obtain rfl := q.eq_of_requests hr hrep.mem hreq hreq' hk
      exact ⟨hpay, _, rfl, rfl, hjob⟩
    | finished hcall => simp [Call.presents] at hcall

theorem reconcile_total (now : T) (hrow : row ∈ q.rows) :
    ∃ r q', reconcileExpiredRunning row now q = .ok (r, q') := by
  unfold reconcileExpiredRunning
  split
  · exact ⟨_, _, rfl⟩
  · split
    · exact ⟨_, _, rfl⟩
    · have hrep := replaced_update (f := Row.expire now) (i := fun _ => rfl)
        (p := fun r => r.jobId == row.jobId && r.state == .running &&
          r.leaseExpiresAt.any (· ≤ now)) hrow
        (fun r _ hr => by
          simp only [Bool.and_eq_true, beq_iff_eq] at hr
          exact hr.1.1)
      have hfound := rowByJob_of_mem hrep.mem'
      rw [hrep.jobId] at hfound
      exact ⟨_, _, bind_eq_ok.mpr ⟨_, hfound, rfl⟩⟩

theorem accept_total {s' key token : String} (hr : r ∈ q.rows) (hreq : Requests host w k r)
    (hk : strip k' = strip k) (hs : identifier s "session" 256 = .ok s')
    (hkey : identifier k' "idempotency" 256 = .ok key) (ht : identifier t "lease" 256 = .ok token)
    (hpay : host.payloadDigest p = .ok r.payloadSha256) (hclock : readClock c = .ok now) :
    ∃ acceptance q', accept host config w s k' p j t c q = .ok (acceptance, q') := by
  obtain ⟨root, hw, h1, h2⟩ := hreq
  have hkey' : key = strip k := (identifier_ok hkey).1.trans hk
  have hfind : (q.rows.find? fun x => x.workspaceSha256 == host.sha256 (host.normcase root) &&
      x.idempotencySha256 == host.sha256 key) = some r := by
    cases hf : q.rows.find? fun x => x.workspaceSha256 == host.sha256 (host.normcase root) &&
        x.idempotencySha256 == host.sha256 key with
    | none =>
      have := List.find?_eq_none.mp hf r hr
      simp [h1, h2, hkey'] at this
    | some x =>
      have hx := List.find?_some hf
      simp only [Bool.and_eq_true, beq_iff_eq] at hx
      have hmem := List.mem_of_find?_eq_some hf
      rw [List.inj_on_of_nodup_map q.request_unique hmem hr
        (Prod.ext (hx.1.trans h1.symm) (hx.2.trans (by rw [hkey']; exact h2.symm)))]
  have haccept : accept host config w s k' p j t c q =
      acceptPrior host config s' r.payloadSha256 t now r q := by
    unfold accept
    simp only [hw, hs, hkey, hpay, hclock, ok_bind, hfind]
  rw [haccept]
  unfold acceptPrior
  rw [if_neg (not_not.mpr rfl)]
  obtain ⟨r₁, q₁, hrec⟩ := reconcile_total now hr
  obtain ⟨rfl, hrep₁⟩ := reconcile_ok hr hrec
  have hrep₂ := replaced_updateJob (f := Row.resession s' now) (i := fun _ => rfl) hrep₁.mem'
  have hfound := rowByJob_of_mem hrep₂.mem'
  rw [hrep₂.jobId] at hfound
  by_cases hdisp : (r.reconciled now).state = .queued ∧
      ((r.reconciled now).resession s' now).expiry ≤ now
  · have hrep₃ := replaced_update
      (f := Row.redispatch (((r.reconciled now).resession s' now).generation + 1)
        (host.sha256 token) (now + config.leaseSeconds) now) (i := fun _ => rfl)
      (p := fun x => x.jobId == ((r.reconciled now).resession s' now).jobId &&
        x.state == .queued) hrep₂.mem'
      (fun x _ hx => by
        simp only [Bool.and_eq_true, beq_iff_eq] at hx
        exact hx.1)
    have hfound₃ := rowByJob_of_mem hrep₃.mem'
    rw [hrep₃.jobId] at hfound₃
    exact ⟨_, _, bind_eq_ok.mpr ⟨_, hrec, bind_eq_ok.mpr ⟨_, hfound, (if_pos hdisp).trans
      (bind_eq_ok.mpr ⟨token, ht, bind_eq_ok.mpr ⟨_, hfound₃, rfl⟩⟩)⟩⟩⟩
  · exact ⟨_, _, bind_eq_ok.mpr ⟨_, hrec, bind_eq_ok.mpr ⟨_, hfound, if_neg hdisp⟩⟩⟩

/-! ### The guarantees -/

/-- What holds of the ledger after a run, and of every further call. -/
structure Guarantees (host : Host P) (config : ForgeRequestLedgerConfig T)
    (trace : List (Event T P)) (q : Ledger T) : Prop where
  begins_once : ∀ job, (life job trace).countP (begins job) ≤ 1
  /-- A lease that a re-dispatch superseded fails. -/
  superseded : ∀ call lease c, Call.presents call = some (lease, c) →
    (∃ e ∈ life (strip lease.jobId) trace, ∃ g, redispatchOf (strip lease.jobId) e = some g ∧
      lease.generation < g) → Fails host config q call
  /-- A lease on a job that was finished, rejected or classified indeterminate fails. -/
  finished : ∀ call lease c, Call.presents call = some (lease, c) →
    (∃ e ∈ life (strip lease.jobId) trace, ends (strip lease.jobId) e = true) →
    Fails host config q call
  expired : ∀ call lease c now, Call.presents call = some (lease, c) → readClock c = .ok now →
    (∀ r ∈ q.rows, r.jobId = strip lease.jobId → r.expiry ≤ now) → Fails host config q call
  /-- A lease that had expired at some reading fails if no later reading went back. -/
  stays_expired : ∀ call lease c, Call.presents call = some (lease, c) →
    (∃ first rest m now₀, trace = first ++ rest ∧ History host config first m ∧
      (∀ r ∈ m.rows, r.jobId = strip lease.jobId →
        r.generation = lease.generation ∧ r.expiry ≤ now₀) ∧
      (∀ e ∈ rest, Later (strip lease.jobId) now₀ e) ∧
      ∀ now, readClock c = .ok now → now₀ ≤ now) → Fails host config q call
  terminal : ∀ e q', Commit (exec host config) q e q' → ∀ r ∈ q.rows, r.state.terminal = true →
    ∀ r' ∈ q'.rows, r'.jobId = r.jobId → r'.state = r.state ∨ creates r.jobId e = true
  /-- While a request's row is there, accepts of the request return its one job. -/
  one_job : ∀ r ∈ q.rows, ∀ w k p, latest (creationOf r.jobId) trace = some (w, k, p) →
    ∀ s k' p' j t c, strip k' = strip k →
      (∀ outcome q', Commit (exec host config) q (.accept w s k' p' j t c, outcome) q' →
        ∀ answer, outcome = .ok answer → ∃ acceptance, answer = .accepted acceptance ∧
          acceptance.created = false ∧ acceptance.record.jobId = r.jobId) ∧
      (host.payloadDigest p' ≠ host.payloadDigest p →
        Fails host config q (.accept w s k' p' j t c)) ∧
      (host.payloadDigest p' = host.payloadDigest p →
        ∀ s' key token now, identifier s "session" 256 = .ok s' →
        identifier k' "idempotency" 256 = .ok key → identifier t "lease" 256 = .ok token →
        readClock c = .ok now →
        ∃ answer q', Commit (exec host config) q (.accept w s k' p' j t c, .ok answer) q')
  room : q.rows.length ≤ config.maxRecords
  pruning : ∀ e q', Commit (exec host config) q e q' → ∀ r ∈ q.rows, r.state.terminal = false →
    ∃ r' ∈ q'.rows, r'.identity = r.identity

theorem Effect.terminal (h : Effect host config q q' call answer) {r' : Row T} (hr : r ∈ q.rows)
    (hterm : r.state.terminal = true) (hr' : r' ∈ q'.rows) (hid : r'.jobId = r.jobId) :
    r'.state = r.state ∨ creates r.jobId (call, .ok answer) = true := by
  cases h with
  | missing h =>
    subst h
    exact .inl (by rw [q'.eq_of_jobId hr' hr hid])
  | changed hrep hchange =>
    rcases (hrep.rows r').mp hr' with ⟨hmem, -⟩ | rfl
    · exact .inl (by rw [q.eq_of_jobId hmem hr hid])
    · obtain rfl := q.eq_of_jobId hrep.mem hr (hrep.jobId.symm.trans hid)
      exact .inl (hchange.terminal hterm)
  | inserted _ _ hprune _ _ hrow _ _ hrows =>
    rw [hrows, List.mem_append, List.mem_singleton] at hr'
    rcases hr' with hmem | rfl
    · exact .inl (by rw [q.eq_of_jobId (hprune.sub r' hmem) hr hid])
    · exact .inr (by simp [creates, Row.record, hid])

theorem Effect.keeps (h : Effect host config q q' call answer) (hr : r ∈ q.rows)
    (hlive : r.state.terminal = false) : ∃ r' ∈ q'.rows, r'.identity = r.identity := by
  cases h with
  | missing h => exact ⟨r, h ▸ hr, rfl⟩
  | @changed _ _ row row' hrep _ =>
    by_cases hid : r.jobId = row.jobId
    · obtain rfl := q.eq_of_jobId hr hrep.mem hid
      exact ⟨row', hrep.mem', hrep.identity⟩
    · exact ⟨r, (hrep.rows r).mpr (.inl ⟨hr, hid⟩), rfl⟩
  | inserted _ _ hprune _ _ _ _ _ hrows =>
    rw [hrows]
    exact ⟨r, List.mem_append_left _ (hprune.kept r hr hlive), rfl⟩

theorem one_job_of_sound {trace : List (Event T P)} (hq : Sound host config trace q)
    (hr : r ∈ q.rows) {p' : P} (hlatest : latest (creationOf r.jobId) trace = some (w, k, p))
    (hk : strip k' = strip k) :
    (∀ outcome q', Commit (exec host config) q (.accept w s k' p' j t c, outcome) q' →
        ∀ answer, outcome = .ok answer → ∃ acceptance, answer = .accepted acceptance ∧
          acceptance.created = false ∧ acceptance.record.jobId = r.jobId) ∧
      (host.payloadDigest p' ≠ host.payloadDigest p →
        Fails host config q (.accept w s k' p' j t c)) ∧
      (host.payloadDigest p' = host.payloadDigest p →
        ∀ s' key token now, identifier s "session" 256 = .ok s' →
        identifier k' "idempotency" 256 = .ok key → identifier t "lease" 256 = .ok token →
        readClock c = .ok now →
        ∃ answer q', Commit (exec host config) q (.accept w s k' p' j t c, .ok answer) q') := by
  obtain ⟨hreq, hpay⟩ := (hq.told r hr).request w k p hlatest
  refine ⟨?_, ?_, ?_⟩
  · rintro outcome q' hstep answer rfl
    cases hstep with
    | ok hexec => exact (accept_returns hq.clean hr hreq hk hexec).2
  · intro hne
    refine fails_of_not_ok ?_
    intro answer q' hexec
    exact hne ((accept_returns hq.clean hr hreq hk hexec).1.trans hpay.symm)
  · intro heq s' key token now hs hkey ht hclock
    obtain ⟨acceptance, q', hop⟩ : ∃ acceptance q',
        accept host config w s k' p' j t c q = .ok (acceptance, q') :=
      accept_total hr hreq hk hs hkey ht (heq.trans hpay) hclock
    exact ⟨_, q', .ok (bind_eq_ok.mpr ⟨_, hop, rfl⟩)⟩

/-- **What the ledger guarantees**, after every run. -/
theorem ledger_guarantees {trace : List (Event T P)} {q : Ledger T}
    (h : History host config trace q) : Guarantees host config trace q := by
  have hq := h.sound
  refine ⟨hq.begun, ?_, ?_, ?_, ?_, ?_, ?_, hq.room, ?_⟩
  · rintro call lease c hcall ⟨e, he, g, hg, hlt⟩
    refine fails_of_lease hq.clean hcall ?_
    intro row now expected _ hlease _
    rw [← hlease.id] at he hg
    have hle := (hq.told row hlease.mem).generation e he g hg
    have hgen := hlease.generation
    omega
  · rintro call lease c hcall ⟨e, he, hend⟩
    refine fails_of_lease hq.clean hcall ?_
    intro row now expected _ hlease hlive
    rw [← hlease.id] at he hend
    have hterm := (hq.told row hlease.mem).ended ⟨e, he, hend⟩
    rw [hlease.state, hlive] at hterm
    cases hterm
  · intro call lease c now hcall hclock hexp
    refine fails_of_lease hq.clean hcall ?_
    intro row now' expected hclock' hlease _
    obtain rfl : now = now' := by simpa using hclock.symm.trans hclock'
    exact absurd hlease.live (not_lt.mpr (hexp row hlease.mem hlease.id))
  · rintro call lease c hcall ⟨first, rest, m, now₀, rfl, hfirst, hexp, hlater, hclock⟩
    obtain ⟨m', hm', hrest⟩ := h.split
    rw [hm'.commit_det hfirst] at hrest
    have hdead := (dead_of_run hfirst.sound.clean (fun r hr hid =>
      ⟨le_of_eq (hexp r hr hid).1.symm, .inr (.inr (hexp r hr hid).2)⟩) hrest hlater).2
    refine fails_of_lease hq.clean hcall ?_
    intro row now expected hnow hlease hlive
    have hlt := not_dead_of_leased hlease hlive (hclock now hnow) (hdead row hlease.mem hlease.id)
    have hgen := hlease.generation
    omega
  · intro e q' hstep r hr hterm r' hr' hid
    cases hstep with
    | ok hexec => exact (exec_effect hq.clean hexec).terminal hr hterm hr' hid
    | error _ => exact .inl (by rw [q.eq_of_jobId hr' hr hid])
  · intro r hr w k p hlatest s k' p' j t c hk
    exact one_job_of_sound hq hr hlatest hk
  · intro e q' hstep r hr hlive
    cases hstep with
    | ok hexec => exact (exec_effect hq.clean hexec).keeps hr hlive
    | error _ => exact ⟨r, hr, rfl⟩

end Fences

/-! ### A clock that goes back -/

def defaultConfig : ForgeRequestLedgerConfig Nat where
  leaseSeconds := 30
  maxRecords := 50000
  terminalRetentionSeconds := 7776000
  lease_range := by decide
  records_range := by decide
  retention_range := by decide

/-- The texts of the run below and their digests; payloads are given by their JSON. -/
def planHost : Host String where
  sha256 text :=
    if text = "/work" then "0c9a453fad615c83c57d57c2b2be05fa938f0791d7624db43827a033227bf78b"
    else if text = "k1" then "6ab9f1eb8f7d3388f4f9d586f66e99fd54080df2c446f0e58668b09c08a16dd0"
    else if text = "lease_1" then
      "d68f46ef78361704fc6f26a05aade9472b68f5e509a832e8597bfe5eefc01ec5"
    else "44136fa355b3678a1146ad16f7e8649e94fb4fc21fe77e8310c060f61caaff8a"
  normcase := id
  dumps := some

/-- The lease handed out when the request is accepted at 0. -/
def planLease : ForgeLease Nat :=
  { jobId := "job_1", generation := 1, expiresAt := 30, token := "lease_1" }

def rewindingCalls : List (Call Nat String) :=
  [.accept (.ok "/work") "s1" "k1" "\x7b\x7d" "job_1" "lease_1" (some 0),
    .begin planLease (some 40), .begin planLease (some 10)]

/-- Accepted at 0 until 30; begun at 40, which fails, and again at 10. -/
def rewinding := replay (exec planHost defaultConfig) rewindingCalls Ledger.empty

/-- The lease that had expired at 40 begins the job at 10. -/
theorem expired_lease_begins : History planHost defaultConfig rewinding.1 rewinding.2 ∧
      rewinding.1[1]?.map (·.2) =
        some (.error (.leaseLost "Forge plan worker lease is no longer valid.")) ∧
      rewinding.1[2]?.map (·.2) = some (.ok (.began { planLease with expiresAt := 40 })) ∧
      rewinding.2.rows.map (·.state) = [.running] :=
  ⟨replay_run _ _ _, by decide +kernel, by decide +kernel, by decide +kernel⟩

/-- The guarantees after that run. -/
theorem ledger_guarantees_rewinding : Guarantees planHost defaultConfig rewinding.1 rewinding.2 :=
  ledger_guarantees (replay_run _ _ _)

end AlysisCode.ForgeLedger
