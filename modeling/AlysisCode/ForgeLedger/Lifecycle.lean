/-
The life of a request.

A job's life starts when `accept` inserts its row and is told by the events since
(`life`): a pruned job's name may be drawn again, and then a new life starts.  Four
things are true of every row against its life (`Told`), and each is carried across a
call by one look at what became of the row.

A lease is fenced by the row's generation and state, and by the expiry stored in it
compared with a clock reading.  The first two only move one way, so a lease they reject
stays rejected.  The third moves with the clock: a lease rejected as expired at one
reading is accepted at an earlier one (`expired_lease_begins`), and stays rejected when
readings do not go back.
-/
import AlysisCode.ForgeLedger.Effects

namespace AlysisCode.ForgeLedger

open Table Runs

variable {T P : Type}

/-! ### Events -/

def Answer.record : Answer T → Option (ForgeRequestRecord T)
  | .accepted acceptance => some acceptance.record
  | .finished record | .attached record => some record
  | .got record => record
  | .began _ | .renewed _ => none

/-- The event accepted a new request as this job. -/
def creates (job : String) (e : Event T P) : Bool :=
  match e.2 with
  | .ok (.accepted acceptance) => acceptance.created && acceptance.record.jobId == job
  | _ => false

/-- The request the event accepted as this job: workspace, key and payload. -/
def creationOf (job : String) (e : Event T P) :
    Option (Except ForgeRequestLedgerError String × String × P) :=
  match e with
  | (.accept w _ k p _ _ _, .ok (.accepted acceptance)) =>
    if acceptance.created = true ∧ acceptance.record.jobId = job then some (w, k, p) else none
  | _ => none

/-- The event began the job's execution. -/
def begins (job : String) (e : Event T P) : Bool :=
  match e with
  | (.begin lease _, .ok (.began _)) => strip lease.jobId == job
  | _ => false

/-- The generation of the dispatch lease that replaced the job's last one. -/
def redispatchOf (job : String) (e : Event T P) : Option Nat :=
  match e.2 with
  | .ok (.accepted acceptance) =>
    if acceptance.created = false ∧ acceptance.record.jobId = job then
      acceptance.dispatchLease.map (·.generation)
    else none
  | _ => none

/-- The event reported the job in a terminal state. -/
def ends (job : String) (e : Event T P) : Bool :=
  match e.2 with
  | .ok answer => answer.record.any fun r => r.jobId == job && r.state.terminal
  | .error _ => false

/-- What happened to the job since it was accepted. -/
def life (job : String) (trace : List (Event T P)) : List (Event T P) :=
  since (creates job) trace

variable {w : Except ForgeRequestLedgerError String} {job : String} {c : Option T}
  {lease : Option (ForgeLease T)}

theorem creationOf_isSome {e : Event T P} (h : creates job e = false) :
    creationOf job e = none := by
  unfold creationOf
  split
  · simp only [creates, Bool.and_eq_false_iff, beq_eq_false_iff_ne] at h
    rw [if_neg]
    rintro ⟨hc, hid⟩
    rcases h with h | h
    · rw [hc] at h
      cases h
    · exact h hid
  · rfl

structure Unrelated (job : String) (e : Event T P) : Prop where
  creates : creates job e = false
  begins : begins job e = false
  redispatch : redispatchOf job e = none
  ends : ends job e = false

structure Told (host : Host P) (trace : List (Event T P)) (r : Row T) : Prop where
  unbegun : r.state = .queued → (life r.jobId trace).countP (begins r.jobId) = 0
  /-- No lease of a later generation than the row's was handed out. -/
  generation : ∀ e ∈ life r.jobId trace, ∀ g, redispatchOf r.jobId e = some g → g ≤ r.generation
  ended : (∃ e ∈ life r.jobId trace, ends r.jobId e = true) → r.state.terminal = true
  /-- The row is that of the request it was created for. -/
  request : ∀ w k p, latest (creationOf r.jobId) trace = some (w, k, p) →
    Requests host w k r ∧ host.payloadDigest p = .ok r.payloadSha256

variable {trace : List (Event T P)} {job : String}

theorem Told.snoc {host : Host P} {r : Row T} {e : Event T P}
    (h : Told host trace r) (he : Unrelated r.jobId e) : Told host (trace ++ [e]) r := by
  have hlife : life r.jobId (trace ++ [e]) = life r.jobId trace ++ [e] :=
    since_snoc_of_neg he.creates
  refine ⟨?_, ?_, ?_, ?_⟩
  · intro hqueued
    rw [hlife, List.countP_append, List.countP_singleton, if_neg (by simp [he.begins]),
      h.unbegun hqueued]
  · intro e' he' g hg
    rw [hlife, List.mem_append, List.mem_singleton] at he'
    rcases he' with he' | rfl
    · exact h.generation e' he' g hg
    · rw [he.redispatch] at hg
      cases hg
  · rintro ⟨e', he', hend⟩
    rw [hlife, List.mem_append, List.mem_singleton] at he'
    rcases he' with he' | rfl
    · exact h.ended ⟨e', he', hend⟩
    · rw [he.ends] at hend
      cases hend
  · intro w k p hlatest
    rw [latest_snoc_none (creationOf_isSome he.creates)] at hlatest
    exact h.request w k p hlatest

section Rows

variable [Clock T] {host : Host P} {config : ForgeRequestLedgerConfig T}

/-! ### What a call does to the row it changes -/

variable {row row' : Row T} {answer : Answer T} {call : Call T P} {q : Ledger T}

theorem reconciled_generation {now : T} : (row.reconciled now).generation = row.generation := by
  unfold Row.reconciled
  split <;> rfl

theorem reconciled_of_terminal {now : T} (h : row.state.terminal = true) :
    row.reconciled now = row := by
  unfold Row.reconciled
  rw [if_neg]
  rintro ⟨hrun, -⟩
  rw [hrun] at h
  cases h

theorem Change.record (h : Change host config q call answer row row') :
    ∀ record, answer.record = some record → record = row'.record := by
  intro record hrecord
  cases h with
  | begun | renewed => simp [Answer.record] at hrecord
  | retried | redispatched | finished | rejected | got | attached =>
    exact (Option.some.inj hrecord).symm

theorem Change.creates (h : Change host config q call answer row row') (job : String) :
    creates job (call, .ok answer) = false := by
  cases h <;> rfl

theorem Change.begins (h : Change host config q call answer row row')
    (hb : begins job (call, .ok answer) = true) :
    job = row.jobId ∧ row.state = .queued ∧ row'.state = .running := by
  cases h with
  | @begun lease _ _ _ _ hlease =>
    have hid : strip lease.jobId = job := by simpa [ForgeLedger.begins] using hb
    exact ⟨hid.symm.trans hlease.id.symm, hlease.state, rfl⟩
  | @finished call => cases call <;> simp [ForgeLedger.begins] at hb
  | _ => simp [ForgeLedger.begins] at hb

theorem Change.redispatch (h : Change host config q call answer row row') {g : Nat}
    (hg : redispatchOf job (call, .ok answer) = some g) : g = row'.generation := by
  cases h with
  | redispatched _ _ _ _ _ hrow' =>
    simp only [redispatchOf, Option.map_some] at hg
    split_ifs at hg
    rw [hrow']
    exact (Option.some.inj hg).symm
  | retried =>
    simp only [redispatchOf, Option.map_none] at hg
    split_ifs at hg
  | _ => simp [redispatchOf] at hg

theorem Change.generation_le (h : Change host config q call answer row row') :
    row.generation ≤ row'.generation := by
  cases h with
  | retried | got => exact le_of_eq reconciled_generation.symm
  | redispatched _ _ _ _ _ hrow' =>
    rw [hrow']
    exact Nat.le_succ _
  | renewed _ _ hrow' => rcases hrow' with rfl | rfl <;> exact Nat.le_refl _
  | begun | finished | rejected | attached => exact Nat.le_refl _

/-- **Terminal states are never left.** -/
theorem Change.terminal (h : Change host config q call answer row row')
    (hterm : row.state.terminal = true) :
    row'.state = row.state := by
  cases h with
  | retried | got => exact congrArg (·.state) (reconciled_of_terminal hterm)
  | redispatched _ _ _ hqueued =>
    rw [hqueued] at hterm
    cases hterm
  | begun _ hlease | renewed _ hlease | finished _ _ hlease | rejected _ hlease =>
    rw [hlease.state] at hterm
    cases hterm
  | attached => rfl

theorem Change.queued (h : Change host config q call answer row row')
    (hqueued : row'.state = .queued) :
    row.state = .queued := by
  cases h with
  | retried =>
    have hself : row.reconciled _ = row := reconciled_of_queued hqueued
    rw [← hself]
    exact hqueued
  | got =>
    have hself := reconciled_of_queued hqueued
    rw [← hself]
    exact hqueued
  | redispatched _ _ _ h => exact h
  | begun => cases hqueued
  | renewed _ hlease hrow' =>
    rcases hrow' with rfl | rfl
    · exact hqueued
    · exact hqueued
  | @finished _ _ _ _ _ state =>
    have hstate : state.1 = .queued := hqueued
    have hterm := state.2
    rw [hstate] at hterm
    cases hterm
  | rejected => cases hqueued
  | attached => exact hqueued

theorem Told.change (h : Told host trace row)
    (hc : Change host config q call answer row row') (hid : row'.identity = row.identity) :
    Told host (trace ++ [(call, .ok answer)]) row' := by
  have hjob : row'.jobId = row.jobId := congrArg (·.1) hid
  have hlife : life row'.jobId (trace ++ [(call, .ok answer)]) =
      life row.jobId trace ++ [(call, .ok answer)] := by
    rw [hjob]
    exact since_snoc_of_neg (hc.creates _)
  refine ⟨?_, ?_, ?_, ?_⟩
  · intro hqueued
    have hnot : begins row'.jobId (call, .ok answer) = false := by
      by_contra hb
      have hrun := (hc.begins (by simpa using hb)).2.2
      rw [hqueued] at hrun
      cases hrun
    rw [hlife, List.countP_append, List.countP_singleton, if_neg (by simp [hnot]), hjob,
      h.unbegun (hc.queued hqueued)]
  · intro e he g hg
    rw [hlife, List.mem_append, List.mem_singleton] at he
    rcases he with he | rfl
    · rw [hjob] at hg
      exact le_trans (h.generation e he g hg) hc.generation_le
    · exact le_of_eq (hc.redispatch hg)
  · rintro ⟨e, he, hend⟩
    rw [hlife, List.mem_append, List.mem_singleton] at he
    rcases he with he | rfl
    · rw [hjob] at hend
      have hterm := h.ended ⟨e, he, hend⟩
      rw [hc.terminal hterm]
      exact hterm
    · simp only [ends, Option.any_eq_true, Bool.and_eq_true] at hend
      obtain ⟨record, hrecord, -, hterm⟩ := hend
      rwa [hc.record record hrecord] at hterm
  · intro w k p hlatest
    rw [hjob, latest_snoc_none (creationOf_isSome (hc.creates _))] at hlatest
    obtain ⟨⟨root, hw, h1, h2⟩, hpay⟩ := h.request w k p hlatest
    simp only [Row.identity, Prod.mk.injEq] at hid
    refine ⟨⟨root, hw, hid.2.1.trans h1, hid.2.2.1.trans h2⟩, ?_⟩
    rw [hid.2.2.2.1]
    exact hpay

theorem Change.unrelated (h : Change host config q call answer row row')
    (hid : row'.jobId = row.jobId) (hne : job ≠ row.jobId) :
    Unrelated job (call, .ok answer) := by
  refine ⟨h.creates job, ?_, ?_, ?_⟩
  · by_contra hb
    exact hne (h.begins (by simpa using hb)).1
  · cases h with
    | retried => simp [redispatchOf]
    | redispatched _ _ _ _ _ hrow' =>
      have hjob : row'.record.jobId = row.jobId := hid
      simp only [redispatchOf, hjob]
      rw [if_neg]
      rintro ⟨-, heq⟩
      exact hne heq.symm
    | _ => rfl
  · by_contra hend
    rw [Bool.not_eq_false] at hend
    simp only [ends, Option.any_eq_true, Bool.and_eq_true, beq_iff_eq] at hend
    obtain ⟨record, hrecord, hjob, -⟩ := hend
    rw [h.record record hrecord] at hjob
    exact hne (hjob.symm.trans hid)

end Rows

/-! ### Runs -/

theorem inserted_unrelated {s k j t : String} {p : P} {row : Row T} (hq : row.state = .queued)
    (hne : job ≠ row.jobId) :
    Unrelated job (Call.accept w s k p j t c,
      (.ok (.accepted { record := row.record, created := true, dispatchLease := lease }) :
        Except ForgeRequestLedgerError (Answer T))) := by
  refine ⟨?_, rfl, ?_, ?_⟩
  · simpa [creates, Row.record] using hne.symm
  · simp [redispatchOf]
  · simp [ends, Answer.record, Row.record, hq, ForgeRequestState.terminal]

theorem told_inserted {host : Host P} {s k j t : String} {p : P} {row : Row T} (hreq : Requests host w k row)
    (hpay : host.payloadDigest p = .ok row.payloadSha256) :
    Told host (trace ++ [(Call.accept w s k p j t c,
      .ok (.accepted { record := row.record, created := true, dispatchLease := lease }))]) row := by
  have hcreates : creates row.jobId ((Call.accept w s k p j t c, .ok (.accepted
      { record := row.record, created := true, dispatchLease := lease })) : Event T P) = true := by
    simp [creates, Row.record]
  have hlife : since (creates row.jobId) (trace ++ [_]) = [] := since_snoc_of_pos hcreates
  refine ⟨?_, ?_, ?_, ?_⟩
  · intro _
    rw [life, hlife]
    rfl
  · intro e he
    rw [life, hlife] at he
    cases he
  · rintro ⟨e, he, -⟩
    rw [life, hlife] at he
    cases he
  · intro w' k' p' hlatest
    have hcreation : creationOf row.jobId ((Call.accept w s k p j t c, .ok (.accepted
        { record := row.record, created := true, dispatchLease := lease })) : Event T P) =
          some (w, k, p) := if_pos ⟨rfl, rfl⟩
    rw [latest_snoc_some hcreation] at hlatest
    obtain ⟨rfl, rfl, rfl⟩ : w = w' ∧ k = k' ∧ p = p' := by simpa using hlatest
    exact ⟨hreq, hpay⟩

section Runs

variable [Clock T] {host : Host P} {config : ForgeRequestLedgerConfig T}

/-- Every run of the ledger: any calls by any processes, from an empty table. -/
abbrev History (host : Host P) (config : ForgeRequestLedgerConfig T)
    (trace : List (Event T P)) (q : Ledger T) : Prop :=
  Run (Commit (exec host config)) Ledger.empty trace q

/-- What is true after every run. -/
structure Sound (host : Host P) (config : ForgeRequestLedgerConfig T) (trace : List (Event T P))
    (q : Ledger T) : Prop where
  clean : Clean q
  told : ∀ r ∈ q.rows, Told host trace r
  begun : ∀ job, (life job trace).countP (begins job) ≤ 1
  room : q.rows.length ≤ config.maxRecords

theorem Effect.begun {call : Call T P} {answer : Answer T} {q q' : Ledger T} (h : Effect host config q q' call answer)
    (hq : Sound host config trace q) (job : String) :
    (life job (trace ++ [(call, .ok answer)])).countP (begins job) ≤ 1 := by
  by_cases hc : creates job (call, .ok answer) = true
  · rw [life, since_snoc_of_pos hc]
    exact Nat.zero_le _
  · rw [life, since_snoc_of_neg (by simpa using hc), List.countP_append, List.countP_singleton]
    split
    · rename_i hb
      cases h with
      | changed hrep hchange =>
        -- the row was queued, so its life has no beginning yet
        obtain ⟨rfl, hqueued, -⟩ := hchange.begins hb
        have hzero := (hq.told _ hrep.mem).unbegun hqueued
        rw [life] at hzero
        omega
      | missing | inserted => simp [begins] at hb
    · exact hq.begun job

variable {q : Ledger T} {trace : List (Event T P)}

theorem Effect.sound {call : Call T P} {answer : Answer T} {q' : Ledger T}
    (h : Effect host config q q' call answer) (hq : Sound host config trace q) :
    Sound host config (trace ++ [(call, .ok answer)]) q' := by
  have hbegun := h.begun hq
  cases h with
  | missing h =>
    subst h
    exact ⟨hq.clean, fun r hr => (hq.told r hr).snoc ⟨rfl, rfl, rfl, rfl⟩, hbegun, hq.room⟩
  | @changed _ _ row row' hrep hchange =>
    refine ⟨?_, ?_, hbegun, hrep.length ▸ hq.room⟩
    · intro r hr
      rcases (hrep.rows r).mp hr with ⟨hr, -⟩ | rfl
      · exact hq.clean r hr
      · rw [hrep.jobId]
        exact hq.clean row hrep.mem
    · intro r hr
      rcases (hrep.rows r).mp hr with ⟨hr, hne⟩ | rfl
      · exact (hq.told r hr).snoc (hchange.unrelated hrep.jobId hne)
      · exact (hq.told row hrep.mem).change hchange hrep.identity
  | @inserted w s k j t root job sha token p c now q₁ row _ _ hprune hclean hfresh hrow hw hpay
      hrows =>
      have hjob : row.jobId = job := by rw [hrow]; rfl
      refine ⟨?_, ?_, hbegun, ?_⟩
      · intro r hr
        rw [hrows, List.mem_append, List.mem_singleton] at hr
        rcases hr with hr | rfl
        · exact hq.clean r (hprune.sub r hr)
        · rw [hjob, hclean]
      · intro r hr
        rw [hrows, List.mem_append, List.mem_singleton] at hr
        rcases hr with hr | rfl
        · refine (hq.told r (hprune.sub r hr)).snoc (inserted_unrelated ?_ ?_)
          · rw [hrow]
            rfl
          · rw [hjob]
            exact hfresh r hr
        · refine told_inserted ⟨root, hw, ?_, ?_⟩ ?_
          · rw [hrow]
            rfl
          · rw [hrow]
            rfl
          · rw [hpay, hrow]
            rfl
      · rw [hrows, List.length_append, List.length_singleton]
        exact hprune.room

theorem History.sound (h : History host config trace q) : Sound host config trace q := by
  refine Run.history (I := Sound host config) ?_ ?_ h
  · refine ⟨?_, ?_, fun _ => Nat.zero_le _, Nat.zero_le _⟩
    · intro r hr
      cases hr
    · intro r hr
      cases hr
  · intro trace q l q' _ hq hstep
    cases hstep with
    | ok hexec => exact (exec_effect hq.clean hexec).sound hq
    | @error call e _ =>
      have hunrelated : ∀ job, Unrelated job ((call, .error e) : Event T P) := by
        intro job
        refine ⟨rfl, ?_, rfl, rfl⟩
        cases call <;> rfl
      refine ⟨hq.clean, fun r hr => (hq.told r hr).snoc (hunrelated _), ?_, hq.room⟩
      intro job
      rw [life, since_snoc_of_neg (hunrelated job).creates, List.countP_append,
        List.countP_singleton, if_neg (by simp [(hunrelated job).begins])]
      exact hq.begun job

end Runs

end AlysisCode.ForgeLedger
