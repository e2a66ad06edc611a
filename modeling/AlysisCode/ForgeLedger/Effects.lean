/-
The effect of a successful call on the ledger.

A call that succeeds leaves the table alone, replaces one row, or prunes and inserts
one.  `Change` lists what can become of the replaced row, with the checks that were
passed; `exec_effect` is the inversion every later proof starts from.

Leases name their job as the caller spells it: `_require_lease` strips that name before
it looks the row up, the `UPDATE` after it does not.  Stored job names are stripped
(`Clean`), so a lease with a padded name reaches its row in the check and no row in the
statement.
-/
import AlysisCode.ForgeLedger.Basic

namespace AlysisCode.ForgeLedger

open Table Runs

variable {T P : Type}

/-- A public call with its arguments, the clock reading it takes and the identifiers it
draws. -/
inductive Call (T P : Type) where
  | accept (workspace : Except ForgeRequestLedgerError String) (sessionId idempotencyKey : String)
      (payload : P) (freshJob freshToken : String) (clock : Option T)
  | begin (lease : ForgeLease T) (clock : Option T)
  | renew (lease : ForgeLease T) (clock : Option T)
  | complete (lease : ForgeLease T) (planId : String) (clock : Option T)
  | fail (lease : ForgeLease T) (errorCode : String) (clock : Option T)
  | cancel (lease : ForgeLease T) (errorCode : String) (clock : Option T)
  | reject (lease : ForgeLease T) (errorCode : String) (clock : Option T)
  | get (jobId : String) (clock : Option T)
  | attach (jobId sessionId : String) (workspace : Except ForgeRequestLedgerError String)
      (clock : Option T)

/-- What a call answers. -/
inductive Answer (T : Type) where
  | accepted (acceptance : ForgeRequestAcceptance T)
  | began (lease : ForgeLease T)
  | renewed (lease : ForgeLease T)
  | finished (record : ForgeRequestRecord T)
  | got (record : Option (ForgeRequestRecord T))
  | attached (record : ForgeRequestRecord T)
  deriving DecidableEq

/-- A call and how it ended. -/
abbrev Event (T P : Type) := Call T P × Except ForgeRequestLedgerError (Answer T)

def Call.presents : Call T P → Option (ForgeLease T × Option T)
  | .begin lease c | .renew lease c | .complete lease _ c | .fail lease _ c
  | .cancel lease _ c | .reject lease _ c => some (lease, c)
  | _ => none

def Call.clock : Call T P → Option T
  | .accept _ _ _ _ _ _ c | .begin _ c | .renew _ c | .complete _ _ c | .fail _ _ c
  | .cancel _ _ c | .reject _ _ c | .get _ c | .attach _ _ _ c => c

def tag {α : Type} (wrap : α → Answer T) (r : Except ForgeRequestLedgerError (α × Ledger T)) :
    Except ForgeRequestLedgerError (Answer T × Ledger T) := do
  let (a, q') ← r
  .ok (wrap a, q')

variable {q' q : Ledger T} {row row' : Row T} {f : Row T → Row T}

theorem tag_ok {α : Type} {wrap : α → Answer T} {r : Except ForgeRequestLedgerError (α × Ledger T)}
    {answer : Answer T} (h : tag wrap r = .ok (answer, q')) :
    ∃ a, answer = wrap a ∧ r = .ok (a, q') := by
  obtain ⟨⟨a, q₁⟩, hr, h⟩ := bind_eq_ok.mp h
  obtain ⟨rfl, rfl⟩ : wrap a = answer ∧ q₁ = q' := by simpa using h
  exact ⟨a, rfl, hr⟩

section Exec

variable [Clock T] (host : Host P) (config : ForgeRequestLedgerConfig T)

def exec (call : Call T P) (q : Ledger T) : Except ForgeRequestLedgerError (Answer T × Ledger T) :=
  match call with
  | .accept w s k p j t c => tag .accepted (accept host config w s k p j t c q)
  | .begin l c => tag .began (begin host config l c q)
  | .renew l c => tag .renewed (renew host config l c q)
  | .complete l p c => tag .finished (complete host l p c q)
  | .fail l e c => tag .finished (fail host l e c q)
  | .cancel l e c => tag .finished (cancel host l e c q)
  | .reject l e c => tag .finished (reject host l e c q)
  | .get j c => tag .got (get j c q)
  | .attach j s w c => tag .attached (attach host j s w c q)

end Exec

/-! ### Replacing a row -/

theorem Ledger.eq_of_jobId (q : Ledger T) {a b : Row T} (ha : a ∈ q.rows) (hb : b ∈ q.rows)
    (h : a.jobId = b.jobId) : a = b :=
  List.inj_on_of_nodup_map q.jobId_unique ha hb h

theorem rowByJob_ok {jobId : String} (h : q.rowByJob jobId = .ok row) :
    row ∈ q.rows ∧ row.jobId = jobId := by
  unfold Ledger.rowByJob at h
  split at h
  · cases h
  · rename_i r hfind
    cases h
    exact ⟨List.mem_of_find?_eq_some hfind, by simpa using List.find?_some hfind⟩

/-- `q'` is `q` with `row'` in the place of `row`. -/
structure Replaced (q q' : Ledger T) (row row' : Row T) : Prop where
  mem : row ∈ q.rows
  identity : row'.identity = row.identity
  rows : ∀ r, r ∈ q'.rows ↔ (r ∈ q.rows ∧ r.jobId ≠ row.jobId) ∨ r = row'
  length : q'.rows.length = q.rows.length

theorem Replaced.jobId (h : Replaced q q' row row') :
    row'.jobId = row.jobId := congrArg (·.1) h.identity

theorem Replaced.mem' (h : Replaced q q' row row') : row' ∈ q'.rows := (h.rows row').mpr (.inr rfl)

theorem Replaced.refl (h : row ∈ q.rows) : Replaced q q row row := by
  refine ⟨h, rfl, ?_, rfl⟩
  intro r
  constructor
  · intro hr
    by_cases hid : r.jobId = row.jobId
    · exact .inr (q.eq_of_jobId hr h hid)
    · exact .inl ⟨hr, hid⟩
  · rintro (⟨hr, -⟩ | rfl)
    · exact hr
    · exact h

theorem Replaced.trans {q₁ q₂ : Ledger T} {row₁ row₂ : Row T} (h1 : Replaced q q₁ row row₁)
    (h2 : Replaced q₁ q₂ row₁ row₂) : Replaced q q₂ row row₂ := by
  refine ⟨h1.mem, h2.identity.trans h1.identity, ?_, h2.length.trans h1.length⟩
  intro r
  rw [h2.rows r, h1.rows r, h1.jobId]
  constructor
  · rintro (⟨⟨hr, hne⟩ | rfl, hne'⟩ | rfl)
    · exact .inl ⟨hr, hne⟩
    · exact absurd h1.jobId hne'
    · exact .inr rfl
  · rintro (⟨hr, hne⟩ | rfl)
    · exact .inl ⟨.inl ⟨hr, hne⟩, hne⟩
    · exact .inr rfl

variable {p : Row T → Bool} {r : Row T} {name : String} {i : ∀ r, (f r).identity = r.identity}

/-- An update that can select only `row` replaces it by what it makes of it. -/
theorem replaced_update (hrow : row ∈ q.rows)
    (hp : ∀ r ∈ q.rows, p r = true → r.jobId = row.jobId) :
    Replaced q (q.update p f i) row (if p row then f row else row) := by
  refine ⟨hrow, ?_, ?_, ?_⟩
  · split
    · exact i row
    · rfl
  · intro r
    constructor
    · intro hr
      rcases of_mem_updateWhere hr with ⟨hr, hnot⟩ | ⟨a, ha, hsel, rfl⟩
      · by_cases hid : r.jobId = row.jobId
        · obtain rfl := q.eq_of_jobId hr hrow hid
          exact .inr (if_neg hnot).symm
        · exact .inl ⟨hr, hid⟩
      · obtain rfl := q.eq_of_jobId ha hrow (hp a ha hsel)
        exact .inr (if_pos hsel).symm
    · rintro (⟨hr, hne⟩ | rfl)
      · exact mem_updateWhere_of_neg hr fun hsel => hne (hp r hr hsel)
      · exact mem_updateWhere.mpr ⟨row, hrow, rfl⟩
  · exact length_updateWhere p f q.rows

theorem Replaced.rowByJob (h : Replaced q q' row row') (hname : name = row.jobId)
    (hr : q'.rowByJob name = .ok r) :
    r = row' := by
  obtain ⟨hmem, hid⟩ := rowByJob_ok hr
  exact q'.eq_of_jobId hmem h.mem' (hid.trans (hname.trans h.jobId.symm))

theorem replaced_updateJob (hrow : row ∈ q.rows) :
    Replaced q (q.update (·.jobId == row.jobId) f i) row (f row) := by
  have h := replaced_update (p := (·.jobId == row.jobId)) (f := f) (i := i) hrow
    (fun r _ hr => by simpa using hr)
  rwa [if_pos (by simp)] at h

/-! ### Stored job names -/

/-- Every stored job name is its own stripped form. -/
def Clean (q : Ledger T) : Prop := ∀ r ∈ q.rows, strip r.jobId = r.jobId

theorem identifier_ok {value label v : String} {n : Nat} (h : identifier value label n = .ok v) :
    v = strip value ∧ strip v = v := by
  obtain ⟨hnot, h⟩ := guard_eq_ok.mp h
  have hv : strip value = v := by simpa using h
  simp only [Bool.not_eq_true, Bool.or_eq_false_iff, Bool.not_eq_false'] at hnot
  exact ⟨hv.symm, hv ▸ strip_of_matches hnot.2⟩

theorem replaced_updateNamed (hq : Clean q) (hrow : row ∈ q.rows) (hname : row.jobId = strip name) :
    Replaced q (q.update (·.jobId == name) f i) row (if row.jobId = name then f row else row) := by
  have hp : ∀ r ∈ q.rows, (r.jobId == name) = true → r.jobId = row.jobId := by
    intro r hr hsel
    have hid : r.jobId = name := by simpa using hsel
    rw [hname, ← hid]
    exact (hq r hr).symm
  simpa using replaced_update (f := f) (i := i) hrow hp

theorem Replaced.rowNamed (h : Replaced q q' row row') (hq : Clean q)
    (hname : row.jobId = strip name) (hr : q'.rowByJob name = .ok r) : row.jobId = name := by
  obtain ⟨hmem, hid⟩ := rowByJob_ok hr
  rcases (h.rows r).mp hmem with ⟨hmem, -⟩ | rfl
  · rw [hname, ← hid, hq r hmem]
  · rw [← h.jobId, hid]

theorem mem_delete : r ∈ (q.delete p).rows ↔ r ∈ q.rows ∧ p r = false := by
  simp [Ledger.delete, List.mem_filter]

/-! ### The checks, read backwards -/

section Effects

variable [Clock T] {host : Host P} {config : ForgeRequestLedgerConfig T}

/-- The checks of `_require_lease`, passed. -/
structure Leased (host : Host P) (q : Ledger T) (lease : ForgeLease T)
    (expected : ForgeRequestState) (now : T) (row : Row T) : Prop where
  mem : row ∈ q.rows
  id : row.jobId = strip lease.jobId
  state : row.state = expected
  generation : row.generation = lease.generation
  token : row.leaseTokenSha256.getD "" = host.sha256 lease.token
  live : now < row.expiry

variable {lease : ForgeLease T} {now : T} {q q' : Ledger T} {row : Row T} {c : Option T}
  {w : Except ForgeRequestLedgerError String} {record : ForgeRequestRecord T}

theorem requireLease_ok {expected : ForgeRequestState}
    (h : requireLease host lease.jobId lease.generation lease.token expected now q = .ok row) :
    Leased host q lease expected now row := by
  obtain ⟨clean, hclean, h⟩ := bind_eq_ok.mp h
  obtain ⟨r, hr, h⟩ := bind_eq_ok.mp h
  obtain ⟨hnot, h⟩ := guard_eq_ok.mp h
  cases h
  obtain ⟨hmem, hid⟩ := rowByJob_ok hr
  simp only [not_or, not_not, not_le] at hnot
  obtain ⟨hstate, hgen, htok, hlive⟩ := hnot
  exact ⟨hmem, hid.trans (identifier_ok hclean).1, hstate, hgen, htok, hlive⟩

/-- What `_reconcile_expired_running` makes of a row. -/
def Row.reconciled (now : T) (r : Row T) : Row T :=
  if r.state = .running ∧ r.leaseExpiresAt.any (· ≤ now) then r.expire now else r

theorem expiry_le_of_any (h : (row.leaseExpiresAt.any fun e => decide (e ≤ now)) = true) :
    row.expiry ≤ now := by
  obtain ⟨e, he, hle⟩ := (Option.any_eq_true _ _).mp h
  unfold Row.expiry
  rw [he]
  simpa using hle

theorem reconcile_ok {r : Row T} (hrow : row ∈ q.rows)
    (h : reconcileExpiredRunning row now q = .ok (r, q')) :
    r = row.reconciled now ∧ Replaced q q' row (row.reconciled now) := by
  unfold reconcileExpiredRunning at h
  by_cases hrun : row.state = .running
  · rw [if_neg (not_not.mpr hrun)] at h
    by_cases hlive : now < row.expiry
    · rw [if_pos hlive] at h
      obtain ⟨rfl, rfl⟩ : row = r ∧ q = q' := by simpa using h
      have hself : row.reconciled now = row := by
        unfold Row.reconciled
        rw [if_neg]
        rintro ⟨-, hexp⟩
        exact absurd hlive (not_lt.mpr (expiry_le_of_any hexp))
      rw [hself]
      exact ⟨rfl, Replaced.refl hrow⟩
    · rw [if_neg hlive] at h
      obtain ⟨r', hr', h⟩ := bind_eq_ok.mp h
      obtain ⟨rfl, rfl⟩ : r' = r ∧ _ = q' := by simpa using h
      have hrep := replaced_update (f := Row.expire now) (i := fun _ => rfl)
        (p := fun r => r.jobId == row.jobId && r.state == .running &&
          r.leaseExpiresAt.any (· ≤ now)) hrow
        (fun r _ hr => by
          simp only [Bool.and_eq_true, beq_iff_eq] at hr
          exact hr.1.1)
      have hsel : (if (row.jobId == row.jobId && row.state == .running &&
          row.leaseExpiresAt.any (· ≤ now)) = true then row.expire now else row) =
            row.reconciled now := by
        simp [Row.reconciled, hrun]
      rw [hsel] at hrep
      exact ⟨hrep.rowByJob rfl hr', hrep⟩
  · rw [if_pos hrun] at h
    obtain ⟨rfl, rfl⟩ : row = r ∧ q = q' := by simpa using h
    have hself : row.reconciled now = row := by
      unfold Row.reconciled
      rw [if_neg fun hc => hrun hc.1]
    rw [hself]
    exact ⟨rfl, Replaced.refl hrow⟩

/-- What pruning may have removed. -/
structure Pruned (config : ForgeRequestLedgerConfig T) (q q₁ : Ledger T) : Prop where
  sub : ∀ r ∈ q₁.rows, r ∈ q.rows
  kept : ∀ r ∈ q.rows, r.state.terminal = false → r ∈ q₁.rows
  room : q₁.rows.length < config.maxRecords

/-- **Pruning removes terminal rows only**, and leaves room for one more. -/
theorem pruneForInsert_ok {q₂ : Ledger T} (h : pruneForInsert config now q = .ok q₂) :
    Pruned config q q₂ := by
  unfold pruneForInsert at h
  set q₁ := q.delete fun r => r.state.terminal &&
    r.terminalAt.any (· < now - config.terminalRetentionSeconds) with _
  obtain ⟨hroom, h⟩ := guard_eq_ok.mp h
  rw [Except.ok.injEq] at h
  have hkept₁ : ∀ r ∈ q.rows, r.state.terminal = false → r ∈ q₁.rows := by
    intro r hr hlive
    exact mem_delete.mpr ⟨hr, by simp [hlive]⟩
  split at h
  · rename_i hover
    rw [if_pos hover] at hroom
    rw [h] at hroom
    refine ⟨?_, ?_, Nat.lt_of_not_le hroom⟩
    · intro r hr
      rw [← h] at hr
      exact (mem_delete.mp (mem_delete.mp hr).1).1
    · intro r hr hlive
      have hr₁ := hkept₁ r hr hlive
      rw [← h]
      refine mem_delete.mpr ⟨hr₁, ?_⟩
      -- the victims are terminal rows, and no other row has a victim's name
      by_contra hvictim
      rw [Bool.not_eq_false, List.contains_iff_mem, List.mem_map] at hvictim
      obtain ⟨v, hv, hid⟩ := hvictim
      have hv' := (List.perm_insertionSort _ _).mem_iff.mp (List.mem_of_mem_take hv)
      obtain ⟨hvmem, hterm⟩ := List.mem_filter.mp hv'
      rw [q₁.eq_of_jobId hvmem hr₁ hid, hlive] at hterm
      cases hterm
  · rename_i hover
    rw [if_neg hover] at hroom
    rw [h] at hroom
    refine ⟨?_, ?_, Nat.lt_of_not_le hroom⟩
    · intro r hr
      rw [← h] at hr
      exact (mem_delete.mp hr).1
    · intro r hr hlive
      rw [← h]
      exact hkept₁ r hr hlive

/-! ### What can become of a row -/

def Requests (host : Host P) (workspace : Except ForgeRequestLedgerError String) (key : String)
    (r : Row T) : Prop :=
  ∃ root, workspace = .ok root ∧ r.workspaceSha256 = host.sha256 (host.normcase root) ∧
    r.idempotencySha256 = host.sha256 (strip key)

inductive Change (host : Host P) (config : ForgeRequestLedgerConfig T) (q : Ledger T) :
    Call T P → Answer T → Row T → Row T → Prop
  | retried {w : Except ForgeRequestLedgerError String} {s k j t : String} {p : P}
      {c : Option T} {now : T} {row : Row T} (hclock : readClock c = .ok now)
      (hreq : Requests host w k row) (hpay : host.payloadDigest p = .ok row.payloadSha256) :
      Change host config q (.accept w s k p j t c)
        (.accepted { record := ((row.reconciled now).resession (strip s) now).record,
                     created := false })
        row ((row.reconciled now).resession (strip s) now)
  | redispatched {w : Except ForgeRequestLedgerError String} {s k j t : String} {p : P}
      {c : Option T} {now : T} {row row' : Row T} (hclock : readClock c = .ok now)
      (hreq : Requests host w k row) (hpay : host.payloadDigest p = .ok row.payloadSha256)
      (hqueued : row.state = .queued) (hexp : row.expiry ≤ now)
      (hrow' : row' = (row.resession (strip s) now).redispatch (row.generation + 1)
        (host.sha256 (strip t)) (now + config.leaseSeconds) now) :
      Change host config q (.accept w s k p j t c) (.accepted
          { record := row'.record, created := false,
            dispatchLease := some { jobId := row.jobId, generation := row.generation + 1,
                                    expiresAt := now + config.leaseSeconds, token := strip t } })
        row row'
  | begun {lease : ForgeLease T} {c : Option T} {now : T} {row : Row T}
      (hclock : readClock c = .ok now) (hlease : Leased host q lease .queued now row) :
      Change host config q (.begin lease c)
        (.began { lease with expiresAt := now + config.leaseSeconds })
        row (row.start (now + config.leaseSeconds) now)
  | renewed {lease : ForgeLease T} {c : Option T} {now : T} {row row' : Row T}
      (hclock : readClock c = .ok now) (hlease : Leased host q lease .running now row)
      (hrow' : row' = row.renew (now + config.leaseSeconds) now ∨ row' = row) :
      Change host config q (.renew lease c)
        (.renewed { lease with expiresAt := now + config.leaseSeconds }) row row'
  | finished {call : Call T P} {lease : ForgeLease T} {c : Option T} {now : T}
      {row : Row T} {state : { s : ForgeRequestState // s.terminal = true }}
      {planId code : Option String} (hcall : call.presents = some (lease, c))
      (hclock : readClock c = .ok now) (hlease : Leased host q lease .running now row) :
      Change host config q call (.finished (row.finish state planId code now).record)
        row (row.finish state planId code now)
  | rejected {lease : ForgeLease T} {e code : String} {c : Option T} {now : T}
      {row : Row T} (hclock : readClock c = .ok now)
      (hlease : Leased host q lease .queued now row) :
      Change host config q (.reject lease e c) (.finished (row.reject code now).record)
        row (row.reject code now)
  | got {j : String} {c : Option T} {now : T} {row : Row T} (hclock : readClock c = .ok now) :
      Change host config q (.get j c) (.got (some (row.reconciled now).record))
        row (row.reconciled now)
  | attached {j s : String} {w : Except ForgeRequestLedgerError String} {c : Option T} {now : T}
      {row : Row T} (hclock : readClock c = .ok now) :
      Change host config q (.attach j s w c) (.attached (row.attach (strip s) now).record)
        row (row.attach (strip s) now)

inductive Effect (host : Host P) (config : ForgeRequestLedgerConfig T) (q q' : Ledger T) :
    Call T P → Answer T → Prop
  | missing {j : String} {c : Option T} (h : q' = q) : Effect host config q q' (.get j c) (.got none)
  | changed {call : Call T P} {answer : Answer T} {row row' : Row T}
      (h : Replaced q q' row row') (hchange : Change host config q call answer row row') :
      Effect host config q q' call answer
  | inserted {w : Except ForgeRequestLedgerError String} {s k j t root job payloadSha256 token :
      String} {p : P} {c : Option T} {now : T} {q₁ : Ledger T} {row : Row T}
      (hclock : readClock c = .ok now) (hfree : ∀ r ∈ q.rows, ¬ Requests host w k r)
      (hprune : Pruned config q q₁) (hclean : strip job = job)
      (hfresh : ∀ r ∈ q₁.rows, r.jobId ≠ job)
      (hrow : row = newRow job (host.sha256 (host.normcase root)) root (strip s)
        (host.sha256 (strip k)) payloadSha256 (host.sha256 token) (now + config.leaseSeconds) now)
      (hw : w = .ok root) (hpay : host.payloadDigest p = .ok payloadSha256)
      (hrows : q'.rows = q₁.rows ++ [row]) :
      Effect host config q q' (.accept w s k p j t c)
        (.accepted { record := row.record, created := true,
                     dispatchLease := some { jobId := job, generation := 1,
                                             expiresAt := now + config.leaseSeconds, token } })

/-! ### Each operation's effect -/

theorem reconciled_of_queued (h : (row.reconciled now).state = .queued) :
    row.reconciled now = row := by
  unfold Row.reconciled at h ⊢
  split at h
  · cases h
  · rename_i hnot
    rw [if_neg hnot]

variable {call : Call T P} {s j : String} {acceptance : ForgeRequestAcceptance T}

theorem acceptPrior_effect {k t sha : String} {p : P} (hrow : row ∈ q.rows)
    (hclock : readClock c = .ok now) (hreq : Requests host w k row)
    (hpay : host.payloadDigest p = .ok sha)
    (h : acceptPrior host config (strip s) sha t now row q = .ok (acceptance, q')) :
    Effect host config q q' (.accept w s k p j t c) (.accepted acceptance) := by
  obtain ⟨hsame, h⟩ := guard_eq_ok.mp h
  rw [← not_not.mp hsame] at hpay
  obtain ⟨⟨r₁, q₁⟩, hrec, h⟩ := bind_eq_ok.mp h
  obtain ⟨rfl, hrep₁⟩ := reconcile_ok hrow hrec
  obtain ⟨r₂, hr₂, h⟩ := bind_eq_ok.mp h
  have hrep₂ := hrep₁.trans (replaced_updateJob (f := Row.resession (strip s) now)
    (i := fun _ => rfl) hrep₁.mem')
  obtain rfl := hrep₂.rowByJob hrep₁.jobId hr₂
  by_cases hdisp : (row.reconciled now).state = .queued ∧
      ((row.reconciled now).resession (strip s) now).expiry ≤ now
  · rw [if_pos hdisp] at h
    obtain ⟨token, htok, h⟩ := bind_eq_ok.mp h
    obtain rfl := (identifier_ok htok).1
    obtain ⟨r₃, hr₃, h⟩ := bind_eq_ok.mp h
    obtain ⟨rfl, rfl⟩ : _ = acceptance ∧ _ = q' := by simpa using h
    -- the row is queued, so reconciling left it alone and the dispatch update selects it
    have hself := reconciled_of_queued hdisp.1
    have hqueued : row.state = .queued := hself ▸ hdisp.1
    have hexp : row.expiry ≤ now := by
      have := hdisp.2
      rwa [hself] at this
    have hrep₃ := replaced_update
      (f := Row.redispatch (((row.reconciled now).resession (strip s) now).generation + 1)
        (host.sha256 (strip t)) (now + config.leaseSeconds) now) (i := fun _ => rfl)
      (p := fun r => r.jobId == ((row.reconciled now).resession (strip s) now).jobId &&
        r.state == .queued) hrep₂.mem'
      (fun r _ hr => by
        simp only [Bool.and_eq_true, beq_iff_eq] at hr
        exact hr.1)
    rw [if_pos (by simpa [Row.resession] using hdisp.1)] at hrep₃
    obtain rfl := hrep₃.rowByJob rfl hr₃
    refine .changed (hrep₂.trans hrep₃) ?_
    rw [hself]
    exact .redispatched hclock hreq hpay hqueued hexp rfl
  · rw [if_neg hdisp] at h
    obtain ⟨rfl, rfl⟩ : _ = acceptance ∧ _ = q' := by simpa using h
    exact .changed hrep₂ (.retried hclock hreq hpay)

theorem accept_effect {k t : String} {p : P}
    (h : accept host config w s k p j t c q = .ok (acceptance, q')) :
    Effect host config q q' (.accept w s k p j t c) (.accepted acceptance) := by
  obtain ⟨root, hw, h⟩ := bind_eq_ok.mp h
  obtain ⟨s', hs, h⟩ := bind_eq_ok.mp h
  obtain ⟨k', hk, h⟩ := bind_eq_ok.mp h
  obtain ⟨sha, hpay, h⟩ := bind_eq_ok.mp h
  obtain ⟨now, hclock, h⟩ := bind_eq_ok.mp h
  rw [(identifier_ok hs).1, (identifier_ok hk).1] at h
  simp only at h
  split at h
  · rename_i row hfind
    have hsel := List.find?_some hfind
    simp only [Bool.and_eq_true, beq_iff_eq] at hsel
    exact acceptPrior_effect (List.mem_of_find?_eq_some hfind) hclock ⟨root, hw, hsel⟩ hpay h
  · rename_i hnone
    simp only [bind_eq_ok] at h
    obtain ⟨job, hjob, q₁, hprune, token, -, h⟩ := h
    have hfree : ∀ r ∈ q.rows, ¬ Requests host w k r := by
      rintro r hr ⟨root', hw', h1, h2⟩
      obtain rfl : root = root' := by simpa using hw.symm.trans hw'
      have := List.find?_eq_none.mp hnone r hr
      simp [h1, h2] at this
    unfold Ledger.insert at h
    split at h
    · cases h
    · rename_i q₂ hins
      split at hins
      · rename_i huniq
        obtain ⟨rfl, rfl⟩ : _ = acceptance ∧ q₂ = q' := by simpa using h
        rw [Option.some.injEq] at hins
        refine .inserted hclock hfree (pruneForInsert_ok hprune) (identifier_ok hjob).2 ?_ rfl hw
          hpay (by rw [← hins])
        intro r hr hid
        have hnodup := huniq.1
        rw [List.map_append, List.nodup_append] at hnodup
        exact hnodup.2.2 _ (List.mem_map_of_mem hr) _ (List.mem_singleton.mpr rfl) hid
      · cases hins

theorem begin_effect {worker : ForgeLease T} (h : begin host config lease c q = .ok (worker, q')) :
    Effect host config q q' (.begin lease c : Call T P) (.began worker) := by
  obtain ⟨now, hclock, h⟩ := bind_eq_ok.mp h
  obtain ⟨row, hrow, h⟩ := bind_eq_ok.mp h
  obtain ⟨rfl, rfl⟩ : _ = worker ∧ _ = q' := by simpa using h
  have hlease := requireLease_ok hrow
  exact .changed (replaced_updateJob hlease.mem) (.begun hclock hlease)

theorem renew_effect {renewed : ForgeLease T} (hq : Clean q)
    (h : renew host config lease c q = .ok (renewed, q')) :
    Effect host config q q' (.renew lease c : Call T P) (.renewed renewed) := by
  obtain ⟨now, hclock, h⟩ := bind_eq_ok.mp h
  obtain ⟨row, hrow, h⟩ := bind_eq_ok.mp h
  obtain ⟨rfl, rfl⟩ : _ = renewed ∧ _ = q' := by simpa using h
  have hlease := requireLease_ok hrow
  refine .changed (replaced_updateNamed hq hlease.mem hlease.id) (.renewed hclock hlease ?_)
  split
  · exact .inl rfl
  · exact .inr rfl

theorem finish_effect {state : { s : ForgeRequestState // s.terminal = true }}
    {planId code : Option String} (hq : Clean q) (hcall : call.presents = some (lease, c))
    (h : finish host lease state planId code c q = .ok (record, q')) :
    Effect host config q q' call (.finished record) := by
  obtain ⟨now, hclock, h⟩ := bind_eq_ok.mp h
  obtain ⟨row, hrow, h⟩ := bind_eq_ok.mp h
  obtain ⟨r, hr, h⟩ := bind_eq_ok.mp h
  obtain ⟨rfl, rfl⟩ : _ = record ∧ _ = q' := by simpa using h
  have hlease := requireLease_ok hrow
  have hrep := replaced_updateNamed (f := Row.finish state planId code now) (i := fun _ => rfl)
    hq hlease.mem hlease.id
  have hname := hrep.rowNamed hq hlease.id hr
  rw [if_pos hname] at hrep
  obtain rfl := hrep.rowByJob hname.symm hr
  exact .changed hrep (.finished hcall hclock hlease)

theorem reject_effect {e : String} (hq : Clean q) (h : reject host lease e c q = .ok (record, q')) :
    Effect host config q q' (.reject lease e c : Call T P) (.finished record) := by
  obtain ⟨now, hclock, h⟩ := bind_eq_ok.mp h
  obtain ⟨row, hrow, h⟩ := bind_eq_ok.mp h
  obtain ⟨code, -, h⟩ := bind_eq_ok.mp h
  obtain ⟨r, hr, h⟩ := bind_eq_ok.mp h
  obtain ⟨rfl, rfl⟩ : _ = record ∧ _ = q' := by simpa using h
  have hlease := requireLease_ok hrow
  have hrep := replaced_updateNamed (f := Row.reject code now) (i := fun _ => rfl)
    hq hlease.mem hlease.id
  have hname := hrep.rowNamed hq hlease.id hr
  rw [if_pos hname] at hrep
  obtain rfl := hrep.rowByJob hname.symm hr
  exact .changed hrep (.rejected hclock hlease)

theorem get_effect {record : Option (ForgeRequestRecord T)} (h : get j c q = .ok (record, q')) :
    Effect host config q q' (.get j c : Call T P) (.got record) := by
  obtain ⟨clean, -, h⟩ := bind_eq_ok.mp h
  obtain ⟨now, hclock, h⟩ := bind_eq_ok.mp h
  split at h
  · obtain ⟨rfl, rfl⟩ : none = record ∧ q = q' := by simpa using h
    exact .missing rfl
  · rename_i row hfind
    obtain ⟨⟨r, q₁⟩, hrec, h⟩ := bind_eq_ok.mp h
    obtain ⟨rfl, rfl⟩ : _ = record ∧ q₁ = q' := by simpa using h
    obtain ⟨rfl, hrep⟩ := reconcile_ok (List.mem_of_find?_eq_some hfind) hrec
    exact .changed hrep (.got hclock)

theorem attach_effect (h : attach host j s w c q = .ok (record, q')) :
    Effect host config q q' (.attach j s w c : Call T P) (.attached record) := by
  obtain ⟨job, hjob, h⟩ := bind_eq_ok.mp h
  obtain ⟨s', hs, h⟩ := bind_eq_ok.mp h
  obtain ⟨root, -, h⟩ := bind_eq_ok.mp h
  obtain ⟨now, hclock, h⟩ := bind_eq_ok.mp h
  obtain ⟨row, hrow, h⟩ := bind_eq_ok.mp h
  obtain ⟨-, h⟩ := guard_eq_ok.mp h
  obtain ⟨r, hr, h⟩ := bind_eq_ok.mp h
  obtain ⟨rfl, rfl⟩ : _ = record ∧ _ = q' := by simpa using h
  obtain ⟨hmem, rfl⟩ := rowByJob_ok hrow
  rw [(identifier_ok hs).1] at hr ⊢
  have hrep := replaced_updateJob (f := Row.attach (strip s) now) (i := fun _ => rfl) hmem
  obtain rfl := hrep.rowByJob rfl hr
  exact .changed hrep (.attached hclock)

/-- **Whatever a call answers, it had one of the effects.** -/
theorem exec_effect {answer : Answer T} (hq : Clean q)
    (h : exec host config call q = .ok (answer, q')) :
    Effect host config q q' call answer := by
  cases call with
  | accept w s k p j t c =>
    obtain ⟨a, rfl, hop⟩ := tag_ok h
    exact accept_effect hop
  | begin l c =>
    obtain ⟨a, rfl, hop⟩ := tag_ok h
    exact begin_effect hop
  | renew l c =>
    obtain ⟨a, rfl, hop⟩ := tag_ok h
    exact renew_effect hq hop
  | complete l p c =>
    obtain ⟨a, rfl, hop⟩ := tag_ok h
    obtain ⟨clean, -, hop⟩ := bind_eq_ok.mp hop
    exact finish_effect hq rfl hop
  | fail l e c | cancel l e c =>
    obtain ⟨a, rfl, hop⟩ := tag_ok h
    obtain ⟨code, -, hop⟩ := bind_eq_ok.mp hop
    exact finish_effect hq rfl hop
  | reject l e c =>
    obtain ⟨a, rfl, hop⟩ := tag_ok h
    exact reject_effect hq hop
  | get j c =>
    obtain ⟨a, rfl, hop⟩ := tag_ok h
    exact get_effect hop
  | attach j s w c =>
    obtain ⟨a, rfl, hop⟩ := tag_ok h
    exact attach_effect hop

end Effects

end AlysisCode.ForgeLedger
