/-
Lease tokens fence their work.

A token is accepted when the row it is presented for is running, holds that token and
has a later expiry than the clock reading.  The history says what those columns mean:
in every run the token and the expiry of a running row are those of the latest claim,
and of the latest claim or renewal, of its prompt.  That is the invariant `Held`, and
`lease_fences` reads the checks of `_require_live_lease` through it.

The execution marker is written once: no operation clears it, and no operation removes
the row that carries it.
-/
import AlysisCode.PromptQueue.Effects

namespace AlysisCode.PromptQueue

open Table Runs

variable {T P : Type}

/-- The token a successful `claim_next` handed out for the prompt. -/
def claimOf (promptId : String) (e : Event T P) : Option String :=
  match e.2 with
  | .ok (.claimed (some lease)) =>
    if lease.item.promptId = promptId then some lease.leaseToken else none
  | _ => none

/-- The expiry a successful `claim_next` or `renew` gave the prompt's lease. -/
def expiryOf (promptId : String) (e : Event T P) : Option T :=
  match e.2 with
  | .ok (.claimed (some lease)) | .ok (.renewed lease) =>
    if lease.item.promptId = promptId then some lease.expiresAt else none
  | _ => none

/-- A successful `mark_execution_started` of the prompt. -/
def starts (promptId : String) (e : Event T P) : Bool :=
  match e.2 with
  | .ok (.started item) => item.promptId == promptId
  | _ => false

/-! ### The token and the expiry of a running row -/

/-- The row's lease is the one last granted for its prompt. -/
structure Held (trace : List (Event T P)) (r : Row T) : Prop where
  token : r.leaseToken = latest (claimOf r.promptId) trace
  expiry : r.leaseExpiresAt = latest (expiryOf r.promptId) trace

/-- Every running row's is. -/
def LeasesHeld (trace : List (Event T P)) (q : Queue T) : Prop :=
  ∀ r ∈ q.rows, r.state = .running → Held trace r

theorem Held.snoc {trace : List (Event T P)} {r : Row T} {e : Event T P} (h : Held trace r)
    (hclaim : claimOf r.promptId e = none) (hexp : expiryOf r.promptId e = none) :
    Held (trace ++ [e]) r :=
  ⟨h.token.trans (latest_snoc_none hclaim).symm, h.expiry.trans (latest_snoc_none hexp).symm⟩

theorem silent_grants {call : Call T P} {answer : Answer T P} (h : answer.silent = true)
    (p : String) : claimOf p (call, .ok answer) = none ∧ expiryOf p (call, .ok answer) = none := by
  cases answer with
  | claimed lease =>
    cases lease with
    | none => exact ⟨rfl, rfl⟩
    | some lease => simp [Answer.silent] at h
  | renewed lease => simp [Answer.silent] at h
  | _ => exact ⟨rfl, rfl⟩

theorem leasesHeld_updateRow {trace : List (Event T P)} {q q' : Queue T} {row : Row T}
    {f : Row T → Row T} {e : Event T P} (hq : LeasesHeld trace q) (hrow : row ∈ q.rows)
    (hrows : q'.rows = updateRow row.sequence f q.rows)
    (hother : ∀ p, p ≠ row.promptId → claimOf p e = none ∧ expiryOf p e = none)
    (hself : (f row).state = .running → Held (trace ++ [e]) (f row)) :
    LeasesHeld (trace ++ [e]) q' := by
  intro r hr hrun
  rw [hrows] at hr
  rcases mem_updateRow hrow hr with ⟨hr, hne⟩ | rfl
  · have hid : r.promptId ≠ row.promptId := fun heq => hne (q.eq_of_promptId hr hrow heq)
    exact (hq r hr hrun).snoc (hother _ hid).1 (hother _ hid).2
  · exact hself hrun

def KeepsMark (r r' : Row T) : Prop :=
  r'.promptId = r.promptId ∧ (r.executionStartedAt.isSome → r'.executionStartedAt.isSome)

theorem marked_updateWhere {p : Row T → Bool} {f : Row T → Row T} {rows rows' : List (Row T)}
    (hrows : rows' = updateWhere p f rows) (hf : ∀ r, KeepsMark r (f r)) {r : Row T}
    (hr : r ∈ rows) : ∃ r' ∈ rows', KeepsMark r r' := by
  rw [hrows]
  by_cases hp : p r = true
  · exact ⟨f r, mem_updateWhere_of_pos hr hp, hf r⟩
  · exact ⟨r, mem_updateWhere_of_neg hr hp, rfl, fun h => h⟩

section Steps

variable [Clock T] {config : PromptQueueConfig} {format : PayloadFormat P}

variable {answer : Answer T P} {call : Call T P} {q q' : Queue T} {trace : List (Event T P)}

/-- **One call keeps every running row's lease the last one granted for its prompt.** -/
theorem Effect.leasesHeld (h : Effect config format q q' call answer) (hq : LeasesHeld trace q) :
    LeasesHeld (trace ++ [(call, .ok answer)]) q' := by
  cases h with
  | idle h _ hsilent =>
    rw [h]
    intro r hr hrun
    have hnone : claimOf r.promptId (call, .ok answer) = none ∧
        expiryOf r.promptId (call, .ok answer) = none := silent_grants hsilent r.promptId
    exact (hq r hr hrun).snoc hnone.1 hnone.2
  | stayed h =>
    rw [h]
    intro r hr hrun
    exact (hq r hr hrun).snoc rfl rfl
  | created _ _ _ _ _ hrows =>
    intro r hr hrun
    rw [hrows, List.mem_append, List.mem_singleton] at hr
    rcases hr with hr | rfl
    · exact (hq r hr hrun).snoc rfl rfl
    · cases hrun
  | @claimed s o t d now c row payload _ hrow _ _ hrows =>
    refine leasesHeld_updateRow hq hrow hrows ?_ ?_
    · intro p hp
      have hne : row.promptId ≠ p := hp.symm
      exact ⟨if_neg hne, if_neg hne⟩
    · intro _
      have hclaim : claimOf row.promptId (Call.claimNext s o d t c, .ok (.claimed (some
          ⟨(row.claim t o s (now + d) now).item payload, t, o, now + d⟩))) = some t := if_pos rfl
      have hexp : expiryOf row.promptId (Call.claimNext s o d t c, .ok (.claimed (some
          ⟨(row.claim t o s (now + d) now).item payload, t, o, now + d⟩))) = some (now + d) :=
        if_pos rfl
      exact ⟨(latest_snoc_some hclaim).symm, (latest_snoc_some hexp).symm⟩
  | @renewed s p t o d now c row payload _ hlease hrows =>
    refine leasesHeld_updateRow hq hlease.mem hrows ?_ ?_
    · intro p hp
      have hne : row.promptId ≠ p := hp.symm
      exact ⟨rfl, if_neg hne⟩
    · intro _
      -- the token stays the claim's, the expiry is the renewal's
      have hexp : expiryOf row.promptId (Call.renew s p t d c, .ok (.renewed
          ⟨(row.renew (now + d) now).item payload, t, o, now + d⟩)) = some (now + d) := if_pos rfl
      refine ⟨?_, (latest_snoc_some hexp).symm⟩
      exact (hq row hlease.mem hlease.running).token.trans (latest_snoc_none rfl).symm
  | @started s p t now c row payload _ hlease _ hrows =>
    refine leasesHeld_updateRow hq hlease.mem hrows (fun _ _ => ⟨rfl, rfl⟩) ?_
    intro _
    have hheld := (hq row hlease.mem hlease.running).snoc
      (e := (Call.markExecutionStarted s p t c, .ok (.started ((row.start now).item payload))))
      rfl rfl
    exact ⟨hheld.token, hheld.expiry⟩
  | @finished call s p t now c row payload state code hfin _ hlease hrows =>
    refine leasesHeld_updateRow hq hlease.mem hrows (fun _ _ => ⟨rfl, rfl⟩) ?_
    intro hrun
    have hstate : state = .running := hrun
    cases call with
    | complete | fail | cancelClaimed =>
      obtain ⟨-, -, -, -, hst, -⟩ := by simpa [Call.finishing] using hfin
      rw [hstate] at hst
      cases hst
    | _ => simp [Call.finishing] at hfin
  | released _ hlease hrows =>
    exact leasesHeld_updateRow hq hlease.mem hrows (fun _ _ => ⟨rfl, rfl⟩) (fun h => by cases h)
  | deleted hrow _ hrows =>
    exact leasesHeld_updateRow hq hrow hrows (fun _ _ => ⟨rfl, rfl⟩) (fun h => by cases h)
  | cancelled hrows =>
    intro r hr hrun
    rw [hrows] at hr
    rcases of_mem_updateWhere hr with ⟨hr, -⟩ | ⟨a, -, -, rfl⟩
    · exact (hq r hr hrun).snoc rfl rfl
    · cases hrun
  | rebound _ _ _ hrows =>
    intro r hr hrun
    rw [hrows] at hr
    obtain ⟨a, ha, rfl⟩ := List.mem_map.mp hr
    obtain ⟨harun, htok, hexp⟩ := rebind_running hrun
    have hheld := hq a ha harun
    refine Held.snoc ⟨?_, ?_⟩ rfl rfl
    · rw [htok, rebind_promptId]
      exact hheld.token
    · rw [hexp, rebind_promptId]
      exact hheld.expiry

theorem History.leasesHeld (h : History config format trace q) : LeasesHeld trace q := by
  refine Run.history (I := LeasesHeld) ?_ ?_ h
  · intro r hr
    simp [Queue.empty] at hr
  · intro trace s l s' _ hs hstep
    cases hstep with
    | ok hexec => exact (exec_effect hexec).leasesHeld hs
    | error _ =>
      intro r hr hrun
      exact (hs r hr hrun).snoc rfl rfl

/-! ### The execution marker -/

/-- The prompt's row carries the execution marker. -/
def Marked (promptId : String) (q : Queue T) : Prop :=
  ∃ r ∈ q.rows, r.promptId = promptId ∧ r.executionStartedAt.isSome

theorem Effect.keepsMark (h : Effect config format q q' call answer) {r : Row T} (hr : r ∈ q.rows) :
    ∃ r' ∈ q'.rows, KeepsMark r r' := by
  cases h with
  | idle h _ _ | stayed h =>
    rw [h]
    exact ⟨r, hr, rfl, fun h => h⟩
  | created _ _ _ _ _ hrows =>
    rw [hrows]
    exact ⟨r, List.mem_append_left _ hr, rfl, fun h => h⟩
  | claimed _ _ _ _ hrows | renewed _ _ hrows | finished _ _ _ hrows | released _ _ hrows
  | deleted _ _ hrows | cancelled hrows =>
    exact marked_updateWhere hrows (fun _ => ⟨rfl, fun h => h⟩) hr
  | started _ _ _ hrows => exact marked_updateWhere hrows (fun _ => ⟨rfl, fun _ => rfl⟩) hr
  | rebound _ _ _ hrows =>
    rw [hrows]
    refine ⟨_, List.mem_map_of_mem hr, by simp, ?_⟩
    rw [rebind_executionStartedAt]
    exact fun h => h

theorem Effect.marked (h : Effect config format q q' call answer) {p : String} (hm : Marked p q) :
    Marked p q' := by
  obtain ⟨r, hr, hid, hsome⟩ := hm
  obtain ⟨r', hr', hid', hkeep⟩ := h.keepsMark hr
  exact ⟨r', hr', hid'.trans hid, hkeep hsome⟩

theorem Effect.starts_marks (h : Effect config format q q' call answer) {p : String}
    (hstart : starts p (call, .ok answer) = true) : ¬ Marked p q ∧ Marked p q' := by
  cases h with
  | @started s p' t now c row payload _ hlease hfresh hrows =>
    have hid : row.promptId = p := by simpa [starts, Row.item, Row.start] using hstart
    constructor
    · rintro ⟨r, hr, hrid, hsome⟩
      rw [q.eq_of_promptId hr hlease.mem (hrid.trans hid.symm), hfresh] at hsome
      cases hsome
    · refine ⟨row.start now, ?_, hid, rfl⟩
      rw [hrows]
      exact mem_updateRow_self hlease.mem
  | idle _ _ hsilent =>
    cases answer with
    | started item => simp [Answer.silent] at hsilent
    | _ => simp [starts] at hstart
  | _ => simp [starts] at hstart

/-- A prompt is started at most once, and carries the marker from then on. -/
theorem History.starts_le (h : History config format trace q) (p : String) :
    trace.countP (starts p) ≤ 1 ∧ (trace.countP (starts p) ≠ 0 → Marked p q) := by
  refine Run.history (I := fun trace q => trace.countP (starts p) ≤ 1 ∧
      (trace.countP (starts p) ≠ 0 → Marked p q)) ?_ ?_ h
  · simp
  · intro trace s l s' _ hs hstep
    obtain ⟨hle, hmark⟩ := hs
    rw [List.countP_append, List.countP_singleton]
    cases hstep with
    | error _ => exact ⟨hle, hmark⟩
    | ok hexec =>
      have heff := exec_effect hexec
      split
      · rename_i hstart
        obtain ⟨hfresh, hnow⟩ := heff.starts_marks hstart
        have hzero : trace.countP (starts p) = 0 := by
          by_contra hne
          exact hfresh (hmark hne)
        exact ⟨by omega, fun _ => hnow⟩
      · exact ⟨by omega, fun hne => heff.marked (hmark (by omega))⟩

/-! ### The fence -/

/-- Token `t` is good for prompt `p` at a clock reading: `p` is running, `t` is the token
of its latest claim, and the expiry last granted lies ahead. -/
structure Current (trace : List (Event T P)) (q : Queue T) (p t : String) (c : Option T) :
    Prop where
  running : ∃ row ∈ q.rows, row.promptId = p ∧ row.state = .running
  latest_claim : latest (claimOf p) trace = some t
  unexpired : ∃ now expiresAt, readClock c = .ok now ∧
    latest (expiryOf p) trace = some expiresAt ∧ now < expiresAt

/--
**Lease tokens fence their work.**  After any run, a call that presents a token takes
effect only if the token is current; otherwise it raises and the table stays as it was.
And over the whole run a prompt's execution is started at most once.
-/
theorem lease_fences {trace : List (Event T P)} {q : Queue T} (h : History config format trace q) :
    (∀ call p t c outcome q', Call.presents call = some (p, t, c) →
      Commit (exec config format) q (call, outcome) q' →
        (∃ answer, outcome = .ok answer ∧ Current trace q p t c) ∨
          ∃ e, outcome = .error e ∧ q' = q) ∧
      ∀ p, trace.countP (starts p) ≤ 1 := by
  refine ⟨?_, fun p => (h.starts_le p).1⟩
  intro call p t c outcome q' hcall hstep
  cases hstep with
  | error _ => exact .inr ⟨_, rfl, rfl⟩
  | ok hexec =>
    obtain ⟨s, now, row, hclock, hlease⟩ := (exec_effect hexec).presented hcall
    have hheld := h.leasesHeld row hlease.mem hlease.running
    have htoken := hheld.token
    have hexpiry := hheld.expiry
    rw [hlease.id] at htoken hexpiry
    obtain ⟨expiresAt, hexp, hlt⟩ : ∃ e, row.leaseExpiresAt = some e ∧ now < e := by
      have hlive := hlease.live
      simpa [Row.expiresAfter, Option.any_eq_true] using hlive
    refine .inl ⟨_, rfl, ⟨row, hlease.mem, hlease.id, hlease.running⟩, ?_, ?_⟩
    · rw [← htoken]
      exact hlease.token
    · exact ⟨now, expiresAt, hclock, hexpiry.symm.trans hexp, hlt⟩

end Steps

def leasingCalls : List (Call Nat String) :=
  [.enqueue "a" "k1" (promptText "a") "p1" (some 0), .claimNext "a" "w1" 10 "t1" (some 0)]

/-- One prompt, claimed until 10. -/
def leasing := replay (exec .standard promptFormat) leasingCalls Queue.empty

/-- Completing it at 3 succeeds, and finds its token current. -/
theorem lease_fences_leasing : ∃ q' answer, Commit (exec {} promptFormat) leasing.2
        (.complete "a" "p1" "t1" (some 3), .ok answer) q' ∧
      Current leasing.1 leasing.2 "p1" "t1" (some 3) := by
  have hrun : History {} promptFormat leasing.1 leasing.2 := replay_run _ _ _
  obtain ⟨outcome, q', hstep⟩ :=
    commit_total (exec {} promptFormat) leasing.2 (.complete "a" "p1" "t1" (some 3))
  rcases (lease_fences hrun).1 _ "p1" "t1" (some 3) outcome q' rfl hstep with
    ⟨answer, rfl, hcur⟩ | ⟨e, rfl, -⟩
  · exact ⟨q', answer, hstep, hcur⟩
  · cases hstep with
    | error hexec =>
      have hok : (exec {} promptFormat (.complete "a" "p1" "t1" (some 3)) leasing.2).isOk =
          true := by decide +kernel
      rw [hexec] at hok
      cases hok

end AlysisCode.PromptQueue
