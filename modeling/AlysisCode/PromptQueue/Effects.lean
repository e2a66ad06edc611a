/-
The effect of a successful call.

`Effect` lists the ways a call on the queue can succeed, each with the checks it
passed and the statement it ran.  `exec_effect` is the inversion: whatever `exec`
answers, it had one of these effects.  The invariants of the later files are proved
by cases on it.
-/
import AlysisCode.PromptQueue.Calls

namespace AlysisCode.PromptQueue

open Table Runs

variable {T P : Type}

/-! ### Checks, read backwards -/

theorem validateIdentifier_ok {value kind v : String} {n : Nat}
    (h : validateIdentifier value kind n = .ok v) : v = value := by
  obtain ⟨-, h⟩ := guard_eq_ok.mp h
  simpa using h.symm

theorem validateLeaseIdentifiers_ok {s p t : String} {r : String × String × String}
    (h : validateLeaseIdentifiers s p t = .ok r) : r = (s, p, t) := by
  obtain ⟨s', hs, h⟩ := bind_eq_ok.mp h
  obtain ⟨p', hp, h⟩ := bind_eq_ok.mp h
  obtain ⟨t', ht, h⟩ := bind_eq_ok.mp h
  rw [validateIdentifier_ok hs, validateIdentifier_ok hp, validateIdentifier_ok ht] at h
  simpa using h.symm

theorem tag_ok {α : Type} {wrap : α → Answer T P} {r : Except PromptQueueError (α × Queue T)}
    {answer : Answer T P} {q' : Queue T} (h : tag wrap r = .ok (answer, q')) :
    ∃ a, answer = wrap a ∧ r = .ok (a, q') := by
  obtain ⟨⟨a, q₁⟩, hr, h⟩ := bind_eq_ok.mp h
  obtain ⟨rfl, rfl⟩ : wrap a = answer ∧ q₁ = q' := by simpa using h
  exact ⟨a, rfl, hr⟩

theorem reading_ok {α : Type} {wrap : α → Answer T P} {q q' : Queue T}
    {r : Except PromptQueueError α} {answer : Answer T P}
    (h : reading wrap q r = .ok (answer, q')) : (∃ a, answer = wrap a) ∧ q' = q := by
  obtain ⟨a, -, h⟩ := bind_eq_ok.mp h
  obtain ⟨rfl, rfl⟩ : wrap a = answer ∧ q = q' := by simpa using h
  exact ⟨⟨a, rfl⟩, rfl⟩

theorem priorResult_ok {format : PayloadFormat P} {existing : Row T} {sha : String} {result : EnqueueResult T P}
    (h : priorResult format existing sha = .ok result) : result.created = false := by
  obtain ⟨-, h⟩ := guard_eq_ok.mp h
  obtain ⟨item, -, h⟩ := bind_eq_ok.mp h
  rw [Except.ok.injEq] at h
  rw [← h]

section Effects

variable [Clock T]

/-- The checks of `_require_live_lease`, passed. -/
structure Leased (q : Queue T) (sessionId promptId leaseToken : String) (now : T)
    (row : Row T) : Prop where
  mem : row ∈ q.rows
  id : row.promptId = promptId
  session : sessionId = row.sessionId ∨ row.leaseSessionId = some sessionId
  running : row.state = .running
  token : row.leaseToken = some leaseToken
  live : row.expiresAfter now = true

variable {q q' : Queue T} {c : Option T} {s t p : String} {item : PromptQueueItem T P}
  {call : Call T P} {answer : Answer T P}

theorem requireLiveLease_ok {sessionId promptId leaseToken : String} {now : T} {row : Row T}
    (h : requireLiveLease sessionId promptId leaseToken now q = .ok row) :
    Leased q sessionId promptId leaseToken now row := by
  unfold requireLiveLease at h
  split at h
  · cases h
  · rename_i r hr
    obtain ⟨hc, h⟩ := guard_eq_ok.mp h
    rw [Except.ok.injEq] at h
    subst h
    simp only [not_or, not_and, not_not, Bool.not_eq_false] at hc
    obtain ⟨hs, hst, htok, hlive⟩ := hc
    refine ⟨(byId_mem hr).1, (byId_mem hr).2, ?_, hst, htok, hlive⟩
    by_cases heq : sessionId = r.sessionId
    · exact .inl heq
    · exact .inr (hs heq)

/-- An answer that reports no change. -/
def Answer.silent : Answer T P → Bool
  | .enqueued result => !result.created
  | .got _ | .listed _ | .reclaimable _ | .claimed none => true
  | _ => false

/-- The calls that finish a prompt: session, prompt, token, clock reading, final state
and error code. -/
def Call.finishing : Call T P →
    Option (String × String × String × Option T × PromptState × Option String)
  | .complete s p t c => some (s, p, t, c, .completed, none)
  | .fail s p t e c => some (s, p, t, c, .failed, some e)
  | .cancelClaimed s p t c => some (s, p, t, c, .cancelled, some "cancelled")
  | _ => none

/-- The calls that present a lease token: prompt, token and clock reading. -/
def Call.presents : Call T P → Option (String × String × Option T)
  | .renew _ p t _ c | .markExecutionStarted _ p t c | .complete _ p t c | .fail _ p t _ c
  | .cancelClaimed _ p t c | .release _ p t c => some (p, t, c)
  | _ => none

inductive Effect (config : PromptQueueConfig) (format : PayloadFormat P) (q q' : Queue T) :
    Call T P → Answer T P → Prop
  | idle {call : Call T P} {answer : Answer T P} (h : q' = q) (hcall : call.presents = none)
      (hsilent : answer.silent = true) :
      Effect config format q q' call answer
  | stayed {s : String} {c : Option T} (h : q' = q) :
      Effect config format q q' (.rebindRecoverable s s c) (.rebound ⟨0, 0, 0⟩)
  | created {s k i text : String} {p normalized : P} {c : Option T} {now : T}
      (hs : validateIdentifier s "session" 256 = .ok s)
      (hk : validateIdentifier k "idempotency" 256 = .ok k)
      (hser : format.serializePayload p = .ok (text, normalized))
      (hfree : q.byKey s k = none)
      (hroom : q.outstandingCount s < config.maxOutstandingPerSession)
      (hrows : q'.rows =
        q.rows ++ [newRow (q.lastSequence + 1) i s k text (format.sha256 text) now]) :
      Effect config format q q' (.enqueue s k p i c) (.enqueued
        ⟨(newRow (q.lastSequence + 1) i s k text (format.sha256 text) now).item normalized, true⟩)
  | claimed {s o t : String} {d now : T} {c : Option T} {row : Row T} {payload : P}
      (hclock : readClock c = .ok now) (hrow : row ∈ q.rows) (hs : row.sessionId = s)
      (hclaim : row.claimable now = true)
      (hrows : q'.rows = updateRow row.sequence (Row.claim t o s (now + d) now) q.rows) :
      Effect config format q q' (.claimNext s o d t c)
        (.claimed (some ⟨(row.claim t o s (now + d) now).item payload, t, o, now + d⟩))
  | renewed {s p t o : String} {d now : T} {c : Option T} {row : Row T} {payload : P}
      (hclock : readClock c = .ok now) (hlease : Leased q s p t now row)
      (hrows : q'.rows = updateRow row.sequence (Row.renew (now + d) now) q.rows) :
      Effect config format q q' (.renew s p t d c)
        (.renewed ⟨(row.renew (now + d) now).item payload, t, o, now + d⟩)
  | started {s p t : String} {now : T} {c : Option T} {row : Row T} {payload : P}
      (hclock : readClock c = .ok now) (hlease : Leased q s p t now row)
      (hfresh : row.executionStartedAt = none)
      (hrows : q'.rows = updateRow row.sequence (Row.start now) q.rows) :
      Effect config format q q' (.markExecutionStarted s p t c)
        (.started ((row.start now).item payload))
  | finished {call : Call T P} {s p t : String} {now : T} {c : Option T} {row : Row T}
      {payload : P} {state : PromptState} {code : Option String}
      (hcall : call.finishing = some (s, p, t, c, state, code))
      (hclock : readClock c = .ok now) (hlease : Leased q s p t now row)
      (hrows : q'.rows = updateRow row.sequence (Row.finish state code now) q.rows) :
      Effect config format q q' call (.finished ((row.finish state code now).item payload))
  | released {s p t : String} {now : T} {c : Option T} {row : Row T} {payload : P}
      (hclock : readClock c = .ok now) (hlease : Leased q s p t now row)
      (hrows : q'.rows = updateRow row.sequence (Row.release now) q.rows) :
      Effect config format q q' (.release s p t c) (.released ((row.release now).item payload))
  | deleted {s p : String} {now : T} {c : Option T} {row : Row T} {payload : P}
      (hrow : row ∈ q.rows) (hpending : row.state = .pending)
      (hrows : q'.rows = updateRow row.sequence (Row.cancel now) q.rows) :
      Effect config format q q' (.deletePending s p c) (.deleted ((row.cancel now).item payload))
  | cancelled {s : String} {now : T} {c : Option T} {n : Nat}
      (hrows : q'.rows = updateWhere (fun r => r.sessionId == s && r.state == .pending)
        (Row.cancel now) q.rows) :
      Effect config format q q' (.cancelPendingForSession s c) (.cancelled n)
  | rebound {a b : String} {now : T} {c : Option T} {counts : Rebound} (hne : a ≠ b)
      (hclock : readClock c = .ok now) (hconflict : q.rebindConflict a b = false)
      (hrows : q'.rows = q.rows.map (Row.rebind a b now)) :
      Effect config format q q' (.rebindRecoverable a b c) (.rebound counts)

variable {config : PromptQueueConfig} {format : PayloadFormat P}

/-! ### Each operation's effect -/

theorem validateLeaseSeconds_ok {d d' : T} (h : validateLeaseSeconds d = .ok d') : d' = d := by
  obtain ⟨-, h⟩ := guard_eq_ok.mp h
  simpa using h.symm

theorem enqueue_effect {k i : String} {p : P} {result : EnqueueResult T P}
    (h : enqueue config format s k p i c q = .ok (result, q')) :
    Effect config format q q' (.enqueue s k p i c) (.enqueued result) := by
  obtain ⟨s', hs, h⟩ := bind_eq_ok.mp h
  obtain ⟨k', hk, h⟩ := bind_eq_ok.mp h
  obtain ⟨⟨text, normalized⟩, hser, h⟩ := bind_eq_ok.mp h
  have hs' : validateIdentifier s "session" 256 = .ok s := by rw [hs, validateIdentifier_ok hs]
  have hk' : validateIdentifier k "idempotency" 256 = .ok k := by
    rw [hk, validateIdentifier_ok hk]
  rw [validateIdentifier_ok hs, validateIdentifier_ok hk] at h
  simp only at h
  split at h
  · obtain ⟨r, hr, h⟩ := bind_eq_ok.mp h
    obtain ⟨rfl, rfl⟩ : r = result ∧ q = q' := by simpa using h
    exact .idle rfl rfl (by simp [Answer.silent, priorResult_ok hr])
  · rename_i hfree
    obtain ⟨hroom, h⟩ := guard_eq_ok.mp h
    obtain ⟨i', hi, h⟩ := bind_eq_ok.mp h
    obtain ⟨now, -, h⟩ := bind_eq_ok.mp h
    rw [validateIdentifier_ok hi] at h
    split at h
    · rename_i q₁ hw
      obtain ⟨rfl, rfl⟩ : _ = result ∧ q₁ = q' := by simpa using h
      exact .created hs' hk' hser hfree (Nat.lt_of_not_le hroom) (write_some hw).1
    · rw [hfree] at h
      cases h

theorem claimNext_effect {o : String} {d : T} {lease : Option (PromptLease T P)}
    (h : claimNext format s o d t c q = .ok (lease, q')) :
    Effect config format q q' (.claimNext s o d t c) (.claimed lease) := by
  obtain ⟨s', hs, h⟩ := bind_eq_ok.mp h
  obtain ⟨o', ho, h⟩ := bind_eq_ok.mp h
  obtain ⟨d', hd, h⟩ := bind_eq_ok.mp h
  obtain ⟨now, hnow, h⟩ := bind_eq_ok.mp h
  rw [validateIdentifier_ok hs, validateIdentifier_ok ho, validateLeaseSeconds_ok hd] at h
  simp only at h
  split at h
  · obtain ⟨rfl, rfl⟩ : none = lease ∧ q = q' := by simpa using h
    exact .idle rfl rfl rfl
  · split at h
    · obtain ⟨rfl, rfl⟩ : none = lease ∧ q = q' := by simpa using h
      exact .idle rfl rfl rfl
    · rename_i row hfind
      obtain ⟨⟨item, q₁⟩, hx, h⟩ := bind_eq_ok.mp h
      obtain ⟨rfl, rfl⟩ : _ = lease ∧ q₁ = q' := by simpa using h
      have hrow := List.mem_of_find?_eq_some hfind
      have hsel := List.find?_some hfind
      simp only [Bool.and_eq_true, beq_iff_eq] at hsel
      obtain ⟨hrows, payload, rfl⟩ := updateAndLoad_ok hrow rfl hx
      exact .claimed hnow hrow hsel.1 hsel.2 hrows

theorem renew_effect {d : T} {lease : PromptLease T P}
    (h : renew format s p t d c q = .ok (lease, q')) :
    Effect config format q q' (.renew s p t d c) (.renewed lease) := by
  obtain ⟨ids, hids, h⟩ := bind_eq_ok.mp h
  rw [validateLeaseIdentifiers_ok hids] at h
  simp only [bind_eq_ok] at h
  obtain ⟨d', hd, now, hnow, row, hrow, ⟨item, q₁⟩, hx, h⟩ := h
  rw [validateLeaseSeconds_ok hd] at h hx
  obtain ⟨rfl, rfl⟩ : _ = lease ∧ q₁ = q' := by simpa using h
  have hlease := requireLiveLease_ok hrow
  obtain ⟨hrows, payload, rfl⟩ := updateAndLoad_ok hlease.mem rfl hx
  exact .renewed hnow hlease hrows

theorem markExecutionStarted_effect (h : markExecutionStarted format s p t c q = .ok (item, q')) :
    Effect config format q q' (.markExecutionStarted s p t c) (.started item) := by
  obtain ⟨ids, hids, h⟩ := bind_eq_ok.mp h
  rw [validateLeaseIdentifiers_ok hids] at h
  obtain ⟨now, hnow, h⟩ := bind_eq_ok.mp h
  obtain ⟨row, hrow, h⟩ := bind_eq_ok.mp h
  obtain ⟨hfresh, h⟩ := guard_eq_ok.mp h
  have hlease := requireLiveLease_ok hrow
  obtain ⟨hrows, payload, rfl⟩ := updateAndLoad_ok hlease.mem rfl h
  exact .started hnow hlease (by simpa using hfresh) hrows

theorem finish_effect {state : PromptState} {code : Option String}
    (hcall : call.finishing = some (s, p, t, c, state, code))
    (h : finish format s p t state code c q = .ok (item, q')) :
    Effect config format q q' call (.finished item) := by
  obtain ⟨ids, hids, h⟩ := bind_eq_ok.mp h
  rw [validateLeaseIdentifiers_ok hids] at h
  obtain ⟨now, hnow, h⟩ := bind_eq_ok.mp h
  obtain ⟨row, hrow, h⟩ := bind_eq_ok.mp h
  have hlease := requireLiveLease_ok hrow
  obtain ⟨hrows, payload, rfl⟩ := updateAndLoad_ok hlease.mem rfl h
  exact .finished hcall hnow hlease hrows

theorem release_effect (h : release format s p t c q = .ok (item, q')) :
    Effect config format q q' (.release s p t c) (.released item) := by
  obtain ⟨ids, hids, h⟩ := bind_eq_ok.mp h
  rw [validateLeaseIdentifiers_ok hids] at h
  obtain ⟨now, hnow, h⟩ := bind_eq_ok.mp h
  obtain ⟨row, hrow, h⟩ := bind_eq_ok.mp h
  have hlease := requireLiveLease_ok hrow
  obtain ⟨hrows, payload, rfl⟩ := updateAndLoad_ok hlease.mem rfl h
  exact .released hnow hlease hrows

theorem deletePending_effect (h : deletePending format s p c q = .ok (item, q')) :
    Effect config format q q' (.deletePending s p c) (.deleted item) := by
  obtain ⟨s', -, h⟩ := bind_eq_ok.mp h
  obtain ⟨p', -, h⟩ := bind_eq_ok.mp h
  obtain ⟨now, -, h⟩ := bind_eq_ok.mp h
  split at h
  · cases h
  · rename_i row hfind
    obtain ⟨hpending, h⟩ := guard_eq_ok.mp h
    have hrow := List.mem_of_find?_eq_some hfind
    obtain ⟨hrows, payload, rfl⟩ := updateAndLoad_ok hrow rfl h
    exact .deleted hrow (not_not.mp hpending) hrows

theorem cancelPendingForSession_effect {n : Nat} (h : cancelPendingForSession s c q = .ok (n, q')) :
    Effect config format q q' (.cancelPendingForSession s c) (.cancelled n) := by
  obtain ⟨s', hs, h⟩ := bind_eq_ok.mp h
  obtain ⟨now, -, h⟩ := bind_eq_ok.mp h
  obtain ⟨q₁, hx, h⟩ := bind_eq_ok.mp h
  rw [validateIdentifier_ok hs] at hx h
  obtain ⟨-, rfl⟩ : _ = n ∧ q₁ = q' := by simpa using h
  exact .cancelled (execute_ok hx).1

theorem rebindRecoverable_effect {a b : String} {counts : Rebound}
    (h : rebindRecoverable a b c q = .ok (counts, q')) :
    Effect config format q q' (.rebindRecoverable a b c) (.rebound counts) := by
  obtain ⟨a', ha, h⟩ := bind_eq_ok.mp h
  obtain ⟨b', hb, h⟩ := bind_eq_ok.mp h
  rw [validateIdentifier_ok ha, validateIdentifier_ok hb] at h
  by_cases heq : a = b
  · rw [if_pos heq] at h
    obtain ⟨rfl, rfl⟩ : _ = counts ∧ q = q' := by simpa using h
    subst heq
    exact .stayed rfl
  · rw [if_neg heq] at h
    obtain ⟨now, hnow, h⟩ := bind_eq_ok.mp h
    obtain ⟨hconflict, h⟩ := guard_eq_ok.mp h
    obtain ⟨-, h⟩ := guard_eq_ok.mp h
    simp only [bind_eq_ok] at h
    obtain ⟨q₁, hx₁, q₂, hx₂, q₃, hx₃, h⟩ := h
    obtain ⟨-, rfl⟩ : _ = counts ∧ q₃ = q' := by simpa using h
    refine .rebound heq hnow (by simpa using hconflict) ?_
    rw [(execute_ok hx₃).1, (execute_ok hx₂).1, (execute_ok hx₁).1]
    exact rebind_rows heq now q.rows

/-- **Whatever a call answers, it had one of the effects.** -/
theorem exec_effect (h : exec config format call q = .ok (answer, q')) :
    Effect config format q q' call answer := by
  cases call with
  | enqueue s k p i c =>
    obtain ⟨r, rfl, hop⟩ := tag_ok h
    exact enqueue_effect hop
  | get s p | list s st l a | isReclaimable s p c =>
    obtain ⟨⟨r, rfl⟩, hq⟩ := reading_ok h
    exact .idle hq rfl rfl
  | claimNext s o d t c =>
    obtain ⟨r, rfl, hop⟩ := tag_ok h
    exact claimNext_effect hop
  | renew s p t d c =>
    obtain ⟨r, rfl, hop⟩ := tag_ok h
    exact renew_effect hop
  | markExecutionStarted s p t c =>
    obtain ⟨r, rfl, hop⟩ := tag_ok h
    exact markExecutionStarted_effect hop
  | complete s p t c =>
    obtain ⟨r, rfl, hop⟩ := tag_ok h
    exact finish_effect rfl hop
  | fail s p t e c =>
    obtain ⟨r, rfl, hop⟩ := tag_ok h
    obtain ⟨-, hop⟩ := guard_eq_ok.mp hop
    exact finish_effect rfl hop
  | cancelClaimed s p t c =>
    obtain ⟨r, rfl, hop⟩ := tag_ok h
    exact finish_effect rfl hop
  | release s p t c =>
    obtain ⟨r, rfl, hop⟩ := tag_ok h
    exact release_effect hop
  | deletePending s p c =>
    obtain ⟨r, rfl, hop⟩ := tag_ok h
    exact deletePending_effect hop
  | cancelPendingForSession s c =>
    obtain ⟨r, rfl, hop⟩ := tag_ok h
    exact cancelPendingForSession_effect hop
  | rebindRecoverable a b c =>
    obtain ⟨r, rfl, hop⟩ := tag_ok h
    exact rebindRecoverable_effect hop

theorem Effect.presented (h : Effect config format q q' call answer)
    (hcall : call.presents = some (p, t, c)) :
    ∃ s now row, readClock c = .ok now ∧ Leased q s p t now row := by
  cases h with
  | idle _ hnone _ => rw [hnone] at hcall; cases hcall
  | renewed hclock hlease _ | started hclock hlease _ _ | released hclock hlease _ =>
    obtain ⟨rfl, rfl, rfl⟩ : _ = p ∧ _ = t ∧ _ = c := by simpa [Call.presents] using hcall
    exact ⟨_, _, _, hclock, hlease⟩
  | finished hfin hclock hlease _ =>
    cases call with
    | complete | fail | cancelClaimed =>
      obtain ⟨rfl, rfl, rfl⟩ : _ = p ∧ _ = t ∧ _ = c := by simpa [Call.presents] using hcall
      obtain ⟨rfl, rfl, rfl, rfl, -, -⟩ := by simpa [Call.finishing] using hfin
      exact ⟨_, _, _, hclock, hlease⟩
    | _ => simp [Call.finishing] at hfin
  | _ => simp [Call.presents] at hcall

/-! ### The columns no operation rewrites -/

/-- A row's identity: the columns `enqueue` writes and no later statement touches. -/
def Row.identity (r : Row T) : Nat × String × String × String × String :=
  (r.sequence, r.promptId, r.idempotencyKey, r.payloadJson, r.payloadSha256)

/-- The answer that reports a new prompt. -/
def Answer.creates : Answer T P → Bool
  | .enqueued result => result.created
  | _ => false

theorem Effect.identities (h : Effect config format q q' call answer) (hc : answer.creates = false) :
    q'.rows.map Row.identity = q.rows.map Row.identity := by
  cases h with
  | idle h _ _ | stayed h => rw [h]
  | created => simp [Answer.creates] at hc
  | claimed _ _ _ _ hrows | renewed _ _ hrows | started _ _ _ hrows | finished _ _ _ hrows
  | released _ _ hrows | deleted _ _ hrows | cancelled hrows =>
    rw [hrows]
    refine map_updateWhere ?_ q.rows
    intro r
    rfl
  | rebound _ _ _ hrows =>
    rw [hrows, List.map_map]
    exact List.map_congr_left fun r _ => by simp [Row.identity]

theorem Effect.keeps (h : Effect config format q q' call answer) {r : Row T} (hr : r ∈ q.rows) :
    ∃ r' ∈ q'.rows, r'.identity = r.identity := by
  have hmem : r.identity ∈ q.rows.map Row.identity := List.mem_map_of_mem hr
  by_cases hc : answer.creates = true
  · cases h with
    | created _ _ _ _ _ hrows =>
      rw [hrows]
      exact ⟨r, List.mem_append_left _ hr, rfl⟩
    | idle h _ _ | stayed h => exact ⟨r, h ▸ hr, rfl⟩
    | _ => simp [Answer.creates] at hc
  · rw [← h.identities (by simpa using hc)] at hmem
    exact List.mem_map.mp hmem

theorem Effect.origin (h : Effect config format q q' call answer) {r' : Row T} (hr' : r' ∈ q'.rows) :
    (∃ r ∈ q.rows, r.identity = r'.identity) ∨
      ∃ p text normalized, format.serializePayload p = .ok (text, normalized) ∧
        r'.payloadJson = text ∧ r'.payloadSha256 = format.sha256 text := by
  by_cases hc : answer.creates = true
  · cases h with
    | created _ _ hser _ _ hrows =>
      rw [hrows, List.mem_append, List.mem_singleton] at hr'
      rcases hr' with hr | rfl
      · exact .inl ⟨r', hr, rfl⟩
      · exact .inr ⟨_, _, _, hser, rfl, rfl⟩
    | idle _ _ hsilent =>
      cases answer with
      | enqueued result =>
        simp only [Answer.creates] at hc
        simp [Answer.silent, hc] at hsilent
      | _ => simp [Answer.creates] at hc
    | _ => simp [Answer.creates] at hc
  · have hmem : r'.identity ∈ q.rows.map Row.identity := by
      rw [← h.identities (by simpa using hc)]
      exact List.mem_map_of_mem hr'
    obtain ⟨r, hr, heq⟩ := List.mem_map.mp hmem
    exact .inl ⟨r, hr, heq⟩

/-- Every run of the queue: any calls by any clients, from an empty table. -/
abbrev History (config : PromptQueueConfig) (format : PayloadFormat P)
    (trace : List (Event T P)) (q : Queue T) : Prop :=
  Run (Commit (exec config format)) Queue.empty trace q

end Effects

/-- The payload of one text field, as its canonical JSON. -/
def promptText (text : String) : String := "\x7b\"prompt\":\"" ++ text ++ "\"\x7d"

/-- The format of the two prompts that the runs below queue. -/
def promptFormat : PayloadFormat String :=
  .canonical fun text =>
    if text = promptText "a" then
      "732acbb3e402e912437dbe53442ca54368b45e73c284acbf4c0530fac53cca74"
    else if text = promptText "b" then
      "8e71c43ded330b0fc5a427dccc809d279ff89ac2ee06037497b8a1c4918ac306"
    else text

end AlysisCode.PromptQueue
