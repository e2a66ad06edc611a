/-
Claiming the next prompt.

`claim_next` promises the lowest outstanding prompt of a session that has no live
lease.  It takes the lowest row it may take, pending or expired, and marks it running;
the index that allows a session one running row then objects whenever an *expired*
row still holds the session's slot and is not the row taken.  Rows are moved between
sessions with their sequence numbers, so that happens: a pending row moved in from
another session can precede the expired one.

`claimNext_iff` says when the promise is kept, in every reachable state: exactly when
the session has a live lease or its expired running row comes first.
-/
import AlysisCode.PromptQueue.Effects

namespace AlysisCode.PromptQueue

open Table Runs

variable {T P : Type}

/-! ### Stored payloads decode -/

/-- Every stored payload can be read back. -/
def Decodes (format : PayloadFormat P) (q : Queue T) : Prop :=
  ∀ r ∈ q.rows, ∃ payload, format.loads r.payloadJson = some payload

section Decoding

variable [Clock T] {config : PromptQueueConfig} {format : PayloadFormat P}

theorem Effect.decodes {call : Call T P} {q q' : Queue T} {answer : Answer T P}
    (h : Effect config format q q' call answer) (hq : Decodes format q) : Decodes format q' := by
  intro r' hr'
  rcases h.origin hr' with ⟨r, hr, heq⟩ | ⟨p, text, normalized, hser, htext, -⟩
  · have hjson : r.payloadJson = r'.payloadJson := congrArg (·.2.2.2.1) heq
    rw [← hjson]
    exact hq r hr
  · rw [htext]
    exact ⟨normalized, format.loads_serialize p text normalized hser⟩

theorem History.decodes {trace : List (Event T P)}
    {q : Queue T} (h : History config format trace q) : Decodes format q := by
  refine h.commit_invariant ?_ ?_
  · intro r hr
    simp [Queue.empty] at hr
  · intro call q a q' hq hexec
    exact (exec_effect hexec).decodes hq

end Decoding

/-! ### One running row a session -/

theorem oneRunning_iff {rows : List (Row T)} (hseq : (rows.map (·.sequence)).Pairwise (· < ·)) :
    ((rows.filter (·.state == .running)).map (·.sessionId)).Nodup ↔
      ∀ a ∈ rows, ∀ b ∈ rows, a.state = .running → b.state = .running →
        a.sessionId = b.sessionId → a.sequence = b.sequence := by
  constructor
  · intro h a ha b hb har hbr hs
    have hab : a = b := List.inj_on_of_nodup_map h
      (List.mem_filter.mpr ⟨ha, by simp [har]⟩) (List.mem_filter.mpr ⟨hb, by simp [hbr]⟩) hs
    rw [hab]
  · intro h
    rw [List.Nodup, List.pairwise_map, List.pairwise_filter]
    rw [List.pairwise_map] at hseq
    refine hseq.imp_of_mem ?_
    intro a b ha hb hlt har hbr hs
    have heq := h a ha b hb (by simpa using har) (by simpa using hbr) hs
    omega

theorem claim_constraints {q : Queue T} {row : Row T} (hrow : row ∈ q.rows)
    (t o : String) (expiresAt now : T) :
    Constraints (updateRow row.sequence (Row.claim t o row.sessionId expiresAt now) q.rows)
        q.lastSequence ↔
      ∀ e ∈ q.rows, e.sessionId = row.sessionId → e.state = .running → e = row := by
  set f := Row.claim t o row.sessionId expiresAt now with _
  have hseq : ((updateRow row.sequence f q.rows).map (·.sequence)).Pairwise (· < ·) := by
    rw [map_updateRow (fun _ => by rfl)]
    exact q.constraints.sequence_lt
  constructor
  · intro h e he hs hrun
    by_contra hne
    have hone := (oneRunning_iff hseq).mp h.one_running e (mem_updateRow_of_ne hrow he hne)
      (f row) (mem_updateRow_self hrow) hrun rfl hs
    exact hne (q.eq_of_sequence he hrow hone)
  · intro h
    refine ⟨hseq, ?_, ?_, ?_, (oneRunning_iff hseq).mpr ?_, ?_⟩
    · intro r hr
      rcases mem_updateRow hrow hr with ⟨hr, -⟩ | rfl
      · exact q.constraints.sequence_le r hr
      · exact q.constraints.sequence_le row hrow
    · rw [map_updateRow (fun _ => by rfl)]
      exact q.constraints.promptId_unique
    · rw [map_updateRow (fun _ => by rfl)]
      exact q.constraints.idempotency_unique
    · intro a ha b hb har hbr hs
      -- whichever of the two is the claimed row, the other is no second running row
      rcases mem_updateRow hrow ha with ⟨ha, hane⟩ | rfl
      · rcases mem_updateRow hrow hb with ⟨hb, -⟩ | rfl
        · rw [q.eq_of_running ha hb hs har hbr]
        · exact absurd (h a ha hs har) hane
      · rcases mem_updateRow hrow hb with ⟨hb, hbne⟩ | rfl
        · exact absurd (h b hb hs.symm hbr) hbne
        · rfl
    · intro r hr
      rcases mem_updateRow hrow hr with ⟨hr, -⟩ | rfl
      · exact q.constraints.lease_check r hr
      · exact .inl ⟨rfl, rfl, rfl, rfl⟩

/-! ### What `claim_next` promises -/

section Claim

variable [Clock T] {config : PromptQueueConfig} {format : PayloadFormat P}

/-- A row of the session is running under a lease that has not expired. -/
def Queue.Busy (s : String) (now : T) (q : Queue T) : Prop :=
  ∃ r ∈ q.rows, r.sessionId = s ∧ r.live now = true

structure Queue.First (s : String) (q : Queue T) (row : Row T) : Prop where
  mem : row ∈ q.rows
  session : row.sessionId = s
  outstanding : row.outstanding = true
  least : ∀ r ∈ q.rows, r.sessionId = s → r.outstanding = true → row.sequence ≤ r.sequence

/-- The session's expired running rows come before its other outstanding rows. -/
def Queue.ExpiredFirst (s : String) (now : T) (q : Queue T) : Prop :=
  ∀ e ∈ q.rows, e.sessionId = s → e.state = .running → e.expiredBy now = true →
    ∀ r ∈ q.rows, r.sessionId = s → r.outstanding = true → e.sequence ≤ r.sequence

/-- What a call of `claim_next` is to do. -/
structure ClaimsFirst (format : PayloadFormat P) (s o : String) (d : T) (t : String)
    (c : Option T) (now : T) (q : Queue T) : Prop where
  /-- Without a live lease it claims the lowest outstanding prompt. -/
  claims : ¬ q.Busy s now → (∃ r ∈ q.rows, r.sessionId = s ∧ r.outstanding = true) →
    ∃ row lease q', q.First s row ∧ claimNext format s o d t c q = .ok (some lease, q') ∧
      lease.item.promptId = row.promptId ∧ lease.leaseToken = t ∧
      q'.rows = updateRow row.sequence (Row.claim t o s (now + d) now) q.rows
  /-- It answers `None` when there is a live lease or nothing to claim, and only then. -/
  none_iff : (∃ q', claimNext format s o d t c q = .ok (none, q')) ↔
    q.Busy s now ∨ ∀ r ∈ q.rows, r.sessionId = s → r.outstanding = false
  no_storage_error : ∀ m, claimNext format s o d t c q ≠ .error (.storage m)

variable {now : T} {q : Queue T} {s : String}

variable {r row : Row T} {c : Option T}

theorem claimNext_eq {o t : String} {d : T} (hs : validateIdentifier s "session" 256 = .ok s)
    (ho : validateIdentifier o "owner" 256 = .ok o) (hd : validateLeaseSeconds d = .ok d)
    (hc : readClock c = .ok now) :
    claimNext format s o d t c q =
      if q.rows.any fun r => r.sessionId == s && r.live now then .ok (none, q)
      else match q.rows.find? fun r => r.sessionId == s && r.claimable now with
        | none => .ok (none, q)
        | some row =>
          q.updateAndLoad format row.sequence (Row.claim t o s (now + d) now) >>= fun r =>
            .ok (some { item := r.1, leaseToken := t, ownerId := o, expiresAt := now + d }, r.2) := by
  unfold claimNext
  rw [hs, ho, hd, hc]
  rfl

theorem busy_iff : (q.rows.any fun r => r.sessionId == s && r.live now) = true ↔ q.Busy s now := by
  simp [Queue.Busy]

theorem expiredBy_of_running (hcheck : LeaseCheck r) (hrun : r.state = .running)
    (hlive : ¬ r.live now = true) : r.expiredBy now = true := by
  rcases hcheck with ⟨-, -, -, hexp⟩ | ⟨hnot, -⟩
  · obtain ⟨e, he⟩ := Option.isSome_iff_exists.mp hexp
    simpa [Row.live, Row.expiresAfter, Row.expiredBy, hrun, he] using hlive
  · exact absurd hrun hnot

theorem claimable_of_outstanding (hbusy : ¬ q.Busy s now) (hr : r ∈ q.rows) (hs : r.sessionId = s)
    (ho : r.outstanding = true) : r.claimable now = true := by
  simp only [Row.outstanding, Bool.or_eq_true, beq_iff_eq] at ho
  rcases ho with hp | hrun
  · simp [Row.claimable, hp]
  · have hexp := expiredBy_of_running (q.constraints.lease_check r hr) hrun
      (fun hlive => hbusy ⟨r, hr, hs, hlive⟩)
    simp [Row.claimable, hrun, hexp]

theorem outstanding_of_claimable (h : r.claimable now = true) : r.outstanding = true := by
  simp only [Row.claimable, Bool.or_eq_true, Bool.and_eq_true, beq_iff_eq] at h
  rcases h with hp | ⟨hrun, -⟩
  · simp [Row.outstanding, hp]
  · simp [Row.outstanding, hrun]

theorem first_of_find (hbusy : ¬ q.Busy s now)
    (hfind : (q.rows.find? fun r => r.sessionId == s && r.claimable now) = some row) :
    q.First s row := by
  have hsel := List.find?_some hfind
  simp only [Bool.and_eq_true, beq_iff_eq] at hsel
  refine ⟨List.mem_of_find?_eq_some hfind, hsel.1, outstanding_of_claimable hsel.2, ?_⟩
  intro r hr hs ho
  have hsorted := List.pairwise_map.mp q.constraints.sequence_lt
  have hclaim := claimable_of_outstanding hbusy hr hs ho
  rcases find?_first hsorted hfind r hr (by simp [hs, hclaim]) with rfl | hlt
  · exact Nat.le_refl _
  · exact Nat.le_of_lt hlt

theorem slot_of_expiredFirst (hbusy : ¬ q.Busy s now) (hexp : q.ExpiredFirst s now)
    (hfirst : q.First s row) :
    ∀ e ∈ q.rows, e.sessionId = row.sessionId → e.state = .running → e = row := by
  intro e he hs hrun
  rw [hfirst.session] at hs
  have hout : e.outstanding = true := by simp [Row.outstanding, hrun]
  have hee := expiredBy_of_running (q.constraints.lease_check e he) hrun
    (fun hlive => hbusy ⟨e, he, hs, hlive⟩)
  have h1 := hexp e he hs hrun hee row hfirst.mem hfirst.session hfirst.outstanding
  have h2 := hfirst.least e he hs hout
  exact q.eq_of_sequence he hfirst.mem (by omega)

theorem claimNext_of_expiredFirst {o t : String} {d : T} (hq : Decodes format q)
    (hs : validateIdentifier s "session" 256 = .ok s)
    (ho : validateIdentifier o "owner" 256 = .ok o) (hd : validateLeaseSeconds d = .ok d)
    (hc : readClock c = .ok now) (hbusy : ¬ q.Busy s now) (hexp : q.ExpiredFirst s now)
    (hfind : (q.rows.find? fun r => r.sessionId == s && r.claimable now) = some row) :
    ∃ payload q', claimNext format s o d t c q =
        .ok (some ⟨(row.claim t o s (now + d) now).item payload, t, o, now + d⟩, q') ∧
      q'.rows = updateRow row.sequence (Row.claim t o s (now + d) now) q.rows := by
  have hfirst := first_of_find hbusy hfind
  obtain ⟨payload, hload⟩ := hq row hfirst.mem
  have hcon := (claim_constraints hfirst.mem t o (now + d) now).mpr
    (slot_of_expiredFirst hbusy hexp hfirst)
  rw [hfirst.session] at hcon
  refine ⟨payload, ⟨_, _, hcon⟩, ?_, rfl⟩
  rw [claimNext_eq hs ho hd hc, if_neg (fun h => hbusy (busy_iff.mp h)), hfind]
  simp only [updateAndLoad_of_constraints hfirst.mem rfl hcon hload, ok_bind]

/--
**When `claim_next` keeps its promise.**  In every reachable state and for every session,
it does what it is to do if and only if the session has a live lease or its expired
running row precedes all its other outstanding rows.
-/
theorem claimNext_iff {trace : List (Event T P)}
    {q : Queue T} (h : History config format trace q) {s o : String} (t : String) {d now : T}
    {c : Option T} (hs : validateIdentifier s "session" 256 = .ok s)
    (ho : validateIdentifier o "owner" 256 = .ok o) (hd : validateLeaseSeconds d = .ok d)
    (hc : readClock c = .ok now) :
    ClaimsFirst format s o d t c now q ↔ q.Busy s now ∨ q.ExpiredFirst s now := by
  constructor
  · intro hclaims
    by_cases hbusy : q.Busy s now
    · exact .inl hbusy
    · refine .inr ?_
      intro e he hes hrun _ r hr hrs hro
      have heo : e.outstanding = true := by simp [Row.outstanding, hrun]
      obtain ⟨row, lease, q', hfirst, -, -, -, hrows⟩ := hclaims.claims hbusy ⟨e, he, hes, heo⟩
      -- the table after the claim satisfies the index, so the claimed row is the expired one
      have hcon : Constraints (updateRow row.sequence
          (Row.claim t o row.sessionId (now + d) now) q.rows) q.lastSequence := by
        rw [hfirst.session]
        refine ⟨hrows ▸ q'.constraints.sequence_lt, ?_, hrows ▸ q'.constraints.promptId_unique,
          hrows ▸ q'.constraints.idempotency_unique, hrows ▸ q'.constraints.one_running,
          hrows ▸ q'.constraints.lease_check⟩
        intro x hx
        rcases mem_updateRow hfirst.mem hx with ⟨hx, -⟩ | rfl
        · exact q.constraints.sequence_le x hx
        · exact q.constraints.sequence_le row hfirst.mem
      have heq := (claim_constraints hfirst.mem t o (now + d) now).mp hcon e he
        (hes.trans hfirst.session.symm) hrun
      rw [heq]
      exact hfirst.least r hr hrs hro
  · intro hcond
    by_cases hbusy : q.Busy s now
    · have hcall : claimNext format s o d t c q = .ok (none, q) := by
        rw [claimNext_eq hs ho hd hc, if_pos (busy_iff.mpr hbusy)]
      refine ⟨fun hnot => absurd hbusy hnot, ?_, ?_⟩
      · exact ⟨fun _ => .inl hbusy, fun _ => ⟨q, hcall⟩⟩
      · intro m hm
        rw [hcall] at hm
        cases hm
    · have hexp : q.ExpiredFirst s now := hcond.resolve_left hbusy
      cases hfind : q.rows.find? fun r => r.sessionId == s && r.claimable now with
      | none =>
        have hcall : claimNext format s o d t c q = .ok (none, q) := by
          rw [claimNext_eq hs ho hd hc, if_neg (fun h => hbusy (busy_iff.mp h)), hfind]
        have hnothing : ∀ r ∈ q.rows, r.sessionId = s → r.outstanding = false := by
          intro r hr hrs
          by_contra hro
          have hclaim := claimable_of_outstanding hbusy hr hrs (by simpa using hro)
          exact absurd (List.find?_eq_none.mp hfind r hr) (by simp [hrs, hclaim])
        refine ⟨?_, ⟨fun _ => .inr hnothing, fun _ => ⟨q, hcall⟩⟩, ?_⟩
        · rintro - ⟨r, hr, hrs, hro⟩
          rw [hnothing r hr hrs] at hro
          cases hro
        · intro m hm
          rw [hcall] at hm
          cases hm
      | some row =>
        have hfirst := first_of_find hbusy hfind
        obtain ⟨payload, q', hcall, hrows⟩ :=
          claimNext_of_expiredFirst (t := t) h.decodes hs ho hd hc hbusy hexp hfind
        refine ⟨fun _ _ => ⟨row, _, q', hfirst, hcall, rfl, rfl, hrows⟩, ?_, ?_⟩
        · constructor
          · rintro ⟨q₁, hnone⟩
            rw [hcall] at hnone
            cases hnone
          · rintro (hb | hnothing)
            · exact absurd hb hbusy
            · have := hnothing row hfirst.mem hfirst.session
              rw [hfirst.outstanding] at this
              cases this
        · intro m hm
          rw [hcall] at hm
          cases hm

end Claim

/-! ### A session that cannot be claimed

Session `a`'s prompt is queued before session `b`'s; `b`'s is claimed, then `a` is
resumed as `b`.  When the claim's lease runs out, the moved prompt comes first.
-/

def blockingCalls : List (Call Nat String) :=
  [.enqueue "a" "k1" (promptText "a") "p1" (some 0),
    .enqueue "b" "k2" (promptText "b") "p2" (some 0),
    .claimNext "b" "w1" 10 "t1" (some 0),
    .rebindRecoverable "a" "b" (some 5)]

/-- The recorded outcomes of these calls and the table they leave. -/
def blocking := replay (exec .standard promptFormat) blockingCalls Queue.empty

theorem claimNext_blocked : History {} promptFormat blocking.1 blocking.2 ∧
      ¬ ClaimsFirst promptFormat "b" "w2" 10 "t2" (some 20) 20 blocking.2 := by
  refine ⟨replay_run _ _ _, ?_⟩
  intro h
  have hraise : claimNext promptFormat "b" "w2" 10 "t2" (some 20) blocking.2 =
      .error (.storage "Prompt queue operation failed.") :=
    eq_error_of_raises (by decide +kernel)
  exact h.no_storage_error _ hraise

/-- The same session while the lease is live: it is busy, and the claim answers `None`. -/
theorem claimNext_live : ClaimsFirst promptFormat "b" "w2" 10 "t2" (some 9) 9 blocking.2 ↔
      blocking.2.Busy "b" 9 ∨ blocking.2.ExpiredFirst "b" 9 := by
  have hrun : History {} promptFormat blocking.1 blocking.2 := replay_run _ _ _
  exact claimNext_iff hrun "t2" (by decide) (by decide) (by decide) (by decide)

end AlysisCode.PromptQueue
