/-
What a call on the prompt queue can do.

`exec` runs one public call.  Everything proved about runs of the queue rests on one
inversion: `exec_effect` says, for a call that succeeded, which of the ten effects it
had, with every check it passed.  No later proof unfolds an operation.
-/
import AlysisCode.PromptQueue.Basic

namespace AlysisCode.PromptQueue

open Table Runs

variable {T P : Type}

/-- A public call with its arguments, the clock reading it takes and the fresh
identifiers it draws. -/
inductive Call (T P : Type) where
  | enqueue (sessionId idempotencyKey : String) (payload : P) (generatedId : String)
      (clock : Option T)
  | get (sessionId promptId : String)
  | list (sessionId : String) (states : List PromptState) (limit afterSequence : Nat)
  | isReclaimable (sessionId promptId : String) (clock : Option T)
  | claimNext (sessionId ownerId : String) (leaseSeconds : T) (leaseToken : String)
      (clock : Option T)
  | renew (sessionId promptId leaseToken : String) (leaseSeconds : T) (clock : Option T)
  | markExecutionStarted (sessionId promptId leaseToken : String) (clock : Option T)
  | complete (sessionId promptId leaseToken : String) (clock : Option T)
  | fail (sessionId promptId leaseToken errorCode : String) (clock : Option T)
  | cancelClaimed (sessionId promptId leaseToken : String) (clock : Option T)
  | release (sessionId promptId leaseToken : String) (clock : Option T)
  | deletePending (sessionId promptId : String) (clock : Option T)
  | cancelPendingForSession (sessionId : String) (clock : Option T)
  | rebindRecoverable (source target : String) (clock : Option T)

/-- What a call answers. -/
inductive Answer (T P : Type) where
  | enqueued (result : EnqueueResult T P)
  | got (item : Option (PromptQueueItem T P))
  | listed (items : List (PromptQueueItem T P))
  | reclaimable (value : Bool)
  | claimed (lease : Option (PromptLease T P))
  | renewed (lease : PromptLease T P)
  | started (item : PromptQueueItem T P)
  | finished (item : PromptQueueItem T P)
  | released (item : PromptQueueItem T P)
  | deleted (item : PromptQueueItem T P)
  | cancelled (count : Nat)
  | rebound (counts : Rebound)

/-- A call and how it ended. -/
abbrev Event (T P : Type) := Call T P × Except PromptQueueError (Answer T P)

section Exec

variable [Clock T] (config : PromptQueueConfig) (format : PayloadFormat P)

def tag {α : Type} (wrap : α → Answer T P) (r : Except PromptQueueError (α × Queue T)) :
    Except PromptQueueError (Answer T P × Queue T) := do
  let (a, q') ← r
  .ok (wrap a, q')

/-- A read answers and leaves the table. -/
def reading {α : Type} (wrap : α → Answer T P) (q : Queue T) (r : Except PromptQueueError α) :
    Except PromptQueueError (Answer T P × Queue T) := do
  let a ← r
  .ok (wrap a, q)

def exec (call : Call T P) (q : Queue T) : Except PromptQueueError (Answer T P × Queue T) :=
  match call with
  | .enqueue s k p i c => tag .enqueued (enqueue config format s k p i c q)
  | .get s p => reading .got q (get format s p q)
  | .list s st l a => reading .listed q (list config format s st l a q)
  | .isReclaimable s p c => reading .reclaimable q (isReclaimable s p c q)
  | .claimNext s o d t c => tag .claimed (claimNext format s o d t c q)
  | .renew s p t d c => tag .renewed (renew format s p t d c q)
  | .markExecutionStarted s p t c => tag .started (markExecutionStarted format s p t c q)
  | .complete s p t c => tag .finished (complete format s p t c q)
  | .fail s p t e c => tag .finished (fail format s p t e c q)
  | .cancelClaimed s p t c => tag .finished (cancelClaimed format s p t c q)
  | .release s p t c => tag .released (release format s p t c q)
  | .deletePending s p c => tag .deleted (deletePending format s p c q)
  | .cancelPendingForSession s c => tag .cancelled (cancelPendingForSession s c q)
  | .rebindRecoverable a b c => tag .rebound (rebindRecoverable a b c q)

end Exec

/-! ### Looking rows up -/

variable (q : Queue T) {sessionId : String} {r a : Row T} {item : PromptQueueItem T P}
  {key : String} {b : Row T}

theorem Queue.eq_of_sequence (ha : a ∈ q.rows) (hb : b ∈ q.rows) (h : a.sequence = b.sequence) :
    a = b :=
  List.inj_on_of_nodup_map (q.constraints.sequence_lt.imp Nat.ne_of_lt) ha hb h

theorem Queue.eq_of_promptId (ha : a ∈ q.rows) (hb : b ∈ q.rows) (h : a.promptId = b.promptId) :
    a = b :=
  List.inj_on_of_nodup_map q.constraints.promptId_unique ha hb h

theorem Queue.eq_of_key (ha : a ∈ q.rows) (hb : b ∈ q.rows) (hs : a.sessionId = b.sessionId)
    (hk : a.idempotencyKey = b.idempotencyKey) : a = b :=
  List.inj_on_of_nodup_map q.constraints.idempotency_unique ha hb (Prod.ext hs hk)

theorem Queue.eq_of_running (ha : a ∈ q.rows) (hb : b ∈ q.rows) (hs : a.sessionId = b.sessionId)
    (har : a.state = .running) (hbr : b.state = .running) :
    a = b :=
  List.inj_on_of_nodup_map q.constraints.one_running
    (List.mem_filter.mpr ⟨ha, by simp [har]⟩) (List.mem_filter.mpr ⟨hb, by simp [hbr]⟩) hs

variable {q : Queue T} {row : Row T} {rows : List (Row T)} {format : PayloadFormat P}
  {f : Row T → Row T}

theorem byId_mem {promptId : String} (h : q.byId promptId = some row) :
    row ∈ q.rows ∧ row.promptId = promptId :=
  ⟨List.mem_of_find?_eq_some h, by simpa using List.find?_some h⟩

theorem byKey_mem (h : q.byKey sessionId key = some row) :
    row ∈ q.rows ∧ row.sessionId = sessionId ∧ row.idempotencyKey = key := by
  have hp := List.find?_some h
  simp only [Bool.and_eq_true, beq_iff_eq] at hp
  exact ⟨List.mem_of_find?_eq_some h, hp.1, hp.2⟩

theorem byKey_none (h : q.byKey sessionId key = none) (hr : row ∈ q.rows)
    (hs : row.sessionId = sessionId) :
    row.idempotencyKey ≠ key := by
  intro hk
  have := List.find?_eq_none.mp h row hr
  simp [hs, hk] at this

theorem byKey_of_mem (h : row ∈ q.rows) : q.byKey row.sessionId row.idempotencyKey = some row := by
  cases hfind : q.byKey row.sessionId row.idempotencyKey with
  | none => exact absurd rfl (byKey_none hfind h rfl)
  | some row' =>
    obtain ⟨hmem, hs, hk⟩ := byKey_mem hfind
    rw [q.eq_of_key hmem h hs hk]

theorem write_some {last : Nat} (h : Queue.write rows last = some q) :
    q.rows = rows ∧ q.lastSequence = last := by
  unfold Queue.write at h
  split at h
  · cases h
    exact ⟨rfl, rfl⟩
  · cases h

theorem execute_ok {last : Nat} (h : Queue.execute rows last = .ok q) :
    q.rows = rows ∧ q.lastSequence = last := by
  unfold Queue.execute at h
  split at h
  · rename_i q' hw
    cases h
    exact write_some hw
  · cases h

theorem itemFromRow_ok (h : itemFromRow format r = .ok item) :
    ∃ payload, item = r.item payload := by
  unfold itemFromRow at h
  split at h
  · cases h
  · rename_i payload _
    exact ⟨payload, by simpa using h.symm⟩

/-! ### Updating one row -/

theorem mem_updateRow (hrow : row ∈ q.rows) (h : r ∈ updateRow row.sequence f q.rows) :
    (r ∈ q.rows ∧ r ≠ row) ∨ r = f row := by
  rcases of_mem_updateWhere h with ⟨hr, hp⟩ | ⟨a, ha, hp, rfl⟩
  · refine .inl ⟨hr, ?_⟩
    rintro rfl
    simp at hp
  · rw [q.eq_of_sequence ha hrow (by simpa using hp)]
    exact .inr rfl

theorem mem_updateRow_self (hrow : row ∈ q.rows) : f row ∈ updateRow row.sequence f q.rows :=
  mem_updateWhere_of_pos hrow (by simp)

theorem mem_updateRow_of_ne (hrow : row ∈ q.rows) (hr : r ∈ q.rows) (hne : r ≠ row) :
    r ∈ updateRow row.sequence f q.rows :=
  mem_updateWhere_of_neg hr (fun h => hne (q.eq_of_sequence hr hrow (by simpa using h)))

theorem map_updateRow {α : Type} {sequence : Nat} {g : Row T → α} (hg : ∀ r, g (f r) = g r) :
    (updateRow sequence f rows).map g = rows.map g := map_updateWhere hg rows

theorem updateAndLoad_ok {q' : Queue T} (hrow : row ∈ q.rows)
    (hseq : (f row).sequence = row.sequence)
    (h : q.updateAndLoad format row.sequence f = .ok (item, q')) :
    q'.rows = updateRow row.sequence f q.rows ∧ ∃ payload, item = (f row).item payload := by
  obtain ⟨q₁, hx, h⟩ := bind_eq_ok.mp h
  obtain ⟨r, hr, h⟩ := bind_eq_ok.mp h
  obtain ⟨i, hi, h⟩ := bind_eq_ok.mp h
  obtain ⟨rfl, rfl⟩ : i = item ∧ q₁ = q' := by simpa using h
  have hrows := (execute_ok hx).1
  refine ⟨hrows, ?_⟩
  have hr' : r = f row := by
    unfold Queue.rowAt at hr
    split at hr
    · cases hr
    · rename_i r' hfind
      cases hr
      have hself : f row ∈ q₁.rows := hrows ▸ mem_updateRow_self hrow
      refine q₁.eq_of_sequence (List.mem_of_find?_eq_some hfind) hself ?_
      rw [hseq]
      simpa using List.find?_some hfind
  rw [hr'] at hi
  exact itemFromRow_ok hi

theorem updateAndLoad_of_constraints {payload : P} (hrow : row ∈ q.rows)
    (hseq : (f row).sequence = row.sequence)
    (hcon : Constraints (updateRow row.sequence f q.rows) q.lastSequence)
    (hload : format.loads (f row).payloadJson = some payload) :
    q.updateAndLoad format row.sequence f =
      .ok ((f row).item payload, ⟨updateRow row.sequence f q.rows, q.lastSequence, hcon⟩) := by
  have hself : f row ∈ updateRow row.sequence f q.rows := mem_updateRow_self hrow
  have hexec : Queue.execute (updateRow row.sequence f q.rows) q.lastSequence =
      .ok ⟨updateRow row.sequence f q.rows, q.lastSequence, hcon⟩ := by
    simp only [Queue.execute, Queue.write, dif_pos hcon]
  have hat : Queue.rowAt ⟨updateRow row.sequence f q.rows, q.lastSequence, hcon⟩ row.sequence =
      .ok (f row) := by
    unfold Queue.rowAt
    split
    · rename_i hnone
      exact absurd hseq (by simpa using List.find?_eq_none.mp hnone _ hself)
    · rename_i r hfind
      congr 1
      refine Queue.eq_of_sequence ⟨_, _, hcon⟩ (List.mem_of_find?_eq_some hfind) hself ?_
      rw [hseq]
      simpa using List.find?_some hfind
  simp only [Queue.updateAndLoad, hexec, ok_bind, hat, itemFromRow, hload]

/-! ### Rebinding, row by row

The three statements of `rebind_recoverable` select disjoint sets of rows, and a row
one of them moved is no longer in the source session, so together they are one map.
-/

section Rebind

variable [Clock T]

/-- What `rebind_recoverable` makes of a row. -/
def Row.rebind (source target : String) (now : T) (r : Row T) : Row T :=
  if r.sessionId = source then
    if r.state = .pending ∨ r.live now then r.moveTo target now
    else if r.state = .running ∧ r.expiredBy now then r.recoverTo target now
    else r
  else r

theorem rebind_rows {source target : String} (hne : source ≠ target) (now : T)
    (rows : List (Row T)) :
    updateWhere (fun r => r.sessionId == source && r.live now) (Row.moveTo target now)
      (updateWhere (fun r => r.sessionId == source && (r.state == .running && r.expiredBy now))
        (Row.recoverTo target now)
        (updateWhere (fun r => r.sessionId == source && r.state == .pending)
          (Row.moveTo target now) rows))
      = rows.map (Row.rebind source target now) := by
  unfold updateWhere
  rw [List.map_map, List.map_map]
  refine List.map_congr_left fun r _ => ?_
  have hne' : target ≠ source := hne.symm
  simp only [Function.comp_apply, Row.rebind, Row.live]
  by_cases hs : r.sessionId = source
  · -- a lease that has expired is not live, so at most one statement selects the row
    have hexcl : r.expiredBy now = true → r.expiresAfter now = false := by
      unfold Row.expiredBy Row.expiresAfter
      cases r.leaseExpiresAt with
      | none | some e => simp
    by_cases hp : r.state = .pending
    · simp [hs, hp, Row.moveTo, hne']
    · by_cases hrun : r.state = .running
      · cases hx : r.expiredBy now with
        | true => simp [hs, hrun, hx, hexcl hx, Row.recoverTo, hne']
        | false => simp [hs, hrun, hx]
      · simp [hp, hrun]
  · simp [hs]

variable {source target : String} {now : T} {r : Row T}

@[simp] theorem rebind_sequence : (r.rebind source target now).sequence = r.sequence := by
  unfold Row.rebind
  split_ifs <;> rfl

@[simp] theorem rebind_promptId : (r.rebind source target now).promptId = r.promptId := by
  unfold Row.rebind
  split_ifs <;> rfl

@[simp] theorem rebind_idempotencyKey :
    (r.rebind source target now).idempotencyKey = r.idempotencyKey := by
  unfold Row.rebind
  split_ifs <;> rfl

@[simp] theorem rebind_payloadJson : (r.rebind source target now).payloadJson = r.payloadJson := by
  unfold Row.rebind
  split_ifs <;> rfl

@[simp] theorem rebind_payloadSha256 :
    (r.rebind source target now).payloadSha256 = r.payloadSha256 := by
  unfold Row.rebind
  split_ifs <;> rfl

@[simp] theorem rebind_executionStartedAt :
    (r.rebind source target now).executionStartedAt = r.executionStartedAt := by
  unfold Row.rebind
  split_ifs <;> rfl

theorem rebind_running (h : (r.rebind source target now).state = .running) :
    r.state = .running ∧ (r.rebind source target now).leaseToken = r.leaseToken ∧
      (r.rebind source target now).leaseExpiresAt = r.leaseExpiresAt := by
  unfold Row.rebind at h ⊢
  split_ifs at h ⊢ with h1 h2 h3
  · exact ⟨h, rfl, rfl⟩
  · simp [Row.recoverTo] at h
  · exact ⟨h, rfl, rfl⟩
  · exact ⟨h, rfl, rfl⟩

@[simp] theorem rebind_outstanding : (r.rebind source target now).outstanding = r.outstanding := by
  unfold Row.rebind
  split_ifs with h1 h2 h3
  · rfl
  · simp [Row.outstanding, Row.recoverTo, h3.1]
  · rfl
  · rfl

theorem rebind_of_ne (h : r.sessionId ≠ source) : r.rebind source target now = r := by
  unfold Row.rebind
  rw [if_neg h]

theorem rebind_sessionId (hcheck : LeaseCheck r) (hs : r.sessionId = source)
    (ho : r.outstanding = true) : (r.rebind source target now).sessionId = target := by
  unfold Row.rebind
  rw [if_pos hs]
  split_ifs with h2 h3
  · rfl
  · rfl
  · exfalso
    simp only [Row.outstanding, Bool.or_eq_true, beq_iff_eq] at ho
    rcases ho with ho | ho
    · exact h2 (.inl ho)
    · -- a running row has a lease, and it has either expired or not
      rcases hcheck with ⟨-, -, -, hexp⟩ | ⟨hnot, -⟩
      · obtain ⟨e, he⟩ := Option.isSome_iff_exists.mp hexp
        rcases le_or_gt e now with hle | hlt
        · exact h3 ⟨ho, by simp [Row.expiredBy, he, hle]⟩
        · exact h2 (.inr (by simp [Row.live, Row.expiresAfter, ho, he, hlt]))
      · exact hnot ho

end Rebind

end AlysisCode.PromptQueue
