/-
What a job has used.

Totals and events live in two tables: `record_usage` adds an event under the digest of its
idempotency key and the sums to the job's row, in one transaction.  A call with a key that
the job has an event for adds nothing, whichever lease it comes from, and is refused if it
names another usage.  So a job's totals are the sums over its successful calls, each key
counted the first time.
-/
import Mathlib.Algebra.Ring.Int.Defs
import AlysisCode.Swarm.Fences

namespace AlysisCode.Swarm

open Table Runs

variable {T J : Type}

/-! ### Sums -/

/-- The sums per field. -/
def SwarmUsage.total (us : List SwarmUsage) : SwarmUsage where
  calls := (us.map (·.calls)).sum
  inputTokens := (us.map (·.inputTokens)).sum
  outputTokens := (us.map (·.outputTokens)).sum
  cachedInputTokens := (us.map (·.cachedInputTokens)).sum
  totalTokens := (us.map (·.totalTokens)).sum

/-- No field is negative or over `MAX_USAGE_VALUE`. -/
def SwarmUsage.inRange (u : SwarmUsage) : Prop :=
  ∀ v ∈ [u.calls, u.inputTokens, u.outputTokens, u.cachedInputTokens, u.totalTokens],
    0 ≤ v ∧ v ≤ maxUsageValue

theorem safeUsageSum_ok {a b v : Int} (h : safeUsageSum a b = .ok v) :
    v = a + b ∧ v ≤ maxUsageValue := by
  obtain ⟨hnot, h⟩ := guard_eq_ok.mp h
  cases h
  exact ⟨rfl, Int.not_lt.mp hnot⟩

variable {u : SwarmUsage} {key : JobKey} {q' : Store T} {k : String} {row : Row T}

theorem combineUsage_ok {us : List SwarmUsage} {combined : SwarmUsage}
    (h : combineUsage (.total us) u = .ok combined) :
    combined = .total (us ++ [u]) ∧
      ∀ v ∈ [combined.calls, combined.inputTokens, combined.outputTokens,
        combined.cachedInputTokens, combined.totalTokens], v ≤ maxUsageValue := by
  obtain ⟨calls, h₁, h⟩ := bind_eq_ok.mp h
  obtain ⟨inputTokens, h₂, h⟩ := bind_eq_ok.mp h
  obtain ⟨outputTokens, h₃, h⟩ := bind_eq_ok.mp h
  obtain ⟨cachedInputTokens, h₄, h⟩ := bind_eq_ok.mp h
  obtain ⟨totalTokens, h₅, h⟩ := bind_eq_ok.mp h
  cases h
  obtain ⟨rfl, hle₁⟩ := safeUsageSum_ok h₁
  obtain ⟨rfl, hle₂⟩ := safeUsageSum_ok h₂
  obtain ⟨rfl, hle₃⟩ := safeUsageSum_ok h₃
  obtain ⟨rfl, hle₄⟩ := safeUsageSum_ok h₄
  obtain ⟨rfl, hle₅⟩ := safeUsageSum_ok h₅
  constructor
  · simp [SwarmUsage.total]
  · simp [hle₁, hle₂, hle₃, hle₄, hle₅]

/-! ### Events of a job -/

def Store.jobEvents (q : Store T) (key : JobKey) : List (UsageEvent T) :=
  q.events.filter (·.key == key)

/-- A successful `record_usage` for the job: its idempotency key and what it reported. -/
def usageOf (key : JobKey) (e : Event T J) : Option (String × SwarmUsage) :=
  match e with
  | (.recordUsage me lease usage k _, .ok _) =>
    if lease.named me = key then some (strip k, usage) else none
  | _ => none

/-- The successful calls for the job, each idempotency key the first time, by its digest. -/
def recordedOnce (codec : Codec J) (key : JobKey) (trace : List (Event T J)) :
    List (String × SwarmUsage) :=
  firsts (fun p => codec.sha256 p.1) (trace.filterMap (usageOf key))

def Call.records : Call T J → Bool
  | .recordUsage .. => true
  | _ => false

theorem usageOf_of_not_records {call : Call T J} {answer : Answer T J}
    (h : call.records = false) : usageOf key (call, .ok answer) = none := by
  cases call with
  | recordUsage => cases h
  | _ => rfl

/-! ### Only one operation writes events -/

/-- If the operation succeeds, the event table is as before. -/
def KeepsEvents {α : Type} (q : Store T) (r : Except ResumableSwarmError (α × Store T)) : Prop :=
  ∀ a q', r = .ok (a, q') → q'.events = q.events

section Keeps

variable {α β : Type} {q : Store T}

theorem KeepsEvents.ok {a : α} (h : q'.events = q.events) : KeepsEvents q (.ok (a, q')) := by
  intro a' q'' heq
  cases heq
  exact h

theorem KeepsEvents.error {e : ResumableSwarmError} :
    KeepsEvents q (.error e : Except ResumableSwarmError (α × Store T)) := by
  intro a q' heq
  cases heq

theorem KeepsEvents.bind {x : Except ResumableSwarmError β}
    {f : β → Except ResumableSwarmError (α × Store T)}
    (h : ∀ b, x = .ok b → KeepsEvents q (f b)) : KeepsEvents q (x >>= f) := by
  intro a q' heq
  obtain ⟨b, hb, hf⟩ := bind_eq_ok.mp heq
  exact h b hb a q' hf

theorem updateJob_events {f : Row T → Row T}
    (h : q.updateJob key f = .ok q') : q'.events = q.events :=
  (execute_ok h).2

end Keeps

section Effects

variable [Clock T] {codec : Codec J} {config : ResumableSwarmConfig} {q : Store T}

variable {c : Option T} {me : Coordinator} {lease : SwarmWorkerLease T J} {call : Call T J}
  {s : String} {answer : Answer T J} {j : String} {q' : Store T} {r : Option Int} {scope : J}

theorem startJob_events {i : String} {spec : J} :
    KeepsEvents q (startJob codec config me s k spec scope i c q) := by
  refine .bind fun _ _ => .bind fun _ _ => .bind fun _ _ => .bind fun _ _ => .bind fun _ _ => ?_
  dsimp only
  split
  · split
    · exact .error
    · exact .bind fun _ _ => .ok rfl
  · split
    · exact .error
    · refine .bind fun _ _ => ?_
      split
      · exact .error
      · rename_i hwrite
        exact .bind fun _ _ => .ok (write_some hwrite).2

theorem claimJob_events {w t : String} {d : T} :
    KeepsEvents q (claimJob codec me s j w scope d t c q) := by
  refine .bind fun _ _ => .bind fun _ _ => .bind fun _ _ => .bind fun _ _ => .bind fun _ _ =>
    .bind fun _ _ => .bind fun _ _ => .bind fun _ _ => ?_
  split
  · exact .error
  · exact .bind fun _ hq => .bind fun _ _ => .ok (updateJob_events hq)

theorem renew_events {d : T} : KeepsEvents q (renew codec me lease d c q) := by
  refine .bind fun _ _ => .bind fun _ _ => .bind fun _ _ => ?_
  exact .bind fun _ hq => .bind fun _ _ => .ok (updateJob_events hq)

theorem finish_events {state : SwarmJobState} {result code summary : Option String} :
    KeepsEvents q (finish codec me lease state result code summary c q) := by
  refine .bind fun _ _ => .bind fun _ _ => ?_
  exact .bind fun _ hq => .bind fun _ _ => .bind fun _ _ => .ok (updateJob_events hq)

theorem complete_events {result : J} : KeepsEvents q (complete codec me lease result c q) := by
  refine .bind fun _ _ => .bind fun r hr => ?_
  exact .ok (finish_events r.1 r.2 hr)

theorem cancelJob_events : KeepsEvents q (cancelJob codec me s j r c q) := by
  refine .bind fun _ _ => .bind fun _ _ => .bind fun _ _ => .bind fun _ _ => .bind fun _ _ => ?_
  split
  · exact .bind fun _ _ => .ok rfl
  · split
    · exact .error
    · exact .bind fun _ hq => .bind fun _ _ => .bind fun _ _ => .ok (updateJob_events hq)

theorem recoverStaleJobs_events {s : Option String} :
    KeepsEvents q (recoverStaleJobs codec me s c q) := by
  refine .bind fun _ _ => .bind fun _ _ => .bind fun _ hq => .bind fun _ _ => ?_
  exact .ok (execute_ok hq).2

theorem resumeJob_events {g : Grant} : KeepsEvents q (resumeJob codec me s j scope g r c q) := by
  refine .bind fun _ _ => .bind fun _ _ => .bind fun _ _ => .bind fun _ _ => .bind fun _ _ =>
    .bind fun _ _ => .bind fun _ _ => .bind fun q₁ hq₁ => .bind fun _ _ => .bind fun _ _ => ?_
  have hevents : q₁.events = q.events := by
    unfold Store.interruptExpired at hq₁
    split at hq₁
    · exact updateJob_events hq₁
    · rw [Except.ok.inj hq₁]
  split
  · exact .error
  · refine .bind fun _ hq₂ => .bind fun _ _ => .bind fun _ _ => .ok ?_
    rw [updateJob_events hq₂, hevents]

/-- Only `record_usage` writes events. -/
theorem exec_events (h : exec codec config call q = .ok (answer, q')) (hcall : call.records = false) :
    q'.events = q.events := by
  cases call with
  | recordUsage => cases hcall
  | startJob =>
    obtain ⟨a, -, hop⟩ := tag_ok h
    exact startJob_events a q' hop
  | claimJob =>
    obtain ⟨a, -, hop⟩ := tag_ok h
    exact claimJob_events a q' hop
  | renew =>
    obtain ⟨a, -, hop⟩ := tag_ok h
    exact renew_events a q' hop
  | complete =>
    obtain ⟨a, -, hop⟩ := tag_ok h
    exact complete_events a q' hop
  | interrupt | fail =>
    obtain ⟨a, -, hop⟩ := tag_ok h
    obtain ⟨code, -, hop⟩ := bind_eq_ok.mp hop
    obtain ⟨summary, -, hop⟩ := bind_eq_ok.mp hop
    exact finish_events a q' hop
  | cancelJob =>
    obtain ⟨a, -, hop⟩ := tag_ok h
    exact cancelJob_events a q' hop
  | recoverStaleJobs =>
    obtain ⟨a, -, hop⟩ := tag_ok h
    exact recoverStaleJobs_events a q' hop
  | resumeJob =>
    obtain ⟨a, -, hop⟩ := tag_ok h
    exact resumeJob_events a q' hop
  | shouldCancel | getStatus =>
    obtain ⟨a, -, -, rfl⟩ := reading_ok h
    rfl

/-! ### What recording writes -/

theorem Change.usage {row' : Row T} (h : Change codec q call answer row row')
    (hcall : call.records = false) :
    row'.usage = row.usage := by
  cases h with
  | used => cases hcall
  | claimed | renewed | finished | cancelled | expired => rfl
  | resumed _ _ hrow₁ =>
    rcases hrow₁ with rfl | ⟨-, -, rfl⟩
    · rfl
    · rfl

/-- What a successful `record_usage` found and left: an event of the same usage, or a new
one and the row's new sums. -/
theorem recordUsage_spec {st : SwarmJobStatus T} (hq : Clean q)
    (h : recordUsage codec me lease u k c q = .ok (st, q')) :
    ∃ row ∈ q.jobs, row.key = lease.named me ∧
      ((∃ e ∈ q.jobEvents row.key, e.eventHash = codec.sha256 (strip k) ∧ e.usage = u ∧ q' = q) ∨
        (∀ e ∈ q.jobEvents row.key, e.eventHash ≠ codec.sha256 (strip k)) ∧
          ∃ combined now, combineUsage row.usage u = .ok combined ∧
            q'.events = q.events ++ [⟨row.key, codec.sha256 (strip k), u, now⟩] ∧
            q'.jobs = updateWhere (·.key == row.key) (Row.use combined now) q.jobs) := by
  obtain ⟨delta, hdelta, h⟩ := bind_eq_ok.mp h
  obtain ⟨event, hevent, h⟩ := bind_eq_ok.mp h
  obtain ⟨now, -, h⟩ := bind_eq_ok.mp h
  obtain ⟨row, hrow, h⟩ := bind_eq_ok.mp h
  have hlease := requireLiveLease_ok hrow
  obtain ⟨rfl, -⟩ := identifier_ok hevent
  obtain rfl : u = delta := Except.ok.inj (guard_eq_ok.mp (guard_eq_ok.mp hdelta).2).2
  split at h
  · rename_i prior hfind
    obtain ⟨hsame, h⟩ := guard_eq_ok.mp h
    obtain ⟨st', -, h⟩ := bind_eq_ok.mp h
    obtain ⟨-, rfl⟩ : st' = st ∧ q = q' := by simpa using h
    have hmem := List.mem_of_find?_eq_some hfind
    have hprior : prior.key = lease.named me ∧ prior.eventHash = codec.sha256 (strip k) := by
      simpa using List.find?_some hfind
    -- the event's job is one a lease can spell, so it is the leased row
    obtain ⟨r, hr, hkey⟩ := List.mem_map.mp (q.constraints.event_job prior hmem)
    obtain rfl : r = row := hlease.row_named hq hr (hkey.trans hprior.1)
    refine ⟨r, hr, hkey.trans hprior.1, .inl ⟨prior, ?_, hprior.2, not_not.mp hsame, rfl⟩⟩
    exact List.mem_filter.mpr ⟨hmem, by simpa using hkey.symm⟩
  · rename_i hfind
    simp only [bind_eq_ok] at h
    obtain ⟨combined, hcombined, q₁, hq₁, q₂, hq₂, r, hr, st', -, h⟩ := h
    obtain ⟨-, rfl⟩ : st' = st ∧ q₂ = q' := by simpa using h
    have hevents := updateJob_events hq₂
    have hjobs := (execute_ok hq₂).1
    rw [(execute_ok hq₁).2] at hevents
    rw [(execute_ok hq₁).1] at hjobs
    have hname := leased_named (f := Row.use combined now) hq hlease (fun _ => rfl) hjobs hr
    rw [← hname] at hevents hjobs hfind
    refine ⟨row, hlease.mem, hname, .inr ⟨?_, combined, now, hcombined, hevents, hjobs⟩⟩
    intro e he heq
    obtain ⟨hmem, hkey⟩ := List.mem_filter.mp he
    have hnot := List.find?_eq_none.mp hfind e hmem
    simp only [hkey, heq, beq_self_eq_true, Bool.and_self, not_true_eq_false] at hnot

end Effects

/-! ### Accounts -/

section Accounts

variable {codec : Codec J} {q : Store T}

/-- What is true of the two tables after every run. -/
structure Accounted (codec : Codec J) (trace : List (Event T J)) (q : Store T) : Prop where
  /-- A job's events are its recorded calls, in order. -/
  events : ∀ key, (q.jobEvents key).map (fun e => (e.eventHash, e.usage)) =
    (recordedOnce codec key trace).map fun p => (codec.sha256 p.1, p.2)
  /-- Its row has their sums. -/
  totals : ∀ r ∈ q.jobs, r.usage = .total ((q.jobEvents r.key).map (·.usage))
  range : ∀ r ∈ q.jobs, r.usage.inRange
  /-- Every successful call has an event, of the usage it reported. -/
  retried : ∀ key, ∀ p ∈ trace.filterMap (usageOf key),
    ∃ e ∈ q.jobEvents key, e.eventHash = codec.sha256 p.1 ∧ e.usage = p.2

theorem Accounted.empty : Accounted codec [] (Store.empty : Store T) where
  events := fun _ => rfl
  totals := fun _ hr => nomatch hr
  range := fun _ hr => nomatch hr
  retried := fun _ _ hp => nomatch hp

variable {e : Event T J} {trace : List (Event T J)}

theorem Accounted.unrecorded (h : Accounted codec trace q)
    (he : ∀ key, usageOf key e = none) (hevents : q'.events = q.events)
    (hjobs : ∀ r' ∈ q'.jobs, (∃ r ∈ q.jobs, r.key = r'.key ∧ r.usage = r'.usage) ∨
      (r'.usage = {} ∧ ∀ r ∈ q.jobs, r.key ≠ r'.key)) :
    Accounted codec (trace ++ [e]) q' := by
  have hjob : ∀ key, q'.jobEvents key = q.jobEvents key := by
    intro key
    unfold Store.jobEvents
    rw [hevents]
  have hfilter : ∀ key, (trace ++ [e]).filterMap (usageOf key) = trace.filterMap (usageOf key) := by
    intro key
    simp [List.filterMap_append, he key]
  refine ⟨?_, ?_, ?_, ?_⟩
  · intro key
    rw [hjob, recordedOnce, hfilter]
    exact h.events key
  · intro r' hr'
    rw [hjob]
    rcases hjobs r' hr' with ⟨r, hr, hkey, husage⟩ | ⟨husage, hnew⟩
    · rw [← husage, ← hkey]
      exact h.totals r hr
    · -- no event names a job that is not there
      have hnone : q.jobEvents r'.key = [] := by
        apply List.filter_eq_nil_iff.mpr
        intro a ha hkey
        obtain ⟨r, hr, hrkey⟩ := List.mem_map.mp (q.constraints.event_job a ha)
        exact hnew r hr (hrkey.trans (by simpa using hkey))
      rw [husage, hnone]
      rfl
  · intro r' hr'
    rcases hjobs r' hr' with ⟨r, hr, -, husage⟩ | ⟨husage, -⟩
    · rw [← husage]
      exact h.range r hr
    · rw [husage]
      unfold SwarmUsage.inRange
      decide
  · intro key p hp
    rw [hfilter] at hp
    rw [hjob]
    exact h.retried key p hp

theorem filterMap_snoc : (trace ++ [e]).filterMap (usageOf key) =
      trace.filterMap (usageOf key) ++ (usageOf key e).toList := by
  rw [List.filterMap_append]
  congr 1

theorem Accounted.again {p : String × SwarmUsage} (h : Accounted codec trace q)
    (he : ∀ key, usageOf key e = if row.key = key then some p else none)
    (hprior : ∃ a ∈ q.jobEvents row.key, a.eventHash = codec.sha256 p.1 ∧ a.usage = p.2) :
    Accounted codec (trace ++ [e]) q where
  totals := h.totals
  range := h.range
  events := by
    intro key
    rw [h.events key]
    unfold recordedOnce
    rw [filterMap_snoc, he key]
    by_cases hkey : row.key = key
    · subst hkey
      obtain ⟨a, ha, hhash, -⟩ := hprior
      have hmem : (a.eventHash, a.usage) ∈ (recordedOnce codec row.key trace).map
          fun p => (codec.sha256 p.1, p.2) := by
        rw [← h.events row.key]
        exact List.mem_map_of_mem (f := fun e : UsageEvent T => (e.eventHash, e.usage)) ha
      obtain ⟨p', hp', heq⟩ := List.mem_map.mp hmem
      rw [Prod.mk.injEq] at heq
      have hseen : codec.sha256 p.1 ∈ (firsts (fun p => codec.sha256 p.1)
          (trace.filterMap (usageOf row.key))).map fun p => codec.sha256 p.1 :=
        List.mem_map.mpr ⟨p', hp', heq.1.trans hhash⟩
      rw [if_pos rfl, Option.toList_some, firsts_snoc, if_pos hseen]
    · rw [if_neg hkey, Option.toList_none, List.append_nil]
  retried := by
    intro key p' hp'
    rw [filterMap_snoc, he key] at hp'
    rcases List.mem_append.mp hp' with hold | hnew
    · exact h.retried key p' hold
    · by_cases hkey : row.key = key
      · subst hkey
        rw [if_pos rfl, Option.toList_some, List.mem_singleton] at hnew
        rw [hnew]
        exact hprior
      · rw [if_neg hkey] at hnew
        cases hnew

theorem Accounted.first {combined : SwarmUsage} {now : T} (h : Accounted codec trace q)
    (he : ∀ key, usageOf key e = if row.key = key then some (k, u) else none) (hrow : row ∈ q.jobs)
    (hnew : ∀ a ∈ q.jobEvents row.key, a.eventHash ≠ codec.sha256 k)
    (hcombined : combineUsage row.usage u = .ok combined)
    (hevents : q'.events = q.events ++ [⟨row.key, codec.sha256 k, u, now⟩])
    (hjobs : q'.jobs = updateWhere (·.key == row.key) (Row.use combined now) q.jobs) :
    Accounted codec (trace ++ [e]) q' := by
  rw [h.totals row hrow] at hcombined
  obtain ⟨hsum, hle⟩ := combineUsage_ok hcombined
  have hsame : q'.jobEvents row.key = q.jobEvents row.key ++
      [⟨row.key, codec.sha256 k, u, now⟩] := by
    unfold Store.jobEvents
    rw [hevents, List.filter_append]
    congr 1
    simp
  have hother : ∀ key, row.key ≠ key → q'.jobEvents key = q.jobEvents key := by
    intro key hkey
    unfold Store.jobEvents
    rw [hevents, List.filter_append]
    simp [hkey]
  refine ⟨?_, ?_, ?_, ?_⟩
  · intro key
    unfold recordedOnce
    rw [filterMap_snoc, he key]
    by_cases hkey : row.key = key
    · subst hkey
      have hunseen : ¬ codec.sha256 k ∈ (firsts (fun p => codec.sha256 p.1)
          (trace.filterMap (usageOf row.key))).map fun p => codec.sha256 p.1 := by
        intro hmem
        obtain ⟨p, hp, hhash⟩ := List.mem_map.mp hmem
        have hpair : (codec.sha256 p.1, p.2) ∈ (q.jobEvents row.key).map
            fun e => (e.eventHash, e.usage) := by
          rw [h.events row.key]
          exact List.mem_map_of_mem (f := fun p : String × SwarmUsage => (codec.sha256 p.1, p.2)) hp
        obtain ⟨a, ha, heq⟩ := List.mem_map.mp hpair
        rw [Prod.mk.injEq] at heq
        exact hnew a ha (heq.1.trans hhash)
      rw [if_pos rfl, Option.toList_some, firsts_snoc, if_neg hunseen, hsame, List.map_append,
        List.map_append, h.events row.key]
      rfl
    · rw [if_neg hkey, Option.toList_none, List.append_nil, hother key hkey]
      exact h.events key
  · intro r' hr'
    rw [hjobs] at hr'
    rcases of_mem_updateWhere hr' with ⟨hr, hkey⟩ | ⟨r, hr, hkey, rfl⟩
    · rw [hother r'.key fun heq => hkey (by simp [heq])]
      exact h.totals r' hr
    · obtain rfl := q.eq_of_key hr hrow (by simpa using hkey)
      show combined = .total ((q'.jobEvents r.key).map (·.usage))
      rw [hsame, List.map_append]
      exact hsum
  · intro r' hr'
    have hnonneg := q'.constraints.usage_check r' hr'
    rw [hjobs] at hr'
    rcases of_mem_updateWhere hr' with ⟨hr, -⟩ | ⟨r, -, -, rfl⟩
    · exact h.range r' hr
    · intro v hv
      refine ⟨?_, hle v hv⟩
      obtain ⟨h₁, h₂, h₃, h₄, h₅⟩ := hnonneg
      simp only [List.mem_cons, List.not_mem_nil, or_false] at hv
      rcases hv with rfl | rfl | rfl | rfl | rfl
      · exact h₁
      · exact h₂
      · exact h₃
      · exact h₄
      · exact h₅
  · intro key p hp
    rw [filterMap_snoc, he key] at hp
    by_cases hkey : row.key = key
    · subst hkey
      rw [if_pos rfl, Option.toList_some] at hp
      rw [hsame]
      rcases List.mem_append.mp hp with hold | hlast
      · obtain ⟨a, ha, hhash⟩ := h.retried _ p hold
        exact ⟨a, List.mem_append_left _ ha, hhash⟩
      · rw [List.mem_singleton.mp hlast]
        exact ⟨_, List.mem_append_right _ (List.mem_singleton_self _), rfl, rfl⟩
    · rw [if_neg hkey, Option.toList_none, List.append_nil] at hp
      rw [hother key hkey]
      exact h.retried key p hp

end Accounts

/-! ### Runs -/

section Runs

variable [Clock T] {codec : Codec J} {config : ResumableSwarmConfig}

theorem Accounted.step {trace : List (Event T J)} {call : Call T J} {answer : Answer T J}
    {q : Store T} (hclean : Clean q) (h : Accounted codec trace q)
    (hexec : exec codec config call q = .ok (answer, q')) :
    Accounted codec (trace ++ [(call, .ok answer)]) q' := by
  by_cases hcall : call.records = true
  · cases call with
    | recordUsage me lease u k c =>
      obtain ⟨st, rfl, hop⟩ := tag_ok hexec
      obtain ⟨row, hrow, hname, hspec⟩ := recordUsage_spec hclean hop
      have he : ∀ key, usageOf key ((.recordUsage me lease u k c, .ok (.used st)) : Event T J) =
          if row.key = key then some (strip k, u) else none := by
        intro key
        rw [hname]
        rfl
      rcases hspec with ⟨e, hmem, hhash, husage, rfl⟩ |
        ⟨hnew, combined, now, hcombined, hevents, hjobs⟩
      · exact h.again he ⟨e, hmem, hhash, husage⟩
      · exact h.first he hrow hnew hcombined hevents hjobs
    | _ => cases hcall
  · rw [Bool.not_eq_true] at hcall
    refine h.unrecorded (fun _ => usageOf_of_not_records hcall) (exec_events hexec hcall) ?_
    intro r' hr'
    cases exec_effect hclean hexec with
    | idle heq => exact .inl ⟨r', heq ▸ hr', rfl, rfl⟩
    | changed hrow hjobs hchange =>
      rw [hjobs] at hr'
      rcases of_mem_updateWhere hr' with ⟨hr, -⟩ | ⟨r, hr, hkey, rfl⟩
      · exact .inl ⟨r', hr, rfl, rfl⟩
      · obtain rfl := q.eq_of_key hr hrow (by simpa using hkey)
        exact .inl ⟨r, hr, (change_moves hchange).key.symm, (hchange.usage hcall).symm⟩
    | recovered _ hjobs =>
      rw [hjobs] at hr'
      rcases of_mem_updateWhere hr' with ⟨hr, -⟩ | ⟨r, hr, -, rfl⟩
      · exact .inl ⟨r', hr, rfl, rfl⟩
      · exact .inl ⟨r, hr, rfl, rfl⟩
    | inserted _ _ _ hjobs =>
      have hnodup := q'.constraints.key_unique
      rw [hjobs] at hr' hnodup
      rcases List.mem_append.mp hr' with hr | hlast
      · exact .inl ⟨r', hr, rfl, rfl⟩
      · rw [List.mem_singleton] at hlast
        subst hlast
        refine .inr ⟨rfl, ?_⟩
        intro r hr heq
        rw [List.map_append, List.nodup_append] at hnodup
        exact hnodup.2.2 _ (List.mem_map_of_mem hr) _ (List.mem_singleton.mpr rfl) heq

theorem History.accounted {trace : List (Event T J)} {q : Store T}
    (h : History codec config trace q) : Accounted codec trace q := by
  refine Run.history (I := Accounted codec) .empty ?_ h
  intro trace q e q' hrun hq hstep
  cases hstep with
  | ok hexec => exact hq.step (History.sound hrun).clean hexec
  | error _ =>
    refine hq.unrecorded ?_ rfl fun r hr => .inl ⟨r, hr, rfl, rfl⟩
    intro key
    unfold usageOf
    split
    · rename_i heq
      simp at heq
    · rfl

/-- The accounts of a run. -/
structure UsageAccounts (codec : Codec J) (config : ResumableSwarmConfig)
    (trace : List (Event T J)) (q : Store T) : Prop where
  /-- A job's columns are the sums of its rows in the event table. -/
  totals : ∀ r ∈ q.jobs, r.usage = .total ((q.jobEvents r.key).map (·.usage))
  /-- Those rows are its successful `record_usage` calls, each key (by its digest) once. -/
  once : ∀ key, (q.jobEvents key).map (fun e => (e.eventHash, e.usage)) =
    (recordedOnce codec key trace).map fun p => (codec.sha256 p.1, p.2)
  /-- So, where the digest tells a job's keys apart, the columns count each key once. -/
  keyed : ∀ r ∈ q.jobs, (∀ p ∈ trace.filterMap (usageOf r.key),
      ∀ p' ∈ trace.filterMap (usageOf r.key), codec.sha256 p.1 = codec.sha256 p'.1 → p.1 = p'.1) →
    r.usage = .total ((firsts (·.1) (trace.filterMap (usageOf r.key))).map (·.2))
  /-- A retry that succeeds reports the usage that is on record. -/
  retried : ∀ key, ∀ p ∈ trace.filterMap (usageOf key),
    ∃ e ∈ q.jobEvents key, e.eventHash = codec.sha256 p.1 ∧ e.usage = p.2
  range : ∀ r ∈ q.jobs, r.usage.inRange
  /-- A `record_usage` that raises leaves both tables. -/
  refused : ∀ me lease u k c e q',
    Commit (exec codec config) q (.recordUsage me lease u k c, .error e) q' →
      q'.jobs = q.jobs ∧ q'.events = q.events

/-- **Usage is accounted for**, whatever the calls and their order. -/
theorem usage_accounts {trace : List (Event T J)} {q : Store T}
    (h : History codec config trace q) : UsageAccounts codec config trace q where
  totals := h.accounted.totals
  once := h.accounted.events
  keyed := by
    intro r hr hinj
    have hsame : recordedOnce codec r.key trace =
        firsts (·.1) (trace.filterMap (usageOf r.key)) := by
      apply firsts_congr
      intro p hp p' hp'
      exact ⟨hinj p hp p' hp', fun heq => by rw [heq]⟩
    have hevents : (q.jobEvents r.key).map (·.usage) =
        (recordedOnce codec r.key trace).map (·.2) := by
      have hpairs := congrArg (List.map Prod.snd) (h.accounted.events r.key)
      simpa [List.map_map, Function.comp_def] using hpairs
    rw [h.accounted.totals r hr, hevents, hsame]
  retried := h.accounted.retried
  range := h.accounted.range
  refused := by
    intro me lease u k c e q' hstep
    cases hstep
    exact ⟨rfl, rfl⟩

end Runs

/-! ### A retry under the next lease -/

def meteredUsage : SwarmUsage :=
  { calls := 1, inputTokens := 5, outputTokens := 2, cachedInputTokens := 0, totalTokens := 7 }

def meteredCalls : List (Call Nat String) :=
  [.startJob desk "s1" "k1" "\x7b\x7d" "\x7b\x7d" "job_1" (some 0),
    .claimJob desk "s1" "job_1" "w1" "\x7b\x7d" 10 "lease_token_00000000000000000001" (some 1),
    .recordUsage desk firstLease meteredUsage "k1" (some 2),
    .recordUsage desk firstLease { meteredUsage with calls := 2 } "k1" (some 3),
    .resumeJob desk "s1" "job_1" "\x7b\x7d" (.fields 1 "s1" "job_1" 3) none (some 20),
    .claimJob desk "s1" "job_1" "w1" "\x7b\x7d" 10 "lease_token_00000000000000000002" (some 21),
    .recordUsage desk { firstLease with
      generation := 4, leaseToken := "lease_token_00000000000000000002" } meteredUsage "k1"
      (some 22)]

/-- Recorded, refused under another usage, resumed over and recorded again by the next
worker. -/
def metered := replay (exec textCodec swarmConfig) meteredCalls Store.empty

theorem usage_accounts_metered : UsageAccounts textCodec swarmConfig metered.1 metered.2 ∧
      metered.1.map (·.2.isOk) = [true, true, true, false, true, true, true] ∧
      metered.2.jobs.map (·.usage) = [meteredUsage] :=
  ⟨usage_accounts (replay_run _ _ _), by decide +kernel, by decide +kernel⟩

end AlysisCode.Swarm
