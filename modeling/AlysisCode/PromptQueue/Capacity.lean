/-
How many outstanding prompts a session can have.

Only `enqueue` counts before it adds a row.  The other operations leave a session's count
as it is or lower it, except that `rebind_recoverable` moves all of one session's
outstanding rows into another: the target then has both sessions' rows, and nothing
compares that sum with the bound.  So the bound holds along a run exactly when every
rebinding of the run finds room for both.
-/
import AlysisCode.PromptQueue.Effects

namespace AlysisCode.PromptQueue

open Table Runs

variable {T P : Type}

/-- No session has more outstanding prompts than `max_outstanding_per_session`. -/
def Bounded (config : PromptQueueConfig) (q : Queue T) : Prop :=
  ∀ s, q.outstandingCount s ≤ config.maxOutstandingPerSession

/-- A rebinding that goes through finds room in the target for the source's prompts. -/
def FitsTarget (config : PromptQueueConfig) (_ : List (Event T P)) (q : Queue T)
    (e : Event T P) : Prop :=
  ∀ a b c answer, e = (.rebindRecoverable a b c, .ok answer) → a ≠ b →
    q.outstandingCount a + q.outstandingCount b ≤ config.maxOutstandingPerSession

/-! ### Counting across one statement -/

theorem outstandingCount_updateRow_le {q q' : Queue T} {row : Row T} {f : Row T → Row T}
    (hrow : row ∈ q.rows) (ho : row.outstanding = true)
    (hf : (f row).sessionId = row.sessionId)
    (hrows : q'.rows = updateRow row.sequence f q.rows) (s : String) :
    q'.outstandingCount s ≤ q.outstandingCount s := by
  unfold Queue.outstandingCount
  rw [hrows]
  refine countP_updateWhere_le ?_
  intro a ha hseq hsel
  have heq : a = row := q.eq_of_sequence ha hrow (by simpa using hseq)
  subst heq
  simp only [Bool.and_eq_true, beq_iff_eq] at hsel ⊢
  exact ⟨hf ▸ hsel.1, ho⟩

theorem bounded_empty {config : PromptQueueConfig} : Bounded config (Queue.empty : Queue T) :=
  fun _ => Nat.zero_le _

section Steps

variable [Clock T] {config : PromptQueueConfig} {format : PayloadFormat P}

theorem Leased.outstanding {q : Queue T} {s p t : String} {now : T} {row : Row T}
    (h : Leased q s p t now row) : row.outstanding = true := by
  simp [Row.outstanding, h.running]

variable {q : Queue T} {a : String} {q' : Queue T} {trace : List (Event T P)} {b : String}
  {answer : Answer T P}

theorem outstandingCount_rebind_target {now : T} (hne : a ≠ b)
    (hrows : q'.rows = q.rows.map (Row.rebind a b now)) :
    q'.outstandingCount b = q.outstandingCount a + q.outstandingCount b := by
  unfold Queue.outstandingCount
  rw [hrows, List.countP_map]
  refine countP_eq_add ?_
  intro r hr
  simp only [Function.comp_apply, rebind_outstanding]
  by_cases ho : r.outstanding = true
  · by_cases hs : r.sessionId = a
    · have htarget : (r.rebind a b now).sessionId = b :=
        rebind_sessionId (q.constraints.lease_check r hr) hs ho
      simp [htarget, hs, ho, hne]
    · rw [rebind_of_ne hs]
      simp [ho, hs]
  · simp [ho]

theorem outstandingCount_rebind_le {s : String} {now : T} (hs : s ≠ b)
    (hrows : q'.rows = q.rows.map (Row.rebind a b now)) :
    q'.outstandingCount s ≤ q.outstandingCount s := by
  unfold Queue.outstandingCount
  rw [hrows, List.countP_map]
  refine List.countP_mono_left ?_
  intro r hr hsel
  simp only [Function.comp_apply, rebind_outstanding, Bool.and_eq_true, beq_iff_eq] at hsel ⊢
  refine ⟨?_, hsel.2⟩
  by_cases hsource : r.sessionId = a
  · have htarget : (r.rebind a b now).sessionId = b :=
      rebind_sessionId (q.constraints.lease_check r hr) hsource hsel.2
    exact absurd (hsel.1.symm.trans htarget) hs
  · rw [rebind_of_ne hsource] at hsel
    exact hsel.1

/-- Every call but a rebinding leaves each session's count no larger, or finds room. -/
theorem Effect.bounded {call : Call T P} (h : Effect config format q q' call answer)
    (hq : Bounded config q) (hfits : FitsTarget config trace q (call, .ok answer)) :
    Bounded config q' := by
  intro s
  cases h with
  | idle h _ _ | stayed h =>
    rw [h]
    exact hq s
  | @created s' _ _ _ _ _ _ _ _ _ _ _ hroom hrows =>
    unfold Queue.outstandingCount
    rw [hrows, List.countP_append, List.countP_singleton]
    have hs : q.outstandingCount s ≤ config.maxOutstandingPerSession := hq s
    unfold Queue.outstandingCount at hs hroom
    split
    · rename_i hnew
      have heq : s' = s := by simpa [newRow, Row.outstanding] using hnew
      subst heq
      omega
    · omega
  | claimed _ hrow _ hclaim hrows =>
    refine le_trans (outstandingCount_updateRow_le hrow ?_ ?_ hrows s) (hq s)
    · simp only [Row.claimable, Bool.or_eq_true, Bool.and_eq_true, beq_iff_eq] at hclaim
      simp only [Row.outstanding, Bool.or_eq_true, beq_iff_eq]
      exact hclaim.imp id fun h => h.1
    · rfl
  | renewed _ hlease hrows | started _ hlease _ hrows | finished _ _ hlease hrows
  | released _ hlease hrows =>
    exact le_trans
      (outstandingCount_updateRow_le hlease.mem hlease.outstanding (by rfl) hrows s) (hq s)
  | @deleted _ _ _ _ row _ hrow hpending hrows =>
    have ho : row.outstanding = true := by simp [Row.outstanding, hpending]
    exact le_trans (outstandingCount_updateRow_le hrow ho (by rfl) hrows s) (hq s)
  | cancelled hrows =>
    refine le_trans ?_ (hq s)
    unfold Queue.outstandingCount
    rw [hrows]
    refine countP_updateWhere_le ?_
    intro r _ _ hsel
    simp [Row.cancel, Row.outstanding] at hsel
  | @rebound a b now c counts hne _ _ hrows =>
    by_cases hs : s = b
    · subst hs
      rw [outstandingCount_rebind_target hne hrows]
      exact hfits a s c _ rfl hne
    · exact le_trans (outstandingCount_rebind_le hs hrows) (hq s)

theorem History.bounded (h : History config format trace q)
    (hfits : Throughout (Commit (exec config format)) Queue.empty (FitsTarget config) trace) :
    Bounded config q := by
  refine Run.throughout (I := fun _ q => Bounded config q) bounded_empty ?_ h hfits
  intro trace q l q' _ hq hl hstep
  cases hstep with
  | ok hexec => exact (exec_effect hexec).bounded hq hl
  | error _ => exact hq

theorem fits_of_bounded {c : Option T}
    (hexec : exec config format (.rebindRecoverable a b c) q = .ok (answer, q')) (hne : a ≠ b)
    (hq : Bounded config q') :
    q.outstandingCount a + q.outstandingCount b ≤ config.maxOutstandingPerSession := by
  obtain ⟨counts, rfl, hop⟩ := tag_ok hexec
  have heff : Effect config format q q' _ _ := rebindRecoverable_effect hop
  cases heff with
  | idle _ _ hsilent => simp [Answer.silent] at hsilent
  | stayed => exact absurd rfl hne
  | rebound _ _ _ hrows =>
    rw [← outstandingCount_rebind_target hne hrows]
    exact hq b

/--
**When the bound holds.**  Every state along a run is within the bound if and only if
every rebinding of the run finds room in the target for the source's outstanding prompts.
-/
theorem bounded_iff {trace : List (Event T P)} {q : Queue T} (h : History config format trace q) :
    (∀ first rest m, trace = first ++ rest → History config format first m → Bounded config m) ↔
      Throughout (Commit (exec config format)) Queue.empty (FitsTarget config) trace := by
  constructor
  · intro hall first l rest m heq hrun a b c answer hl hne
    subst hl
    -- the state this step leads to is one of the run's
    have hsplit : trace = first ++ [(.rebindRecoverable a b c, .ok answer)] ++ rest := by
      rw [heq, List.append_assoc, List.singleton_append]
    rw [hsplit] at h
    obtain ⟨m', hm', -⟩ := h.split
    obtain ⟨m₀, hm₀, hstep⟩ := hm'.last
    rw [Run.commit_det hm₀ hrun] at hstep
    cases hstep with
    | ok hexec =>
      exact fits_of_bounded hexec hne (hall _ rest m' hsplit hm')
  · intro hfits first rest m heq hrun
    refine hrun.bounded ?_
    intro first' l rest' m' heq' hrun'
    exact hfits first' l (rest' ++ rest) m' (by rw [heq, heq', List.append_assoc, List.cons_append])
      hrun'

end Steps

/-! ### A session over the bound -/

def mergingCalls : List (Call Nat String) :=
  [.enqueue "a" "k1" (promptText "a") "p1" (some 0),
    .enqueue "b" "k2" (promptText "b") "p2" (some 0), .rebindRecoverable "a" "b" (some 1)]

/-- Two sessions, each at a bound of one; then `a` is resumed as `b`. -/
def merging :=
  replay (exec ⟨1, 500, by decide, PromptQueueConfig.standard.listLimit_pos⟩ promptFormat)
    mergingCalls Queue.empty

theorem bounded_exceeded :
    History { maxOutstandingPerSession := 1 } promptFormat merging.1 merging.2 ∧
      ¬ Bounded { maxOutstandingPerSession := 1 } merging.2 := by
  refine ⟨replay_run _ _ _, ?_⟩
  intro h
  have htwo : merging.2.outstandingCount "b" = 2 := by decide +kernel
  have hle := h "b"
  rw [htwo] at hle
  exact absurd hle (by decide)

/-- That rebinding is the step that did not fit. -/
theorem bounded_iff_merging : (∀ first rest m, merging.1 = first ++ rest →
        History { maxOutstandingPerSession := 1 } promptFormat first m →
          Bounded { maxOutstandingPerSession := 1 } m) ↔
      Throughout (Commit (exec { maxOutstandingPerSession := 1 } promptFormat)) Queue.empty
        (FitsTarget { maxOutstandingPerSession := 1 }) merging.1 :=
  bounded_iff (replay_run _ _ _)

end AlysisCode.PromptQueue
