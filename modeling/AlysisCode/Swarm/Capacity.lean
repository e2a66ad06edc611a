/-
How many outstanding jobs a session can have.

Only `start_job` counts before it adds a row.  The other operations leave a session's count
as it is or lower it, except that `resume_job` queues a failed job again: a failed job does
not count, a queued one does, and nothing compares the sum with the bound.  So the bound
holds along a run exactly when every resumption of a failed job finds room.
-/
import AlysisCode.Swarm.Fences

namespace AlysisCode.Swarm

open Table Runs

variable {T J : Type}

/-- The rows `start_job` counts. -/
def Row.outstandingIn (me : Coordinator) (s : String) (r : Row T) : Bool :=
  r.key.ownerKey == me.ownerKey && r.key.workspaceKey == me.workspaceKey &&
    r.key.sessionId == s && !r.state.terminal

/-- The queued, running and interrupted jobs of a session. -/
def Store.outstandingCount (q : Store T) (me : Coordinator) (s : String) : Nat :=
  q.jobs.countP (Row.outstandingIn me s)

/-- No session has more outstanding jobs than `max_outstanding_per_session`. -/
def Bounded (config : ResumableSwarmConfig) (q : Store T) : Prop :=
  ∀ me s, q.outstandingCount me s ≤ config.maxOutstandingPerSession

/-- A resumption of a failed job that goes through finds room in the session. -/
def FitsResumed (config : ResumableSwarmConfig) (_ : List (Event T J)) (q : Store T)
    (e : Event T J) : Prop :=
  ∀ me s j scope grant revision c answer,
    e = (.resumeJob me s j scope grant revision c, .ok answer) →
    ∀ row ∈ q.jobs, row.key = me.key (strip s) (strip j) → row.state = .failed →
      q.outstandingCount me (strip s) < config.maxOutstandingPerSession

/-! ### Counting across one statement -/

theorem bounded_empty {config : ResumableSwarmConfig} : Bounded config (Store.empty : Store T) :=
  fun _ _ => Nat.zero_le _

variable {q q' : Store T} {row : Row T} {f : Row T → Row T}

theorem outstandingCount_update_le (hrow : row ∈ q.jobs) (hlive : row.state.terminal = false)
    (hkey : (f row).key = row.key) (hjobs : q'.jobs = updateWhere (·.key == row.key) f q.jobs)
    (me : Coordinator) (s : String) :
    q'.outstandingCount me s ≤ q.outstandingCount me s := by
  unfold Store.outstandingCount
  rw [hjobs]
  apply countP_updateWhere_le
  intro a ha hsame hsel
  obtain rfl : a = row := q.eq_of_key ha hrow (by simpa using hsame)
  simp only [Row.outstandingIn, hkey, Bool.and_eq_true] at hsel ⊢
  refine ⟨hsel.1, ?_⟩
  rw [hlive]
  rfl

theorem outstandingCount_revive (hrow : row ∈ q.jobs) (hdead : row.state.terminal = true)
    (hkey : (f row).key = row.key) (hlive : (f row).state.terminal = false)
    (hjobs : q'.jobs = updateWhere (·.key == row.key) f q.jobs) {me : Coordinator} {s j : String}
    (hme : row.key = me.key s j) : q'.outstandingCount me s = q.outstandingCount me s + 1 := by
  unfold Store.outstandingCount
  rw [hjobs, ← countP_of_nodup q.constraints.key_unique hrow]
  apply countP_updateWhere_add
  intro a ha hsame
  obtain rfl : a = row := q.eq_of_key ha hrow (by simpa using hsame)
  constructor
  · simp [Row.outstandingIn, hdead]
  · simp [Row.outstandingIn, hkey, hlive, hme, Coordinator.key]

/-- It adds none to any other session. -/
theorem outstandingCount_update_other (hrow : row ∈ q.jobs) (hkey : (f row).key = row.key)
    (hjobs : q'.jobs = updateWhere (·.key == row.key) f q.jobs) {me me' : Coordinator}
    {s s' j : String} (hme : row.key = me.key s j) (hne : ¬ (me' = me ∧ s' = s)) :
    q'.outstandingCount me' s' = q.outstandingCount me' s' := by
  unfold Store.outstandingCount
  rw [hjobs]
  apply countP_updateWhere
  intro a ha hsame
  obtain rfl : a = row := q.eq_of_key ha hrow (by simpa using hsame)
  have hout : ∀ r : Row T, r.key = a.key → r.outstandingIn me' s' = false := by
    intro r hr
    by_contra hin
    rw [Bool.not_eq_false] at hin
    simp only [Row.outstandingIn, hr, hme, Coordinator.key, Bool.and_eq_true, beq_iff_eq] at hin
    apply hne
    obtain ⟨⟨⟨howner, hworkspace⟩, hs⟩, -⟩ := hin
    refine ⟨?_, hs.symm⟩
    cases me
    cases me'
    simp only [Coordinator.mk.injEq]
    exact ⟨howner.symm, hworkspace.symm⟩
  rw [hout _ hkey, hout _ rfl]

section Steps

variable [Clock T] {codec : Codec J} {config : ResumableSwarmConfig}

variable {trace : List (Event T J)} {answer : Answer T J} {q q' : Store T}

variable {call : Call T J} {me : Coordinator} {c : Option T}

/-- A row that changes is outstanding, or it is a failed one that `resume_job` queues. -/
theorem Change.live_or_revived {row' : Row T} (h : Change codec q call answer row row') :
    row.state.terminal = false ∨
      ∃ me s j scope grant r c, call = .resumeJob me s j scope grant r c ∧
        row.key = me.key (strip s) (strip j) ∧ row.state = .failed ∧ row'.state = .queued := by
  cases h with
  | claimed _ _ hqueued =>
    rw [hqueued]
    exact .inl rfl
  | renewed _ hlease | used _ hlease | finished _ _ _ hlease =>
    rw [hlease.running]
    exact .inl rfl
  | cancelled _ hlive => exact .inl hlive
  | expired _ hstale =>
    simp only [Row.stale, Bool.and_eq_true, beq_iff_eq] at hstale
    rw [hstale.1.1.2]
    exact .inl rfl
  | resumed _ hkey hrow₁ hstate =>
    rcases hrow₁ with rfl | ⟨hrun, -, -⟩
    · rcases hstate with hstate | hstate
      · rw [hstate]
        exact .inl rfl
      · exact .inr ⟨_, _, _, _, _, _, _, rfl, hkey, hstate, rfl⟩
    · rw [hrun]
      exact .inl rfl

theorem startJob_room {s k i : String} {spec scope : J} {creation : SwarmJobCreation T}
    (h : startJob codec config me s k spec scope i c q = .ok (creation, q'))
    (hnew : creation.created = true) :
    q.outstandingCount me (strip s) < config.maxOutstandingPerSession := by
  obtain ⟨s', hs, h⟩ := bind_eq_ok.mp h
  obtain ⟨k', -, h⟩ := bind_eq_ok.mp h
  obtain ⟨⟨specJson, specObject⟩, -, h⟩ := bind_eq_ok.mp h
  obtain ⟨permission, -, h⟩ := bind_eq_ok.mp h
  obtain ⟨now, -, h⟩ := bind_eq_ok.mp h
  obtain ⟨rfl, -⟩ := identifier_ok hs
  simp only at h
  split at h
  · obtain ⟨-, h⟩ := guard_eq_ok.mp h
    obtain ⟨st, -, h⟩ := bind_eq_ok.mp h
    obtain ⟨rfl, -⟩ : _ = creation ∧ q = q' := by simpa using h
    cases hnew
  · obtain ⟨hroom, -⟩ := guard_eq_ok.mp h
    exact Nat.lt_of_not_le hroom

/-- Every call but a resumption leaves each session's count no larger, or finds room. -/
theorem exec_bounded (hclean : Clean q) (h : exec codec config call q = .ok (answer, q'))
    (hq : Bounded config q) (hfits : FitsResumed config trace q (call, .ok answer)) :
    Bounded config q' := by
  intro me s
  cases exec_effect hclean h with
  | idle heq =>
    rw [heq]
    exact hq me s
  | @changed _ _ row f hrow hjobs hchange =>
    have hkey : (f row).key = row.key := (change_moves hchange).key
    rcases hchange.live_or_revived with
      hlive | ⟨me', s', j, scope, grant, r, c, rfl, hme, hfailed, hqueued⟩
    · exact le_trans (outstandingCount_update_le hrow hlive hkey hjobs me s) (hq me s)
    · by_cases hsame : me = me' ∧ s = strip s'
      · obtain ⟨rfl, rfl⟩ := hsame
        have hroom := hfits _ _ _ _ _ _ _ _ rfl row hrow hme hfailed
        rw [outstandingCount_revive hrow (by rw [hfailed]; rfl) hkey (by rw [hqueued]; rfl)
          hjobs hme]
        omega
      · rw [outstandingCount_update_other hrow hkey hjobs hme hsame]
        exact hq me s
  | recovered _ hjobs =>
    refine le_trans ?_ (hq me s)
    unfold Store.outstandingCount
    rw [hjobs]
    apply countP_updateWhere_le
    intro r _ hstale hsel
    simp only [Row.stale, Bool.and_eq_true, beq_iff_eq] at hstale
    simp only [Row.outstandingIn, Row.expire, Bool.and_eq_true] at hsel ⊢
    refine ⟨hsel.1, ?_⟩
    rw [hstale.1.1.2]
    rfl
  | @inserted me' s' k i idem specJson specSha permission spec scope now c status _ _ _ hjobs =>
    obtain ⟨a, hanswer, hop⟩ := tag_ok h
    cases hanswer
    have hroom := startJob_room hop rfl
    have hs : q.outstandingCount me s ≤ config.maxOutstandingPerSession := hq me s
    unfold Store.outstandingCount at hs hroom ⊢
    rw [hjobs, List.countP_append, List.countP_singleton]
    split
    · rename_i hnew
      simp only [Row.outstandingIn, newRow, Coordinator.key, Bool.and_eq_true, beq_iff_eq] at hnew
      obtain ⟨⟨⟨howner, hworkspace⟩, rfl⟩, -⟩ := hnew
      obtain rfl : me = me' := by
        cases me
        cases me'
        simp only [Coordinator.mk.injEq]
        exact ⟨howner.symm, hworkspace.symm⟩
      omega
    · omega

theorem History.bounded (h : History codec config trace q)
    (hfits : Throughout (Commit (exec codec config)) Store.empty (FitsResumed config) trace) :
    Bounded config q := by
  refine Run.throughout (I := fun _ q => Bounded config q) bounded_empty ?_ h hfits
  intro trace q l q' hrun hq hl hstep
  cases hstep with
  | ok hexec => exact exec_bounded (History.sound hrun).clean hexec hq hl
  | error _ => exact hq

theorem fits_of_bounded {s j : String} {scope : J} {grant : Grant} {r : Option Int}
    (hexec : exec codec config (.resumeJob me s j scope grant r c) q = .ok (answer, q'))
    (hq : Bounded config q') (hrow : row ∈ q.jobs) (hkey : row.key = me.key (strip s) (strip j))
    (hfailed : row.state = .failed) :
    q.outstandingCount me (strip s) < config.maxOutstandingPerSession := by
  obtain ⟨st, rfl, hop⟩ := tag_ok hexec
  obtain ⟨row', f, hrow', hjobs, hchange⟩ := resumeJob_change hop
  have hmoves := change_moves hchange
  have hname : row'.key = me.key (strip s) (strip j) ∧ (f row').state = .queued := by
    generalize f row' = row'' at hchange
    cases hchange with
    | finished hcall => cases hcall
    | resumed _ hme => exact ⟨hme, rfl⟩
  obtain rfl : row = row' := q.eq_of_key hrow hrow' (hkey.trans hname.1.symm)
  have hcount := outstandingCount_revive hrow (by rw [hfailed]; rfl) hmoves.key
    (by rw [hname.2]; rfl) hjobs hkey
  have hbound := hq me (strip s)
  omega

/--
**When the bound holds.**  Every state along a run is within the bound if and only if
every resumption of a failed job finds room in its session.
-/
theorem outstanding_bounded_iff {trace : List (Event T J)} {q : Store T}
    (h : History codec config trace q) :
    (∀ first rest m, trace = first ++ rest → History codec config first m → Bounded config m) ↔
      Throughout (Commit (exec codec config)) Store.empty (FitsResumed config) trace := by
  constructor
  · intro hall first l rest m heq hrun me s j scope grant r c answer hl row hrow hkey hfailed
    subst hl
    -- the state this step leads to is one of the run's
    have hsplit : trace = first ++ [(.resumeJob me s j scope grant r c, .ok answer)] ++ rest := by
      rw [heq, List.append_assoc, List.singleton_append]
    rw [hsplit] at h
    obtain ⟨m', hm', -⟩ := h.split
    obtain ⟨m₀, hm₀, hstep⟩ := hm'.last
    rw [Run.commit_det hm₀ hrun] at hstep
    cases hstep with
    | ok hexec => exact fits_of_bounded hexec (hall _ rest m' hsplit hm') hrow hkey hfailed
  · intro hfits first rest m heq hrun
    refine hrun.bounded ?_
    intro first' l rest' m' heq' hrun'
    exact hfits first' l (rest' ++ rest) m' (by rw [heq, heq', List.append_assoc, List.cons_append])
      hrun'

end Steps

/-! ### A session over the bound -/

def overfullCalls : List (Call Nat String) :=
  [.startJob desk "s1" "k1" "\x7b\x7d" "\x7b\x7d" "job_1" (some 0),
    .claimJob desk "s1" "job_1" "w1" "\x7b\x7d" 10 "lease_token_00000000000000000001" (some 1),
    .fail desk firstLease "crashed" "The worker crashed." (some 2),
    .startJob desk "s1" "w1" "\x7b\x7d" "\x7b\x7d" "job_2" (some 3),
    .resumeJob desk "s1" "job_1" "\x7b\x7d" (.fields 1 "s1" "job_1" 3) none (some 4)]

/-- A bound of one: the first job fails, a second is started in its place, and the first is
resumed. -/
def overfull := replay (exec textCodec { maxOutstandingPerSession := 1 }) overfullCalls Store.empty

theorem outstanding_exceeded :
    History textCodec { maxOutstandingPerSession := 1 } overfull.1 overfull.2 ∧
      ¬ Bounded { maxOutstandingPerSession := 1 } overfull.2 := by
  refine ⟨replay_run _ _ _, ?_⟩
  intro h
  have htwo : overfull.2.outstandingCount desk "s1" = 2 := by decide +kernel
  have hle := h desk "s1"
  rw [htwo] at hle
  exact absurd hle (by decide)

/-- That resumption is the step that did not fit. -/
theorem outstanding_bounded_iff_overfull : (∀ first rest m, overfull.1 = first ++ rest →
        History textCodec { maxOutstandingPerSession := 1 } first m →
          Bounded { maxOutstandingPerSession := 1 } m) ↔
      Throughout (Commit (exec textCodec { maxOutstandingPerSession := 1 })) Store.empty
        (FitsResumed { maxOutstandingPerSession := 1 }) overfull.1 :=
  outstanding_bounded_iff (replay_run _ _ _)

end AlysisCode.Swarm
