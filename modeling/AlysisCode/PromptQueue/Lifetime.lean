/-
What becomes of a prompt, for any calls by any clients.

A row is appended once and never taken out.  The operations rewrite rows that are pending or
running and no others, so a prompt that has ended keeps its row to the end of the run, and no
later call claims, renews, starts, releases or ends it.
-/
import AlysisCode.PromptQueue.Capacity
import AlysisCode.PromptQueue.Claim

namespace AlysisCode.PromptQueue

open Table Runs

variable {T P : Type} {q q' q'' : Queue T} {trace : List (Event T P)} {p : String}

def Ended (p : String) (q : Queue T) : Prop :=
  ∃ r ∈ q.rows, r.promptId = p ∧ r.outstanding = false

/-- The prompt that an answer says was worked on, and whether it has ended by that. -/
def Answer.prompt : Answer T P → Option (String × Bool)
  | .claimed (some lease) | .renewed lease => some (lease.item.promptId, false)
  | .started item | .released item => some (item.promptId, false)
  | .finished item | .deleted item => some (item.promptId, true)
  | _ => none

def touches (p : String) (e : Event T P) : Bool :=
  match e.2 with
  | .ok answer => answer.prompt.any (·.1 = p)
  | .error _ => false

def ends (p : String) (e : Event T P) : Bool :=
  match e.2 with
  | .ok answer => answer.prompt = some (p, true)
  | .error _ => false

/-- What the calls of a trace leave of the prompts that there were. -/
structure Keeps (q : Queue T) (trace : List (Event T P)) (q' : Queue T) : Prop where
  inOrder : q.rows.map Row.identity <+: q'.rows.map Row.identity
  ended : ∀ r ∈ q.rows, r.outstanding = false → r ∈ q'.rows
  untouched : ∀ p, Ended p q → ∀ e ∈ trace, touches p e = false
  once : ∀ p, trace.countP (ends p) ≤ 1

/-- An operation on a row that is outstanding leaves those that are not. -/
theorem ended_updateRow {row r : Row T} {f : Row T → Row T} (hrow : row ∈ q.rows)
    (ho : row.outstanding = true) (hr : r ∈ q.rows) (hended : r.outstanding = false) :
    r ∈ updateRow row.sequence f q.rows := by
  refine mem_updateRow_of_ne hrow hr ?_
  rintro rfl
  rw [ho] at hended
  cases hended

theorem not_ended {row : Row T} (hrow : row ∈ q.rows) (ho : row.outstanding = true)
    (hid : row.promptId = p) : ¬ Ended p q := by
  rintro ⟨r, hr, hrid, hended⟩
  rw [q.eq_of_promptId hr hrow (hrid.trans hid.symm), ho] at hended
  cases hended

theorem Ended.mono (hq : ∀ r ∈ q.rows, r.outstanding = false → r ∈ q'.rows) (h : Ended p q) :
    Ended p q' :=
  h.imp fun r hr => ⟨hq r hr.1 hr.2.2, hr.2⟩

theorem Keeps.snoc {q₁ : Queue T} {e : Event T P} (h : Keeps q trace q₁)
    (horder : q₁.rows.map Row.identity <+: q'.rows.map Row.identity)
    (hended : ∀ r ∈ q₁.rows, r.outstanding = false → r ∈ q'.rows)
    (htouch : ∀ p, Ended p q₁ → touches p e = false)
    (hends : ∀ p, ends p e = true → trace.countP (ends p) = 0) : Keeps q (trace ++ [e]) q' := by
  refine ⟨h.inOrder.trans horder, fun r hr ho => hended r (h.ended r hr ho) ho, fun p hp e' he' => ?_,
    fun p => ?_⟩
  · rcases List.mem_append.mp he' with he' | he'
    · exact h.untouched p hp e' he'
    · rw [List.mem_singleton.mp he']
      exact htouch p (hp.mono h.ended)
  · rw [List.countP_append, List.countP_singleton]
    split
    · next hp => rw [hends p hp]
    · exact h.once p

/-! ### One call -/

variable [Clock T] {config : PromptQueueConfig} {format : PayloadFormat P} {call : Call T P}
  {answer : Answer T P}

theorem rebind_of_ended {a b : String} {now : T} {r : Row T} (h : r.outstanding = false) :
    r.rebind a b now = r := by
  simp only [Row.outstanding, Bool.or_eq_false_iff, beq_eq_false_iff_ne] at h
  simp [Row.rebind, Row.live, h.1, h.2]

theorem Effect.ended (h : Effect config format q q' call answer) {r : Row T} (hr : r ∈ q.rows)
    (hended : r.outstanding = false) : r ∈ q'.rows := by
  cases h with
  | idle h _ _ | stayed h => exact h ▸ hr
  | created _ _ _ _ _ hrows =>
    rw [hrows]
    exact List.mem_append_left _ hr
  | claimed _ hrow _ hclaim hrows =>
    rw [hrows]
    exact ended_updateRow hrow (outstanding_of_claimable hclaim) hr hended
  | renewed _ hlease hrows | started _ hlease _ hrows | finished _ _ hlease hrows
  | released _ hlease hrows =>
    rw [hrows]
    exact ended_updateRow hlease.mem hlease.outstanding hr hended
  | deleted hrow hpending hrows =>
    rw [hrows]
    exact ended_updateRow hrow (by simp [Row.outstanding, hpending]) hr hended
  | cancelled hrows =>
    rw [hrows]
    refine mem_updateWhere_of_neg hr fun hselected => ?_
    simp only [Bool.and_eq_true, beq_iff_eq] at hselected
    simp [Row.outstanding, hselected.2] at hended
  | rebound _ _ _ hrows =>
    rw [hrows]
    exact List.mem_map.mpr ⟨r, hr, rebind_of_ended hended⟩

theorem Effect.inOrder (h : Effect config format q q' call answer) :
    q.rows.map Row.identity <+: q'.rows.map Row.identity := by
  by_cases hc : answer.creates = true
  · cases h with
    | created _ _ _ _ _ hrows =>
      rw [hrows, List.map_append]
      exact List.prefix_append _ _
    | idle h _ _ | stayed h => exact h ▸ List.prefix_rfl
    | _ => simp [Answer.creates] at hc
  · exact h.identities (by simpa using hc) ▸ List.prefix_rfl

/-- A prompt is worked on before it has ended, and has ended after a call that ends it. -/
theorem Effect.prompt (h : Effect config format q q' call answer) {ending : Bool}
    (hprompt : answer.prompt = some (p, ending)) : ¬ Ended p q ∧ (ending = true → Ended p q') := by
  cases h with
  | idle _ _ hsilent =>
    cases answer with
    | claimed lease => cases lease <;> simp [Answer.prompt, Answer.silent] at hprompt hsilent
    | _ => simp [Answer.prompt, Answer.silent] at hprompt hsilent
  | claimed _ hrow _ hclaim _ =>
    cases hprompt
    exact ⟨not_ended hrow (outstanding_of_claimable hclaim) rfl, fun h => absurd h (by decide)⟩
  | renewed _ hlease _ | started _ hlease _ _ | released _ hlease _ =>
    cases hprompt
    exact ⟨not_ended hlease.mem hlease.outstanding rfl, fun h => absurd h (by decide)⟩
  | @finished _ _ _ _ now _ row _ state code hcall _ hlease hrows =>
    cases hprompt
    refine ⟨not_ended hlease.mem hlease.outstanding rfl, fun _ => ⟨row.finish state code now,
      hrows ▸ mem_updateRow_self hlease.mem, rfl, ?_⟩⟩
    show (state == .pending || state == .running) = false
    cases call with
    | complete | fail | cancelClaimed =>
      obtain ⟨-, -, -, -, rfl, -⟩ := by simpa [Call.finishing] using hcall
      rfl
    | _ => simp [Call.finishing] at hcall
  | deleted hrow hpending hrows =>
    cases hprompt
    exact ⟨not_ended hrow (by simp [Row.outstanding, hpending]) rfl, fun _ =>
      ⟨_, hrows ▸ mem_updateRow_self hrow, rfl, rfl⟩⟩
  | _ => simp [Answer.prompt] at hprompt

/-! ### Runs -/

theorem Effect.leaves (heffect : Effect config format q' q'' call answer) (h : Keeps q trace q')
    (hends : ∀ p, trace.countP (ends p) ≠ 0 → Ended p q') :
    Keeps q (trace ++ [(call, Except.ok answer)]) q'' ∧
      ∀ p, (trace ++ [(call, Except.ok answer)]).countP (ends p) ≠ 0 → Ended p q'' := by
  have hended := fun r hr => heffect.ended (r := r) hr
  refine ⟨h.snoc heffect.inOrder hended (fun p hp => ?_) fun p hp => ?_, fun p hcount => ?_⟩
  · rw [← Bool.not_eq_true]
    intro htouch
    obtain ⟨⟨p', ending⟩, hprompt, hp'⟩ : ∃ worked, answer.prompt = some worked ∧ worked.1 = p := by
      simpa [touches, Option.any_eq_true] using htouch
    cases hp'
    exact (heffect.prompt hprompt).1 hp
  · by_contra hne
    exact (heffect.prompt (of_decide_eq_true hp)).1 (hends p hne)
  · rw [List.countP_append, List.countP_singleton] at hcount
    split at hcount
    · next hp => exact (heffect.prompt (of_decide_eq_true hp)).2 rfl
    · exact (hends p hcount).mono hended

/-- **No calls lose, reorder or rewrite a prompt**, and one that has ended is left alone. -/
theorem prompts_kept (config : PromptQueueConfig) (format : PayloadFormat P)
    (calls : List (Call T P)) (q : Queue T) :
    Keeps q (replay (exec config format) calls q).1 (replay (exec config format) calls q).2 := by
  have hrun := replay_run (exec config format) calls q
  refine (Run.history (I := fun trace q' => Keeps q trace q' ∧
    ∀ p, trace.countP (ends p) ≠ 0 → Ended p q') ?_ ?_ hrun).1
  · exact ⟨⟨List.prefix_rfl, fun _ hr _ => hr, by simp, by simp⟩, by simp⟩
  · intro trace s e s' _ hs hstep
    cases hstep with
    | ok hexec => exact (exec_effect hexec).leaves hs.1 hs.2
    | error _ =>
      refine ⟨hs.1.snoc List.prefix_rfl (fun _ hr _ => hr) (fun _ _ => rfl) nofun, fun p => ?_⟩
      rw [List.countP_append, List.countP_singleton, show ends p _ = false from rfl]
      exact hs.2 p

end AlysisCode.PromptQueue
