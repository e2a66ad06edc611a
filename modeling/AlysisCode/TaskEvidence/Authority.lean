/-
Where a claim to the original baseline comes from, and what ends it.

Evidence is begun with a new task, carried on, or worthless.  So a claim goes back to the begin
of its task, and once an edit record was lost nothing claims the baseline of that task again.
-/
import AlysisCode.TaskEvidence.Sound

namespace AlysisCode.TaskEvidence

open Runs

variable {S : Type} {session : Session S}

variable {e : TaskEvidenceState S} {w w' : World S}

variable {op : Op S} {ops : List (Op S)} {p : Process S}

theorem Holds.evidence (hp : w.live = some p) (he : p.evidence = some e) : Holds w e :=
  Or.inl ⟨p, hp, he⟩

theorem Holds.payload {writer : String} (he : (recover w.log).payload = some (e, writer)) :
    Holds w e :=
  Or.inr ⟨writer, he⟩

/-- The evidence is an earlier state's, perhaps with other counts or less of a claim. -/
def Carried (w : World S) (e : TaskEvidenceState S) : Prop :=
  ∃ e', Holds w e' ∧ e.taskId = e'.taskId ∧ e.snapshot = e'.snapshot ∧
    (e.baselineAvailable = true → e'.baselineAvailable = true)

theorem Carried.of_holds (h : Holds w e) : Carried w e :=
  ⟨e, h, rfl, rfl, id⟩

theorem Carried.behind (h : Carried w e) (fate : Fate) : Carried w (behind fate e) := by
  obtain ⟨e', he', htask, hsnapshot, hclaim⟩ := h
  refine ⟨e', he', by rw [behind_taskId, htask], by rw [behind_snapshot, hsnapshot], ?_⟩
  exact fun hbaseline => hclaim (available_of_behind hbaseline).1

def Captured (w : World S) (op : Op S) (e : TaskEvidenceState S) : Prop :=
  ∃ captured fate p, op = .begin captured fate ∧ w.live = some p ∧
    p.stage = .accepted true ∧ e.taskId = p.taskId ∧ e.snapshot = captured

/-- **Evidence is carried on, captured for a new task, or claims nothing.** -/
theorem Effect.origin (h : Effect session w op w') (he : Holds w' e) :
    Carried w e ∨ Captured w op e ∨ e.baselineAvailable = false := by
  cases h with
  | proceed log p | keep log p | install log p | effect log p =>
    left
    rcases he with ⟨p', hp', he⟩ | ⟨writer, he⟩
    · cases hp'
      exact .of_holds (.evidence rfl he)
    · exact .of_holds (.payload he)
  | refuse log p id fate | uncleared log p fate =>
    left
    rcases he with ⟨p', hp', he⟩ | ⟨writer, he⟩
    · cases hp'
      exact .of_holds (.evidence rfl he)
    · rw [payload_task] at he
      exact .of_holds (.payload he)
  | accept log p id =>
    left
    rcases he with ⟨p', hp', he⟩ | ⟨writer, he⟩
    · cases hp'
      exact .of_holds (.evidence rfl he)
    · rw [recover_snoc] at he
      exact .of_holds (.payload he)
  | rebuild log p captured fate newTask hstage =>
    have hbegun : ∀ e : TaskEvidenceState S, (e = behind fate (begun session newTask captured p) ∨
          e = begun session newTask captured p) →
        Captured ⟨log, some p⟩ (.begin captured fate) e ∨ e.baselineAvailable = false := by
      intro e he
      cases newTask with
      | true =>
        left
        refine ⟨captured, fate, p, rfl, rfl, hstage, ?_, ?_⟩
        · rcases he with rfl | rfl
          · exact behind_taskId _ _
          · rfl
        · rcases he with rfl | rfl
          · exact behind_snapshot _ _
          · rfl
      | false =>
        right
        rcases he with rfl | rfl
        · unfold behind
          split <;> rfl
        · rfl
    rcases he with ⟨p', hp', he⟩ | ⟨writer, he⟩
    · cases hp'
      exact .inr (hbegun e (.inl (Option.some.inj he).symm))
    · rcases payload_evidence he with heq | he
      · exact .inr (hbegun e (.inr (congrArg Prod.fst heq)))
      · exact .inl (.of_holds (.payload he))
  | abort log p fate =>
    rcases he with ⟨p', hp', he⟩ | ⟨writer, he⟩
    · cases hp'
      exact .inl (.of_holds (.evidence rfl he))
    · cases hbaseline : e.baselineAvailable with
      | true => exact .inl (.of_holds (.payload (payload_append_toolCall he hbaseline)))
      | false => exact .inr (.inr rfl)
  | toolCall log p t =>
    rcases he with ⟨p', hp', he⟩ | ⟨writer, he⟩
    · cases hp'
      exact .inl (.of_holds (.evidence rfl he))
    · exact .inr (.inr (payload_toolCall he).1)
  | persist log p fate t e' _ _ hevidence =>
    left
    have hmerged : Carried ⟨log, some p⟩ { e' with ledger := e'.ledger.merge t.ledger } :=
      ⟨e', .evidence rfl hevidence, rfl, rfl, id⟩
    rcases he with ⟨p', hp', he⟩ | ⟨writer, he⟩
    · cases hp'
      exact Option.some.inj he ▸ hmerged.behind fate
    · rcases payload_evidence he with heq | he
      · obtain ⟨rfl, -⟩ := Prod.mk.inj heq
        exact hmerged
      · exact .of_holds (.payload he)
  | clear log p clears =>
    left
    rcases he with ⟨p', hp', he⟩ | ⟨writer, he⟩
    · cases hp'
      cases he
    · cases clears with
      | true =>
        rw [if_pos rfl, recover_snoc] at he
        cases he
      | false =>
        rw [if_neg (by decide), recover_snoc] at he
        exact .of_holds (.payload he)
  | close w taskFate fate =>
    left
    rcases he with ⟨p', hp', -⟩ | ⟨writer, he⟩
    · cases hp'
    · rw [payload_task] at he
      exact .of_holds (.payload he)
  | reopen w fate id =>
    left
    rcases he with ⟨p', hp', he⟩ | ⟨writer, he⟩
    · cases hp'
      cases he
    · rw [recover_snoc] at he
      exact .of_holds (.payload he)
  | restore w fate id =>
    have hrestored : ∀ e : TaskEvidenceState S,
        (e = behind fate (restoredState session id (recover w.log).payload session.sessionId) ∨
          e = restoredState session id (recover w.log).payload session.sessionId) →
        Carried w e ∨ e.baselineAvailable = false := by
      intro e he
      rcases restoredState_cases session id (recover w.log).payload session.sessionId with
        ⟨hbaseline, -, -⟩ | ⟨e', writer, he', -, heq⟩
      · right
        rcases he with rfl | rfl
        · unfold behind
          split
          · rfl
          · exact hbaseline
        · exact hbaseline
      · left
        rw [heq] at he
        rcases he with rfl | rfl
        · exact (Carried.of_holds (.payload he')).behind fate
        · exact .of_holds (.payload he')
    have hout : Carried w e ∨ e.baselineAvailable = false := by
      rcases he with ⟨p', hp', he⟩ | ⟨writer, he⟩
      · cases hp'
        exact hrestored e (.inl (Option.some.inj he).symm)
      · rcases payload_evidence he with heq | he
        · exact hrestored e (.inr (congrArg Prod.fst heq))
        · rw [recover_snoc] at he
          exact .inl (.of_holds (.payload he))
    exact hout.imp_right Or.inr

/-! ### Forfeited authority -/

theorem Effect.used (h : Effect session w op w') {id : String} (hid : Used id w.log) :
    Used id w'.log := by
  cases h with
  | proceed | keep | install | effect => exact hid
  | refuse _ _ _ fate | abort _ _ fate | rebuild _ _ _ fate | persist _ _ fate
  | uncleared _ _ fate | close _ fate => exact hid.append fate _
  | accept | toolCall | reopen => exact List.mem_append_left _ hid
  | clear log p clears =>
    cases clears with
    | true => exact List.mem_append_left _ (List.mem_append_left _ hid)
    | false => exact List.mem_append_left _ hid
  | restore w fate => exact Used.append (List.mem_append_left _ hid) fate _

theorem Effect.new (h : Effect session w op w') {id : String} (hid : Used id w.log)
    (hw : ∀ p, w.live = some p → p.stage = .accepted true → p.taskId ≠ id) :
    ∀ p, w'.live = some p → p.stage = .accepted true → p.taskId ≠ id := by
  intro p' hp' hstage
  cases h with
  | accept log p id' hid' =>
    cases hp'
    rintro rfl
    exact hid'.2 hid
  | uncleared log p =>
    obtain rfl := Option.some.inj hp'
    exact hw p rfl hstage
  | close => cases hp'
  | proceed | refuse | keep | rebuild | install | abort | toolCall | effect | persist | clear
  | reopen | restore =>
    cases hp'
    cases hstage

/-- Nothing claims the baseline of the task. -/
structure Forfeited (task : String) (w : World S) : Prop where
  used : Used task w.log
  unclaimed : ∀ e, Holds w e → e.taskId = task → e.baselineAvailable = false
  new : ∀ p, w.live = some p → p.stage = .accepted true → p.taskId ≠ task

theorem Forfeited.step {task : String} {w w' : World S} {op : Op S} (hw : Forfeited task w)
    (h : Effect session w op w') : Forfeited task w' where
  used := h.used hw.used
  new := h.new hw.used hw.new
  unclaimed e he htask := by
    rcases h.origin he with ⟨e', he', htask', -, hclaim⟩ | ⟨_, _, p, -, hp, hstage, htask', -⟩ |
      hbaseline
    · rw [← Bool.not_eq_true]
      intro hbaseline
      have hnone := hw.unclaimed e' he' (htask'.symm.trans htask)
      rw [hclaim hbaseline] at hnone
      cases hnone
    · exact absurd (htask'.symm.trans htask) (hw.new p hp hstage)
    · exact hbaseline

theorem forfeited_of_lost (hsound : Sound w.log p) (hp : w.live = some p) (htask : p.taskId ≠ "")
    (h : Effect session w (.persist .lost) w') : Forfeited p.taskId w' := by
  cases h with
  | persist log p' fate t e hstage hdispatched hevidence =>
    cases hp
    refine ⟨hsound.usedTask htask, ?_, ?_⟩
    · rintro e' (⟨p', hp', he'⟩ | ⟨writer, he'⟩) _
      · cases hp'
        cases he'
        rfl
      · exact hsound.dispatched t hstage hdispatched e' writer he'
    · intro p' hp' hstage'
      cases hp'
      cases hstage'

/-! ### Runs -/

theorem sound_of_step (hw : ∀ p, w.live = some p → Sound w.log p) (hstep : Step session w op w') :
    Effect session w op w' ∧ ∀ p, w'.live = some p → Sound w'.log p := by
  have heffect := Effect.of_step (fun p hp => (hw p hp).evident) hstep
  exact ⟨heffect, Sound.step hw heffect⟩

theorem sound_of_run (h : Run (Step session) World.start ops w) :
    ∀ p, w.live = some p → Sound w.log p := by
  refine h.invariant (I := fun w => ∀ p, w.live = some p → Sound w.log p) ?_ ?_
  · intro p hp
    cases hp
    exact Sound.empty _
  · intro w op w' hw hstep
    exact (sound_of_step hw hstep).2

/-- The baseline of the task was captured when a turn had accepted it. -/
def Began (session : Session S) (ops : List (Op S)) (task : String) (snapshot : S) : Prop :=
  ∃ before fate rest w p, ops = before ++ .begin snapshot fate :: rest ∧
    Run (Step session) World.start before w ∧ w.live = some p ∧ p.stage = .accepted true ∧
    p.taskId = task

/-- **Every claim goes back to the begin of its task.** -/
theorem began_of_run (h : Run (Step session) World.start ops w) :
    ∀ e, Holds w e → e.baselineAvailable = true → Began session ops e.taskId e.snapshot := by
  refine h.history (I := fun ops w => ∀ e, Holds w e → e.baselineAvailable = true →
    Began session ops e.taskId e.snapshot) ?_ ?_
  · rintro e (⟨p, hp, he⟩ | ⟨writer, he⟩)
    · cases hp
      cases he
    · cases he
  · intro ops w op w' hrun ih hstep e he hbaseline
    have heffect := (sound_of_step (sound_of_run hrun) hstep).1
    rcases heffect.origin he with ⟨e', he', htask, hsnapshot, hclaim⟩ |
      ⟨captured, fate, p, rfl, hp, hstage, htask, hsnapshot⟩ | hnone
    · obtain ⟨before, fate, rest, m, p, rfl, hbefore, hp, hstage, hp'⟩ :=
        ih e' he' (hclaim hbaseline)
      rw [htask, hsnapshot]
      exact ⟨before, fate, rest ++ [op], m, p, by simp, hbefore, hp, hstage, hp'⟩
    · exact ⟨ops, fate, [], w, p, by rw [hsnapshot], hrun, hp, hstage, htask.symm⟩
    · rw [hbaseline] at hnone
      cases hnone

/-- **A lost edit record is never made up for.** -/
theorem forfeited_of_run {before rest : List (Op S)} (h : Run (Step session) World.start before w)
    (hp : w.live = some p) (htask : p.taskId ≠ "")
    (h' : Run (Step session) w (.persist .lost :: rest) w') : Forfeited p.taskId w' := by
  have hsplit : Run (Step session) w ([.persist .lost] ++ rest) w' := h'
  obtain ⟨m, hm, hrest⟩ := hsplit.split
  have hlost : Step session w (.persist .lost) m := by
    have hm' : Run (Step session) w ([] ++ [.persist .lost]) m := hm
    obtain ⟨w₀, h₀, hstep⟩ := hm'.last
    rwa [h₀.of_nil] at hstep
  obtain ⟨heffect, hsound⟩ := sound_of_step (sound_of_run h) hlost
  have hboth := hrest.invariant
    (I := fun w => (∀ p, w.live = some p → Sound w.log p) ∧ Forfeited p.taskId w)
    ⟨hsound, forfeited_of_lost (sound_of_run h p hp) hp htask heffect⟩ (by
      intro w op w' hw hstep
      obtain ⟨heffect, hsound⟩ := sound_of_step hw.1 hstep
      exact ⟨hsound, hw.2.step heffect⟩)
  exact hboth.2

end AlysisCode.TaskEvidence
