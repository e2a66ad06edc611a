/-
What holds of a session in every state of a run, whatever fails.

The log never claims the baseline while a tool may have made edits that are not persisted, and
while it claims the baseline it is not behind the memory of the process.
-/
import AlysisCode.TaskEvidence.Effects

namespace AlysisCode.TaskEvidence

variable {S : Type} {session : Session S}

/-! ### The payload of a longer log -/

variable (fate : Fate) (log : List (Event S))

theorem payload_task (id : Option String) :
    (recover (append fate log (.task id))).payload = (recover log).payload := by
  rw [recover_append]
  split <;> rfl

theorem task_task {fate : Fate} (hfate : fate.written = true) (log : List (Event S))
    (id : Option String) : (recover (append fate log (.task id))).task = id := by
  rw [recover_append, if_pos hfate]
  rfl

theorem task_evidence (e : TaskEvidenceState S) (writer : String) :
    (recover (append fate log (.evidence e writer))).task = (recover log).task := by
  rw [recover_append]
  split <;> rfl

theorem task_toolCall : (recover (append fate log .toolCall)).task = (recover log).task := by
  rw [recover_append]
  split <;> rfl

variable {e : TaskEvidenceState S} {log : List (Event S)} {writer : String} {p : Process S}

theorem payload_evidence {fate : Fate} {x : TaskEvidenceState S × String}
    (h : (recover (append fate log (.evidence e writer))).payload = some x) :
    x = (e, writer) ∨ (recover log).payload = some x := by
  rw [recover_append] at h
  split at h
  · exact .inl (Option.some.inj h).symm
  · exact .inr h

theorem payload_toolCall (h : (recover (log ++ [.toolCall])).payload = some (e, writer)) :
    e.baselineAvailable = false ∧ ∃ e', (recover log).payload = some (e', writer) ∧
      e = { e' with baselineAvailable := false } := by
  rw [recover_snoc] at h
  obtain ⟨⟨e', writer'⟩, he', heq⟩ := Option.map_eq_some_iff.mp h
  cases heq
  exact ⟨rfl, e', he', rfl⟩

theorem payload_append_toolCall {fate : Fate}
    (h : (recover (append fate log .toolCall)).payload = some (e, writer))
    (hbaseline : e.baselineAvailable = true) : (recover log).payload = some (e, writer) := by
  unfold append at h
  split at h
  · rw [(payload_toolCall h).1] at hbaseline
    cases hbaseline
  · exact h

theorem restoredState_cases (session : Session S) (taskId : String)
    (payload : Option (TaskEvidenceState S × String)) (expected : String) :
    ((restoredState session taskId payload expected).baselineAvailable = false ∧
        (restoredState session taskId payload expected).taskId = taskId ∧
        (restoredState session taskId payload expected).ledger = {}) ∨
      ∃ e writer, payload = some (e, writer) ∧ e.taskId = taskId ∧
        restoredState session taskId payload expected = e := by
  unfold restoredState
  cases payload with
  | none => exact .inl ⟨rfl, rfl, rfl⟩
  | some x =>
    obtain ⟨e, writer⟩ := x
    dsimp only
    split
    · exact .inl ⟨rfl, rfl, rfl⟩
    · rename_i h
      simp only [ne_eq, not_or, not_not] at h
      exact .inr ⟨e, writer, rfl, h.1, rfl⟩

theorem restoredState_taskId (session : Session S) (taskId : String)
    (payload : Option (TaskEvidenceState S × String)) (expected : String) :
    (restoredState session taskId payload expected).taskId = taskId := by
  rcases restoredState_cases session taskId payload expected with ⟨-, h, -⟩ | ⟨e, _, -, h, heq⟩
  · exact h
  · rw [heq, h]

/-! ### The invariant -/

/-- A state of evidence is in the memory of the process or in what the log would restore. -/
def Holds (w : World S) (e : TaskEvidenceState S) : Prop :=
  (∃ p, w.live = some p ∧ p.evidence = some e) ∨
    ∃ writer, (recover w.log).payload = some (e, writer)

/-- What holds of the process and the log it writes. -/
structure Sound (log : List (Event S)) (p : Process S) : Prop where
  evident : Evident p
  usedTask : p.taskId ≠ "" → Used p.taskId log
  usedEvidence : ∀ e, p.evidence = some e → e.taskId ≠ "" → Used e.taskId log
  gone : ∀ e, p.evidence = some e → e.taskId ≠ p.taskId → e.taskId ≠ "" →
    (recover log).task ≠ some e.taskId
  new : p.stage = .accepted true → ∀ e, p.evidence = some e → e.taskId ≠ p.taskId
  dispatched : ∀ t, p.stage = .turn t → t.dispatched = true → ∀ e writer,
    (recover log).payload = some (e, writer) → e.baselineAvailable = false
  settled : ∀ t e, p.stage = .turn t → t.dispatched = false → p.evidence = some e →
    t.ledger ≤ e.ledger
  backed : ∀ e e' writer, p.evidence = some e → (recover log).payload = some (e', writer) →
    e'.taskId = e.taskId → e'.baselineAvailable = true → e.ledger ≤ e'.ledger

theorem ne_of_fresh {id id' : String} (hid : id ≠ "" ∧ ¬Used id log)
    (hid' : id' ≠ "" → Used id' log) : id' ≠ id := by
  rintro rfl
  exact hid.2 (hid' hid.1)

theorem Sound.rest (h : Sound log p) {stage : Stage}
    (hstage : stage = .idle ∨ stage = .accepted false) :
    Sound log { p with stage := stage } where
  evident := by rcases hstage with rfl | rfl <;> exact ⟨nofun, nofun⟩
  usedTask := h.usedTask
  usedEvidence := h.usedEvidence
  gone := h.gone
  new := by rcases hstage with rfl | rfl <;> exact nofun
  dispatched := by rcases hstage with rfl | rfl <;> exact nofun
  settled := by rcases hstage with rfl | rfl <;> exact nofun
  backed := h.backed

theorem Sound.task (h : Sound log p) (fate : Fate) {id : Option String}
    (hid : ∀ e, p.evidence = some e → e.taskId ≠ "" → id ≠ some e.taskId) :
    Sound (append fate log (.task id)) p where
  evident := h.evident
  usedTask hne := (h.usedTask hne).append fate _
  usedEvidence e he hne := (h.usedEvidence e he hne).append fate _
  gone e he hother hne := by
    by_cases hfate : fate.written = true
    · rw [task_task hfate]
      exact hid e he hne
    · rw [recover_append, if_neg hfate]
      exact h.gone e he hother hne
  new := h.new
  dispatched := by
    rw [payload_task]
    exact h.dispatched
  settled := h.settled
  backed := by
    rw [payload_task]
    exact h.backed

theorem Sound.toolCall (h : Sound log p) (fate : Fate) : Sound (append fate log .toolCall) p where
  evident := h.evident
  usedTask hne := (h.usedTask hne).append fate _
  usedEvidence e he hne := (h.usedEvidence e he hne).append fate _
  gone := by
    rw [task_toolCall]
    exact h.gone
  new := h.new
  dispatched t ht hdispatched e writer he := by
    rw [← Bool.not_eq_true]
    intro hbaseline
    have hold := payload_append_toolCall he hbaseline
    rw [h.dispatched t ht hdispatched e writer hold] at hbaseline
    cases hbaseline
  settled := h.settled
  backed e e' writer he he' htask hbaseline :=
    h.backed e e' writer he (payload_append_toolCall he' hbaseline) htask hbaseline

theorem Sound.evidence {p' : Process S} (h : Sound log p) (fate : Fate)
    (htask : e.taskId = p.taskId) (htask' : p'.taskId = p.taskId)
    (hevidence : p'.evidence = some (behind fate e)) (hnew : p'.stage ≠ .accepted true)
    (hturn : ∀ t, p'.stage = .turn t → t.dispatched = false ∧ t.ledger ≤ e.ledger ∧
      (t.contract = some true → (behind fate e).baselineAvailable = true))
    (hold : fate.written = false → ∀ e' writer', (recover log).payload = some (e', writer') →
      e'.taskId = e.taskId → e'.baselineAvailable = true → e.ledger ≤ e'.ledger) :
    Sound (append fate log (.evidence e writer)) p' where
  evident :=
    ⟨fun _ => ⟨_, hevidence, by rw [behind_taskId, htask, htask']⟩,
      fun t ht => ⟨_, hevidence, by rw [behind_taskId, htask, htask'], (hturn t ht).2.2⟩⟩
  usedTask hne := by
    rw [htask'] at hne ⊢
    exact (h.usedTask hne).append fate _
  usedEvidence e' he' hne := by
    obtain rfl := Option.some.inj (hevidence.symm.trans he')
    rw [behind_taskId, htask] at hne ⊢
    exact (h.usedTask hne).append fate _
  gone e' he' hother _ := by
    obtain rfl := Option.some.inj (hevidence.symm.trans he')
    rw [behind_taskId, htask, htask'] at hother
    exact absurd rfl hother
  new hstage := absurd hstage hnew
  dispatched t ht hdispatched := by
    rw [(hturn t ht).1] at hdispatched
    cases hdispatched
  settled t e' ht _ he' := by
    obtain rfl := Option.some.inj (hevidence.symm.trans he')
    rw [behind_ledger]
    exact (hturn t ht).2.1
  backed e' e'' writer' he' he'' hsame hbaseline := by
    obtain rfl := Option.some.inj (hevidence.symm.trans he')
    rw [behind_taskId] at hsame
    rw [behind_ledger]
    by_cases hfate : fate.written = true
    · rw [recover_append, if_pos hfate] at he''
      obtain ⟨rfl, -⟩ := Prod.mk.inj (Option.some.inj he'')
      exact Ledger.le_refl _
    · rw [recover_append, if_neg hfate] at he''
      exact hold (by simpa using hfate) e'' writer' he'' hsame hbaseline

theorem Sound.empty (log : List (Event S)) : Sound log {} where
  evident := ⟨nofun, nofun⟩
  usedTask h := absurd rfl h
  usedEvidence := nofun
  gone := nofun
  new := nofun
  dispatched := nofun
  settled := nofun
  backed := nofun

/-- **Every operation keeps the process sound with its log.** -/
theorem Sound.step {w w' : World S} {op : Op S} (hw : ∀ p, w.live = some p → Sound w.log p)
    (h : Effect session w op w') : ∀ p, w'.live = some p → Sound w'.log p := by
  intro p' hp'
  cases h with
  | proceed log p =>
    cases hp'
    exact (hw p rfl).rest (.inr rfl)
  | refuse log p id fate hid =>
    cases hp'
    apply Sound.rest _ (.inl rfl)
    apply (hw p rfl).task fate
    intro e he _ heq
    exact ne_of_fresh hid ((hw p rfl).usedEvidence e he) (Option.some.inj heq).symm
  | accept log p id hid =>
    cases hp'
    have hp := hw p rfl
    have hother : ∀ e, p.evidence = some e → e.taskId ≠ id := fun e he =>
      ne_of_fresh hid (hp.usedEvidence e he)
    have htask : Sound (log ++ [.task (some id)]) p :=
      hp.task .ok fun e he _ heq => hother e he (Option.some.inj heq).symm
    exact {
      evident := ⟨nofun, nofun⟩
      usedTask := fun _ => List.mem_append_right _ (List.mem_singleton_self _)
      usedEvidence := htask.usedEvidence
      gone := fun e he _ _ heq => by
        rw [recover_snoc] at heq
        exact hother e he (Option.some.inj heq).symm
      new := fun _ => hother
      dispatched := nofun
      settled := nofun
      backed := htask.backed }
  | keep log p captured fate e hstage hevidence htask =>
    cases hp'
    have hp := hw p rfl
    exact {
      evident := ⟨fun _ => ⟨e, hevidence, htask⟩, nofun⟩
      usedTask := hp.usedTask
      usedEvidence := hp.usedEvidence
      gone := hp.gone
      new := nofun
      dispatched := nofun
      settled := nofun
      backed := hp.backed }
  | rebuild log p captured fate newTask hstage hother =>
    cases hp'
    refine Sound.evidence (hw p rfl) fate rfl rfl rfl ?_ ?_ ?_
    · exact nofun
    · exact nofun
    · intro _ e' writer' _ _ _
      exact Ledger.empty_le e'.ledger
  | install log p guarded fate e hstage hevidence =>
    cases hp'
    have hp := hw p rfl
    obtain ⟨e', he', htask⟩ := hp.evident.begun hstage
    obtain rfl := Option.some.inj (hevidence.symm.trans he')
    exact {
      evident := by
        refine ⟨nofun, fun t ht => ⟨e, hevidence, htask, fun hcontract => ?_⟩⟩
        obtain rfl := Stage.turn.inj ht
        split at hcontract
        · exact Option.some.inj hcontract
        · cases hcontract
      usedTask := hp.usedTask
      usedEvidence := hp.usedEvidence
      gone := hp.gone
      new := nofun
      dispatched := fun t ht hdispatched => by
        obtain rfl := Stage.turn.inj ht
        cases hdispatched
      settled := fun t e' ht _ he' => by
        obtain rfl := Stage.turn.inj ht
        obtain rfl := Option.some.inj (hevidence.symm.trans he')
        exact Ledger.le_refl _
      backed := hp.backed }
  | abort log p fate =>
    obtain rfl := Option.some.inj hp'
    exact ((hw p rfl).toolCall fate).rest (.inl rfl)
  | toolCall log p t hstage =>
    obtain rfl := Option.some.inj hp'
    have hp := hw p rfl
    have hcall : Sound (log ++ [.toolCall]) p := hp.toolCall .ok
    exact {
      evident := by
        refine ⟨nofun, fun t' ht' => ?_⟩
        obtain rfl := Stage.turn.inj ht'
        exact hp.evident.turn t hstage
      usedTask := hcall.usedTask
      usedEvidence := hcall.usedEvidence
      gone := hcall.gone
      new := nofun
      dispatched := fun _ _ _ e writer he => (payload_toolCall he).1
      settled := fun t' e ht' hdispatched => by
        obtain rfl := Stage.turn.inj ht'
        cases hdispatched
      backed := hcall.backed }
  | effect log p t paths relevant hstage hdispatched =>
    obtain rfl := Option.some.inj hp'
    have hp := hw p rfl
    exact {
      evident := by
        refine ⟨nofun, fun t' ht' => ?_⟩
        obtain rfl := Stage.turn.inj ht'
        exact hp.evident.turn t hstage
      usedTask := hp.usedTask
      usedEvidence := hp.usedEvidence
      gone := hp.gone
      new := nofun
      dispatched := fun _ _ _ => hp.dispatched t hstage hdispatched
      settled := fun t' e ht' hdispatched' => by
        obtain rfl := Stage.turn.inj ht'
        rw [hdispatched] at hdispatched'
        cases hdispatched'
      backed := hp.backed }
  | persist log p fate t e hstage hdispatched hevidence =>
    obtain rfl := Option.some.inj hp'
    have hp := hw p rfl
    obtain ⟨e', he', htask, hcontract⟩ := hp.evident.turn t hstage
    obtain rfl := Option.some.inj (hevidence.symm.trans he')
    refine Sound.evidence hp fate ?_ rfl rfl ?_ ?_ ?_
    · exact htask
    · exact nofun
    · intro t' ht'
      obtain rfl := Stage.turn.inj ht'
      refine ⟨rfl, Ledger.le_merge_right _ _, fun hclaim => ?_⟩
      unfold behind
      by_cases hraised : fate.raised = true
      · rw [if_pos hraised] at hclaim
        obtain ⟨_, _, hfalse⟩ := Option.map_eq_some_iff.mp hclaim
        cases hfalse
      · rw [if_neg hraised] at hclaim ⊢
        exact hcontract hclaim
    · intro _ e' writer' he' _ hbaseline
      rw [hp.dispatched t hstage hdispatched e' writer' he'] at hbaseline
      cases hbaseline
  | uncleared log p fate clears =>
    obtain rfl := Option.some.inj hp'
    exact (hw p rfl).task fate fun _ _ _ => nofun
  | clear log p clears =>
    obtain rfl := Option.some.inj hp'
    exact Sound.empty _
  | close w taskFate fate => cases hp'
  | reopen w fate id htask hnone =>
    obtain rfl := Option.some.inj hp'
    exact Sound.empty _
  | restore w fate id htask hid =>
    obtain rfl := Option.some.inj hp'
    have hopened : Sound (w.log ++ [.task (some id)]) ({ taskId := id } : Process S) := {
      evident := ⟨nofun, nofun⟩
      usedTask := fun _ => List.mem_append_right _ (List.mem_singleton_self _)
      usedEvidence := nofun
      gone := nofun
      new := nofun
      dispatched := nofun
      settled := nofun
      backed := nofun }
    refine Sound.evidence hopened fate ?_ rfl rfl ?_ ?_ ?_
    · exact restoredState_taskId session id _ _
    · exact nofun
    · exact nofun
    · intro _ e' writer' he' _ _
      rcases restoredState_cases session id (recover w.log).payload session.sessionId with
        ⟨-, -, hledger⟩ | ⟨e, writer, he, -, heq⟩
      · rw [hledger]
        exact Ledger.empty_le _
      · rw [recover_snoc] at he'
        rw [heq]
        obtain ⟨rfl, -⟩ := Prod.mk.inj (Option.some.inj (he.symm.trans he'))
        exact Ledger.le_refl _

end AlysisCode.TaskEvidence
