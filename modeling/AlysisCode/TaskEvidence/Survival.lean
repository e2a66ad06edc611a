/-
What a task's counts survive.

A turn that is left with an edit that is in no evidence, or a process that ends ahead of its log,
takes counts with it.  Nothing else does, and what the log claims it has counted in any case.
-/
import AlysisCode.TaskEvidence.Authority

namespace AlysisCode.TaskEvidence

open Runs

variable {S : Type} {session : Session S}

/-- The counts of the running turn, or of the evidence between turns. -/
def current (w : World S) : Option (String × Ledger) :=
  w.live.bind fun p =>
    match p.stage with
    | .turn t => some (p.taskId, t.ledger)
    | _ => p.evidence.map fun e => (e.taskId, e.ledger)

/-- Every edit the turn has observed is in its evidence. -/
def Recorded (w : World S) : Prop :=
  ∀ p t e, w.live = some p → p.stage = .turn t → p.evidence = some e → t.ledger ≤ e.ledger

/-- What the process has counted for the task, its log restores. -/
def Logged (session : Session S) (w : World S) : Prop :=
  ∀ task counted, current w = some (task, counted) → (recover w.log).task = some task →
    counted ≤ (restoredState session task (recover w.log).payload session.sessionId).ledger

/-- The turn that the operation leaves, if it leaves one, has recorded its edits. -/
def Tidy (w : World S) : Op S → Prop
  | .proceed | .accept _ _ => Recorded w
  | .toolCall fate => fate.raised = true → Recorded w
  | _ => True

def Flushed (session : Session S) (w : World S) : Op S → Prop
  | .restart _ _ => Logged session w
  | _ => True

/-- No turn is left with an edit it has not recorded, and no process ends ahead of its log. -/
def Careful (session : Session S) (w : World S) (op : Op S) : Prop :=
  Tidy w op ∧ Flushed session w op

instance (w : World S) : Decidable (Recorded w) :=
  match hlive : w.live with
  | none => isTrue fun p t e hp => by
    rw [hlive] at hp
    cases hp
  | some p =>
    match hstage : p.stage, hevidence : p.evidence with
    | .turn t, some e =>
      if h : t.ledger ≤ e.ledger then
        isTrue fun p' t' e' hp' ht' he' => by
          obtain rfl := Option.some.inj (hlive.symm.trans hp')
          obtain rfl := Stage.turn.inj (hstage.symm.trans ht')
          obtain rfl := Option.some.inj (hevidence.symm.trans he')
          exact h
      else isFalse fun hrecorded => h (hrecorded p t e hlive hstage hevidence)
    | .turn _, none => isTrue fun p' t' e' hp' _ he' => by
      obtain rfl := Option.some.inj (hlive.symm.trans hp')
      cases hevidence.symm.trans he'
    | .idle, _ | .accepted _, _ | .begun, _ => isTrue fun p' t' e' hp' ht' _ => by
      obtain rfl := Option.some.inj (hlive.symm.trans hp')
      cases hstage.symm.trans ht'

instance (session : Session S) (w : World S) : Decidable (Logged session w) :=
  match hcurrent : current w with
  | none => isTrue fun task counted h => by
    rw [hcurrent] at h
    cases h
  | some (task, counted) =>
    decidable_of_iff ((recover w.log).task = some task →
      counted ≤ (restoredState session task (recover w.log).payload session.sessionId).ledger)
      (by
        constructor
        · intro h task' counted' heq
          obtain ⟨rfl, rfl⟩ := Prod.mk.inj (Option.some.inj (hcurrent.symm.trans heq))
          exact h
        · exact fun h => h task counted hcurrent)

instance (w : World S) (op : Op S) : Decidable (Tidy w op) :=
  match op with
  | .proceed | .accept _ _ => inferInstanceAs (Decidable (Recorded w))
  | .toolCall fate => inferInstanceAs (Decidable (fate.raised = true → Recorded w))
  | .begin _ _ | .install _ _ | .effect _ _ | .persist _ | .clear _ _ | .restart _ _ =>
    isTrue trivial

instance (session : Session S) (w : World S) (op : Op S) : Decidable (Careful session w op) :=
  match op with
  | .restart taskFate fate =>
    inferInstanceAs (Decidable (Tidy w (.restart taskFate fate) ∧ Logged session w))
  | .proceed => inferInstanceAs (Decidable (Tidy w .proceed ∧ True))
  | .accept id fate => inferInstanceAs (Decidable (Tidy w (.accept id fate) ∧ True))
  | .toolCall fate => inferInstanceAs (Decidable (Tidy w (.toolCall fate) ∧ True))
  | .begin _ _ | .install _ _ | .effect _ _ | .persist _ | .clear _ _ =>
    isTrue ⟨trivial, trivial⟩

/-! ### Counts -/

variable {log : List (Event S)} {p : Process S} {counted : Ledger} {task : String}

theorem current_of_turn {t : Turn} (h : p.stage = .turn t) :
    current ⟨log, some p⟩ = some (p.taskId, t.ledger) := by
  simp [current, h]

theorem current_of_evidence (h : ∀ t, p.stage ≠ .turn t) :
    current ⟨log, some p⟩ = p.evidence.map fun e => (e.taskId, e.ledger) := by
  unfold current
  dsimp only [Option.bind_some]
  split
  · rename_i t ht
    exact absurd ht (h t)
  · rfl

theorem counted_of_evidence (hsound : Sound log p) {e : TaskEvidenceState S}
    (he : p.evidence = some e)
    (h : ∀ counted', current ⟨log, some p⟩ = some (task, counted') → counted ≤ counted')
    (htask : e.taskId = task) (hturn : ∀ t, p.stage = .turn t → t.ledger ≤ e.ledger) :
    counted ≤ e.ledger := by
  by_cases hstage : ∃ t, p.stage = .turn t
  · obtain ⟨t, ht⟩ := hstage
    obtain ⟨e', he', htask', -⟩ := hsound.evident.turn t ht
    obtain rfl := Option.some.inj (he.symm.trans he')
    have hcounted := h t.ledger (by rw [current_of_turn ht, ← htask', htask])
    exact Ledger.le_trans hcounted (hturn t ht)
  · apply h
    rw [current_of_evidence fun t ht => hstage ⟨t, ht⟩, he, Option.map_some, htask]

/-! ### Counts that are kept -/

/-- Whatever the process counts for the task, or the log would restore, has the counts. -/
structure Kept (session : Session S) (task : String) (counted : Ledger) (w : World S) :
    Prop where
  used : Used task w.log
  new : ∀ p, w.live = some p → p.stage = .accepted true → p.taskId ≠ task
  counts : ∀ counted', current w = some (task, counted') → counted ≤ counted'
  there : ∀ p, w.live = some p → p.taskId = task → ∃ e, p.evidence = some e ∧ e.taskId = task
  gone : ∀ p, w.live = some p → p.taskId ≠ task → (recover w.log).task ≠ some task
  closed : w.live = none → (recover w.log).task = some task →
    counted ≤ (restoredState session task (recover w.log).payload session.sessionId).ledger

theorem evidence_of_current (hp : Sound log p) (h : current ⟨log, some p⟩ = some (task, counted)) :
    ∃ e, p.evidence = some e ∧ e.taskId = task := by
  by_cases hstage : ∃ t, p.stage = .turn t
  · obtain ⟨t, ht⟩ := hstage
    rw [current_of_turn ht] at h
    obtain ⟨e, he, htask, -⟩ := hp.evident.turn t ht
    exact ⟨e, he, htask.trans (Prod.mk.inj (Option.some.inj h)).1⟩
  · rw [current_of_evidence fun t ht => hstage ⟨t, ht⟩] at h
    obtain ⟨e, he, heq⟩ := Option.map_eq_some_iff.mp h
    exact ⟨e, he, (Prod.mk.inj heq).1⟩

theorem Kept.of_current {w : World S} (hw : ∀ p, w.live = some p → Sound w.log p)
    (htask : task ≠ "") (h : current w = some (task, counted)) : Kept session task counted w := by
  obtain ⟨log, live⟩ := w
  cases live with
  | none => cases h
  | some p =>
    have hp : Sound log p := hw p rfl
    obtain ⟨e, he, rfl⟩ := evidence_of_current hp h
    refine ⟨hp.usedEvidence e he htask, ?_, ?_, ?_, ?_, nofun⟩
    · intro p' hp' hstage
      cases hp'
      exact (hp.new hstage e he).symm
    · intro counted' hcounted'
      rw [h] at hcounted'
      obtain ⟨-, rfl⟩ := Prod.mk.inj (Option.some.inj hcounted')
      exact Ledger.le_refl _
    · intro p' hp' _
      cases hp'
      exact ⟨e, he, rfl⟩
    · intro p' hp' hother
      cases hp'
      exact hp.gone e he (Ne.symm hother) htask

theorem Kept.restored {w : World S} (hw : ∀ p, w.live = some p → Sound w.log p)
    (h : Kept session task counted w) (hlogged : Logged session w)
    (htask : (recover w.log).task = some task) :
    counted ≤ (restoredState session task (recover w.log).payload session.sessionId).ledger := by
  obtain ⟨log, live⟩ := w
  cases live with
  | none => exact h.closed rfl htask
  | some p =>
    have hp : p.taskId = task := by
      by_contra hother
      exact h.gone p rfl hother htask
    obtain ⟨e, he, hetask⟩ := h.there p rfl hp
    by_cases hstage : ∃ t, p.stage = .turn t
    · obtain ⟨t, ht⟩ := hstage
      have hcurrent : current ⟨log, some p⟩ = some (task, t.ledger) := by
        rw [current_of_turn ht, hp]
      exact Ledger.le_trans (h.counts _ hcurrent) (hlogged _ _ hcurrent htask)
    · have hcurrent : current ⟨log, some p⟩ = some (task, e.ledger) := by
        rw [current_of_evidence fun t ht => hstage ⟨t, ht⟩, he, Option.map_some, hetask]
      exact Ledger.le_trans (h.counts _ hcurrent) (hlogged _ _ hcurrent htask)

theorem Kept.counts_rest (hp : Sound log p) (h : Kept session task counted ⟨log, some p⟩)
    (hrecorded : ∀ t e, p.stage = .turn t → p.evidence = some e → t.ledger ≤ e.ledger)
    (log' : List (Event S)) (p' : Process S) (hevidence : p'.evidence = p.evidence)
    (hstage : ∀ t, p'.stage ≠ .turn t) :
    ∀ counted', current ⟨log', some p'⟩ = some (task, counted') → counted ≤ counted' := by
  intro counted' hcounted'
  rw [current_of_evidence hstage, hevidence] at hcounted'
  obtain ⟨e, he, heq⟩ := Option.map_eq_some_iff.mp hcounted'
  obtain ⟨htask, rfl⟩ := Prod.mk.inj heq
  exact counted_of_evidence hp he h.counts htask fun t ht => hrecorded t e ht he

theorem counts_turn {t : Turn} (hstage : p.stage = .turn t)
    (h : p.taskId = task → counted ≤ t.ledger) :
    ∀ counted', current ⟨log, some p⟩ = some (task, counted') → counted ≤ counted' := by
  intro counted' hcounted'
  rw [current_of_turn hstage] at hcounted'
  obtain ⟨htask, rfl⟩ := Prod.mk.inj (Option.some.inj hcounted')
  exact h htask

section Live

variable {log : List (Event S)} {p : Process S} {task : String} {counted : Ledger}

theorem Kept.of_live (hused : Used task log)
    (hnew : ∀ p', some p = some p' → p'.stage = .accepted true → p'.taskId ≠ task)
    (hcounts : ∀ counted', current ⟨log, some p⟩ = some (task, counted') → counted ≤ counted')
    (hthere : p.taskId = task → ∃ e, p.evidence = some e ∧ e.taskId = task)
    (hgone : p.taskId ≠ task → (recover log).task ≠ some task) :
    Kept session task counted ⟨log, some p⟩ where
  used := hused
  new := hnew
  counts := hcounts
  there p' hp' := by
    cases hp'
    exact hthere
  gone p' hp' := by
    cases hp'
    exact hgone
  closed := nofun

theorem Kept.task_ne (h : Kept session task counted ⟨log, some p⟩) {id : String}
    (hid : id ≠ "" ∧ ¬Used id log) : id ≠ task := by
  rintro rfl
  exact hid.2 h.used

end Live

/-- **A careful operation keeps the counts.** -/
theorem Kept.step {w w' : World S} {op : Op S} {task : String} {counted : Ledger}
    (htask : task ≠ "") (hw : ∀ p, w.live = some p → Sound w.log p)
    (h : Kept session task counted w) (hcareful : Careful session w op)
    (heffect : Effect session w op w') : Kept session task counted w' := by
  have hused := heffect.used h.used
  have hnew := heffect.new h.used h.new
  cases heffect with
  | proceed log p =>
    exact .of_live hused hnew (h.counts_rest (hw p rfl) (hcareful.1 p · · rfl) _ _ rfl nofun)
      (h.there p rfl) (h.gone p rfl)
  | refuse log p id fate hid =>
    refine .of_live hused hnew (h.counts_rest (hw p rfl) (hcareful.1 p · · rfl) _ _ rfl nofun)
      (h.there p rfl) fun hother => ?_
    by_cases hfate : fate.written = true
    · rw [task_task hfate]
      exact fun heq => h.task_ne hid (Option.some.inj heq)
    · rw [recover_append, if_neg hfate]
      exact h.gone p rfl hother
  | accept log p id hid =>
    refine .of_live hused hnew (h.counts_rest (hw p rfl) (hcareful.1 p · · rfl) _ _ rfl nofun)
      (fun heq => absurd heq (h.task_ne hid)) fun _ => ?_
    rw [recover_snoc]
    exact fun heq => h.task_ne hid (Option.some.inj heq)
  | keep log p captured fate e hstage hevidence _ =>
    refine .of_live hused hnew (h.counts_rest (hw p rfl) ?_ _ _ rfl nofun)
      (h.there p rfl) (h.gone p rfl)
    intro t e ht
    rw [hstage] at ht
    cases ht
  | rebuild log p captured fate newTask hstage hother =>
    have hne : p.taskId ≠ task := by
      intro heq
      rcases hother with rfl | hother
      · exact h.new p rfl hstage heq
      · obtain ⟨e, he, hetask⟩ := h.there p rfl heq
        exact hother e he (hetask.trans heq.symm)
    refine .of_live hused hnew ?_ (fun heq => absurd heq hne) fun _ => ?_
    · intro counted' hcounted'
      rw [current_of_evidence, Option.map_some, behind_taskId] at hcounted'
      · exact absurd (Prod.mk.inj (Option.some.inj hcounted')).1 hne
      · exact nofun
    · rw [task_evidence]
      exact h.gone p rfl hne
  | install log p guarded fate e hstage hevidence =>
    obtain ⟨e', he', hetask⟩ := (hw p rfl).evident.begun hstage
    obtain rfl := Option.some.inj (hevidence.symm.trans he')
    refine .of_live hused hnew (counts_turn rfl fun heq => ?_) (h.there p rfl) (h.gone p rfl)
    apply counted_of_evidence (hw p rfl) hevidence h.counts (hetask.trans heq)
    intro t ht
    rw [hstage] at ht
    cases ht
  | abort log p fate hraised =>
    refine .of_live hused hnew
      (h.counts_rest (hw p rfl) (hcareful.1 hraised p · · rfl) _ _ rfl nofun)
      (h.there p rfl) fun hother => ?_
    rw [task_toolCall]
    exact h.gone p rfl hother
  | toolCall log p t hstage =>
    refine .of_live hused hnew (counts_turn rfl fun heq => ?_) (h.there p rfl) fun hother => ?_
    · exact h.counts _ (by rw [current_of_turn hstage, ← heq])
    · rw [recover_snoc]
      exact h.gone p rfl hother
  | effect log p t paths relevant hstage hdispatched =>
    refine .of_live hused hnew (counts_turn rfl fun heq => ?_) (h.there p rfl) (h.gone p rfl)
    have hcounted := h.counts _ (by rw [current_of_turn hstage, ← heq])
    exact Ledger.le_trans hcounted (Ledger.le_noteEdit _ _ _)
  | persist log p fate t e hstage hdispatched hevidence =>
    refine .of_live hused hnew (counts_turn rfl fun heq => ?_) (fun heq => ?_) fun hother => ?_
    · exact h.counts _ (by rw [current_of_turn hstage, ← heq])
    · obtain ⟨e', he', hetask⟩ := h.there p rfl heq
      obtain rfl := Option.some.inj (hevidence.symm.trans he')
      exact ⟨_, rfl, by rw [behind_taskId, hetask]⟩
    · rw [task_evidence]
      exact h.gone p rfl hother
  | uncleared log p fate clears =>
    refine .of_live hused hnew h.counts (h.there p rfl) fun hother => ?_
    by_cases hfate : fate.written = true
    · rw [task_task hfate]
      exact nofun
    · rw [recover_append, if_neg hfate]
      exact h.gone p rfl hother
  | clear log p clears =>
    refine .of_live hused hnew nofun (fun heq => absurd heq.symm htask) fun _ => ?_
    cases clears with
    | true =>
      rw [if_pos rfl, recover_snoc]
      exact nofun
    | false =>
      rw [if_neg (by decide), recover_snoc]
      exact nofun
  | close w taskFate fate =>
    refine ⟨hused, hnew, nofun, nofun, nofun, fun _ hrecovered => ?_⟩
    have hsame : (recover (append taskFate w.log (.task (recover w.log).task))).task =
        (recover w.log).task := by
      rw [recover_append]
      split <;> rfl
    rw [hsame] at hrecovered
    rw [payload_task]
    exact h.restored hw hcareful.2 hrecovered
  | reopen w fate id _ hnone =>
    refine .of_live hused hnew nofun (fun heq => absurd heq.symm htask) fun _ => ?_
    rw [recover_snoc]
    rintro rfl
    rcases hnone with hnone | hnone
    · cases hnone
    · exact htask (Option.some.inj hnone)
  | restore w fate id hrecovered hid =>
    have hlog : (recover (w.log ++ [.task (some id)])).task = some id := by
      rw [recover_snoc]
      rfl
    refine .of_live hused hnew ?_ (fun heq => ?_) fun hother => ?_
    · intro counted' hcounted'
      rw [current_of_evidence, Option.map_some, behind_taskId, behind_ledger,
        restoredState_taskId] at hcounted'
      · cases hcounted'
        exact h.restored hw hcareful.2 hrecovered
      · exact nofun
    · exact ⟨_, rfl, by rw [behind_taskId, restoredState_taskId]; exact heq⟩
    · rw [task_evidence, hlog]
      exact fun heq => hother (Option.some.inj heq)

/-! ### Claims that are backed -/

/-- Who claims the baseline of the task has counted as much; a process may still have to persist
what a called tool did. -/
structure Covered (task : String) (counted : Ledger) (w : World S) : Prop where
  used : Used task w.log
  new : ∀ p, w.live = some p → p.stage = .accepted true → p.taskId ≠ task
  payload : ∀ e writer, (recover w.log).payload = some (e, writer) → e.taskId = task →
    e.baselineAvailable = true → counted ≤ e.ledger
  evidence : ∀ p e, w.live = some p → p.evidence = some e → e.taskId = task →
    e.baselineAvailable = true →
    counted ≤ e.ledger ∨ ∃ t, p.stage = .turn t ∧ t.dispatched = true ∧ counted ≤ t.ledger

theorem Covered.of_current {w : World S} (hw : ∀ p, w.live = some p → Sound w.log p)
    (htask : task ≠ "") (h : current w = some (task, counted)) : Covered task counted w := by
  obtain ⟨log, live⟩ := w
  cases live with
  | none => cases h
  | some p =>
    have hp : Sound log p := hw p rfl
    obtain ⟨e, he, rfl⟩ := evidence_of_current hp h
    have hcounted : counted ≤ e.ledger ∨
        ∃ t, p.stage = .turn t ∧ t.dispatched = true ∧ counted ≤ t.ledger := by
      by_cases hstage : ∃ t, p.stage = .turn t
      · obtain ⟨t, ht⟩ := hstage
        rw [current_of_turn ht] at h
        obtain ⟨-, rfl⟩ := Prod.mk.inj (Option.some.inj h)
        cases hdispatched : t.dispatched with
        | true => exact Or.inr ⟨t, ht, hdispatched, Ledger.le_refl _⟩
        | false => exact Or.inl (hp.settled t e ht hdispatched he)
      · rw [current_of_evidence fun t ht => hstage ⟨t, ht⟩, he] at h
        obtain ⟨-, rfl⟩ := Prod.mk.inj (Option.some.inj h)
        exact Or.inl (Ledger.le_refl _)
    refine ⟨hp.usedEvidence e he htask, ?_, ?_, ?_⟩
    · intro p' hp' hstage
      cases hp'
      exact (hp.new hstage e he).symm
    · intro e' writer he' hsame hbaseline
      rcases hcounted with hcounted | ⟨t, ht, hdispatched, -⟩
      · exact Ledger.le_trans hcounted (hp.backed e e' writer he he' hsame hbaseline)
      · rw [hp.dispatched t ht hdispatched e' writer he'] at hbaseline
        cases hbaseline
    · intro p' e' hp' he' _ _
      cases hp'
      obtain rfl := Option.some.inj (he.symm.trans he')
      exact hcounted

/-- **A tidy operation, whatever fails, leaves claims covered.** -/
theorem Covered.step {w w' : World S} {op : Op S} {task : String} {counted : Ledger}
    (hw : ∀ p, w.live = some p → Sound w.log p) (h : Covered task counted w) (htidy : Tidy w op)
    (heffect : Effect session w op w') : Covered task counted w' := by
  have hrest : ∀ p e, w.live = some p → Recorded w → p.evidence = some e → e.taskId = task →
      e.baselineAvailable = true → counted ≤ e.ledger := by
    intro p e hp hrecorded he hetask hbaseline
    rcases h.evidence p e hp he hetask hbaseline with hcounted | ⟨t, ht, -, hcounted⟩
    · exact hcounted
    · exact Ledger.le_trans hcounted (hrecorded p t e hp ht he)
  have hrestored : ∀ id, (restoredState session id (recover w.log).payload
      session.sessionId).taskId = task → (restoredState session id (recover w.log).payload
      session.sessionId).baselineAvailable = true → counted ≤ (restoredState session id
      (recover w.log).payload session.sessionId).ledger := by
    intro id hetask hbaseline
    rcases restoredState_cases session id (recover w.log).payload session.sessionId with
      ⟨hnone, -, -⟩ | ⟨e, writer, he, -, heq⟩
    · rw [hnone] at hbaseline
      cases hbaseline
    · rw [heq] at hetask hbaseline ⊢
      exact h.payload e writer he hetask hbaseline
  have hmerged : ∀ log p t e, w = ⟨log, some p⟩ → p.stage = .turn t → p.evidence = some e →
      e.taskId = task → e.baselineAvailable = true → counted ≤ e.ledger.merge t.ledger := by
    rintro log p t e rfl hstage hevidence hetask hbaseline
    rcases h.evidence p e rfl hevidence hetask hbaseline with hcounted | ⟨t', ht', -, hcounted⟩
    · exact Ledger.le_trans hcounted (Ledger.le_merge_left _ _)
    · obtain rfl := Stage.turn.inj (hstage.symm.trans ht')
      exact Ledger.le_trans hcounted (Ledger.le_merge_right _ _)
  refine ⟨heffect.used h.used, heffect.new h.used h.new, ?_, ?_⟩
  · intro e writer he hetask hbaseline
    cases heffect with
    | proceed | keep | install | effect => exact h.payload e writer he hetask hbaseline
    | refuse | uncleared | close =>
      rw [payload_task] at he
      exact h.payload e writer he hetask hbaseline
    | accept | reopen =>
      rw [recover_snoc] at he
      exact h.payload e writer he hetask hbaseline
    | rebuild log p captured fate newTask hstage =>
      rcases payload_evidence he with heq | he
      · obtain ⟨rfl, -⟩ := Prod.mk.inj heq
        obtain rfl : newTask = true := hbaseline
        exact absurd hetask (h.new p rfl hstage)
      · exact h.payload e writer he hetask hbaseline
    | abort =>
      exact h.payload e writer (payload_append_toolCall he hbaseline) hetask hbaseline
    | toolCall =>
      rw [(payload_toolCall he).1] at hbaseline
      cases hbaseline
    | persist log p fate t e' hstage hdispatched hevidence =>
      rcases payload_evidence he with heq | he
      · obtain ⟨rfl, -⟩ := Prod.mk.inj heq
        exact hmerged log p t e' rfl hstage hevidence hetask hbaseline
      · exact h.payload e writer he hetask hbaseline
    | clear log p clears =>
      cases clears with
      | true =>
        rw [if_pos rfl, recover_snoc] at he
        cases he
      | false =>
        rw [if_neg (by decide), recover_snoc] at he
        exact h.payload e writer he hetask hbaseline
    | restore w fate id =>
      rcases payload_evidence he with heq | he
      · obtain ⟨rfl, -⟩ := Prod.mk.inj heq
        exact hrestored id hetask hbaseline
      · rw [recover_snoc] at he
        exact h.payload e writer he hetask hbaseline
  · intro p' e hp' he hetask hbaseline
    cases heffect with
    | proceed log p | refuse log p | accept log p =>
      cases hp'
      exact Or.inl (hrest p e rfl htidy he hetask hbaseline)
    | abort log p fate hraised =>
      cases hp'
      exact Or.inl (hrest p e rfl (htidy hraised) he hetask hbaseline)
    | keep log p captured fate e' hstage =>
      cases hp'
      rcases h.evidence p e rfl he hetask hbaseline with hcounted | ⟨t, ht, -⟩
      · exact Or.inl hcounted
      · cases hstage.symm.trans ht
    | rebuild log p captured fate newTask hstage =>
      cases hp'
      cases he
      obtain rfl : newTask = true := (available_of_behind hbaseline).1
      rw [behind_taskId] at hetask
      exact absurd hetask (h.new p rfl hstage)
    | install log p guarded fate e' hstage hevidence =>
      cases hp'
      rcases h.evidence p e rfl he hetask hbaseline with hcounted | ⟨t, ht, -⟩
      · exact Or.inl hcounted
      · cases hstage.symm.trans ht
    | toolCall log p t hstage =>
      cases hp'
      rcases h.evidence p e rfl he hetask hbaseline with hcounted | ⟨t', ht', -, hcounted⟩
      · exact Or.inl hcounted
      · obtain rfl := Stage.turn.inj (hstage.symm.trans ht')
        exact Or.inr ⟨_, rfl, rfl, hcounted⟩
    | effect log p t paths relevant hstage hdispatched =>
      cases hp'
      rcases h.evidence p e rfl he hetask hbaseline with hcounted | ⟨t', ht', -, hcounted⟩
      · exact Or.inl hcounted
      · obtain rfl := Stage.turn.inj (hstage.symm.trans ht')
        exact Or.inr ⟨_, rfl, hdispatched, Ledger.le_trans hcounted (Ledger.le_noteEdit _ _ _)⟩
    | persist log p fate t e' hstage hdispatched hevidence =>
      obtain rfl := Option.some.inj hp'
      obtain rfl := Option.some.inj he
      rw [behind_taskId] at hetask
      rw [behind_ledger]
      have hclaim := (available_of_behind hbaseline).1
      exact Or.inl (hmerged log p t e' rfl hstage hevidence hetask hclaim)
    | uncleared log p =>
      obtain rfl := Option.some.inj hp'
      exact h.evidence p e rfl he hetask hbaseline
    | clear log p | reopen =>
      obtain rfl := Option.some.inj hp'
      cases he
    | close => cases hp'
    | restore w fate id =>
      obtain rfl := Option.some.inj hp'
      obtain rfl := Option.some.inj he
      rw [behind_taskId] at hetask
      rw [behind_ledger]
      exact Or.inl (hrestored id hetask (available_of_behind hbaseline).1)

end AlysisCode.TaskEvidence

/-! ### Restarts

What the evidence of a task is worth over turns, failures and restarts.

A run is cut in two anywhere: what was counted at the cut is compared with what is counted at
the end, and a record that is lost at the cut with what is claimed at the end.
-/

namespace AlysisCode.TaskEvidence

open Runs

variable {S : Type} {session : Session S}

/-- What survives from a cut of a run to its end. -/
structure Survives (session : Session S) (before rest : List (Op S)) (w w' : World S) :
    Prop where
  /-- No counter of a task decreases, and no path is forgotten. -/
  counts : ∀ task counted counted', task ≠ "" → current w = some (task, counted) →
    current w' = some (task, counted') → counted ≤ counted'
  /-- Who resumes with a claim has the baseline its task began with, and every edit. -/
  resumed : ∀ front taskFate fate p e, rest = front ++ [.restart taskFate fate] →
    w'.live = some p → p.evidence = some e → e.baselineAvailable = true →
    Began session (before ++ rest) e.taskId e.snapshot ∧
      ∀ counted, current w = some (e.taskId, counted) → counted ≤ e.ledger
  /-- A lost edit record ends the claims, in evidence and in contracts. -/
  forfeited : ∀ rest' p p', rest = .persist .lost :: rest' → w.live = some p → p.taskId ≠ "" →
    w'.live = some p' →
    (∀ e, p'.evidence = some e → e.taskId = p.taskId → e.baselineAvailable = false) ∧
      ∀ t, p'.stage = .turn t → p'.taskId = p.taskId → t.contract ≠ some true

section Cut

variable {before rest : List (Op S)} {w w' : World S}
  (h : Run (Step session) World.start before w) (h' : Run (Step session) w rest w')

include h h'

variable {task : String} {counted : Ledger} {p : Process S}

theorem counts_of_careful
    (hcareful : Throughout (Step session) w (fun _ w op => Careful session w op) rest)
    {counted' : Ledger} (htask : task ≠ "") (hcounted : current w = some (task, counted))
    (hcounted' : current w' = some (task, counted')) : counted ≤ counted' := by
  have hkept := h'.throughout (C := fun _ w op => Careful session w op)
    (I := fun _ w => (∀ p, w.live = some p → Sound w.log p) ∧ Kept session task counted w)
    ⟨sound_of_run h, .of_current (sound_of_run h) htask hcounted⟩ (by
      intro _ m op m' _ hm hcareful hstep
      obtain ⟨heffect, hsound⟩ := sound_of_step hm.1 hstep
      exact ⟨hsound, hm.2.step htask hm.1 hcareful heffect⟩) hcareful
  exact hkept.2.counts counted' hcounted'

theorem covered_of_tidy (htidy : Throughout (Step session) w (fun _ w op => Tidy w op) rest)
    (htask : task ≠ "") (hcounted : current w = some (task, counted)) :
    Covered task counted w' := by
  have hcovered := h'.throughout (C := fun _ w op => Tidy w op)
    (I := fun _ w => (∀ p, w.live = some p → Sound w.log p) ∧ Covered task counted w)
    ⟨sound_of_run h, .of_current (sound_of_run h) htask hcounted⟩ (by
      intro _ m op m' _ hm htidy hstep
      obtain ⟨heffect, hsound⟩ := sound_of_step hm.1 hstep
      exact ⟨hsound, hm.2.step hm.1 htidy heffect⟩) htidy
  exact hcovered.2

/-- Nobody resumes with a claim that is not covered. -/
theorem resumed_of_tidy (htidy : Throughout (Step session) w (fun _ w op => Tidy w op) rest)
    {front : List (Op S)} {taskFate fate : Fate} (hrest : rest = front ++ [.restart taskFate fate])
    {e : TaskEvidenceState S} (hp : w'.live = some p) (he : p.evidence = some e)
    (hbaseline : e.baselineAvailable = true) :
    Began session (before ++ rest) e.taskId e.snapshot ∧
      ∀ counted, current w = some (e.taskId, counted) → counted ≤ e.ledger := by
  have hnamed : e.taskId ≠ "" ∧ p.stage = .idle := by
    subst hrest
    obtain ⟨m, hm, hstep⟩ := h'.last
    have heffect := (sound_of_step (sound_of_run (h.append hm)) hstep).1
    cases heffect with
    | close => cases hp
    | reopen =>
      cases hp
      cases he
    | restore _ _ id _ hid =>
      cases hp
      cases he
      rw [behind_taskId, restoredState_taskId]
      exact ⟨hid, rfl⟩
  refine ⟨began_of_run (h.append h') e (.evidence hp he) hbaseline, fun counted hcounted => ?_⟩
  have hcovered := covered_of_tidy h h' htidy hnamed.1 hcounted
  rcases hcovered.evidence p e hp he rfl hbaseline with hle | ⟨t, ht, -⟩
  · exact hle
  · cases hnamed.2.symm.trans ht

theorem unclaimed_of_lost {rest' : List (Op S)} (hrest : rest = .persist .lost :: rest')
    {p' : Process S} (hp : w.live = some p) (htask : p.taskId ≠ "") (hp' : w'.live = some p') :
    (∀ e, p'.evidence = some e → e.taskId = p.taskId → e.baselineAvailable = false) ∧
      ∀ t, p'.stage = .turn t → p'.taskId = p.taskId → t.contract ≠ some true := by
  subst hrest
  have hforfeited := forfeited_of_run h hp htask h'
  refine ⟨fun e he hetask => hforfeited.unclaimed e (.evidence hp' he) hetask, ?_⟩
  intro t ht htask' hclaim
  obtain ⟨e, he, hetask, hcontract⟩ := (sound_of_run (h.append h') p' hp').evident.turn t ht
  have hnone := hforfeited.unclaimed e (.evidence hp' he) (hetask.trans htask')
  rw [hcontract hclaim] at hnone
  cases hnone

/-- **Authority survives restarts, if turns are tidy and no process ends ahead of its log.** -/
theorem survives_of_careful (hcareful : Throughout (Step session) World.start
    (fun _ w op => Careful session w op) (before ++ rest)) :
    Survives session before rest w w' := by
  have hrest := hcareful.after h
  have htidy : Throughout (Step session) w (fun _ w op => Tidy w op) rest :=
    fun first op rest' m heq hrun => (hrest first op rest' m heq hrun).1
  exact {
    counts := fun _ _ _ htask hcounted hcounted' =>
      counts_of_careful h h' hrest htask hcounted hcounted'
    resumed := fun _ _ _ _ _ heq hp he hbaseline =>
      resumed_of_tidy h h' htidy heq hp he hbaseline
    forfeited := fun _ _ _ heq hp htask hp' => unclaimed_of_lost h h' heq hp htask hp' }

end Cut

/-! ### Two runs -/

def desk : Session Unit where
  sessionId := "S"
  named := by decide
  root := "/w"
  blank := ()

/-- A task is begun, and one tool edits the checker. -/
def editing : List (Op Unit) :=
  [.accept "T" .ok, .begin () .ok, .install true .ok, .toolCall .ok, .effect {"check.py"} true]

def edited : Ledger where
  materialEditCount := 1
  materialEditGeneration := 1
  verificationRelevantEditGeneration := 1
  touchedRepoPaths := {"check.py"}

def behindEdit (claims : Bool) (log : List (Event Unit)) : World Unit where
  log := [.task (some "T"), .evidence ⟨"T", "/w", (), true, {}⟩ "S", .toolCall] ++ log
  live := some
    { taskId := "T"
      evidence := some ⟨"T", "/w", (), claims, edited⟩
      stage := .turn { ledger := edited, contract := some claims } }

def resumedWith (claims : Bool) (ledger : Ledger) (log : List (Event Unit)) : World Unit where
  log := [.task (some "T"), .evidence ⟨"T", "/w", (), true, {}⟩ "S", .toolCall] ++ log ++
    [.task (some "T"), .evidence ⟨"T", "/w", (), claims, ledger⟩ "S"]
  live := some { taskId := "T", evidence := some ⟨"T", "/w", (), claims, ledger⟩ }

/-- The record of the edit is in the log when the process ends. -/
theorem survives_recorded :
    Survives desk (editing ++ [.persist .ok]) [.restart .ok .ok]
      (behindEdit true [.evidence ⟨"T", "/w", (), true, edited⟩ "S"])
      (resumedWith true edited [.evidence ⟨"T", "/w", (), true, edited⟩ "S"]) := by
  refine survives_of_careful (run_of_play (fun _ _ _ h => h) (by decide +kernel))
    (run_of_play (fun _ _ _ h => h) (by decide +kernel)) ?_
  have hexec : ∀ w op w', Step desk w op w' → exec desk w op = some w' := fun _ _ _ h => h
  have hchecked : Throughout (Step desk) World.start
      (fun _ w op => decide (Careful desk w op) = true)
      (editing ++ [.persist .ok] ++ [.restart .ok .ok]) :=
    throughout_of_allSteps hexec (by decide +kernel)
  exact fun first op rest m heq hrun => of_decide_eq_true (hchecked first op rest m heq hrun)

/-- The record of the edit is lost and the process ends: the generation is counted again. -/
theorem recycled_generation :
    Run (Step desk) World.start (editing ++ [.persist .lost]) (behindEdit false []) ∧
      Run (Step desk) (behindEdit false []) [.restart .ok .ok] (resumedWith false {} []) ∧
      current (behindEdit false []) = some ("T", edited) ∧
      current (resumedWith false {} []) = some ("T", {}) ∧ ¬edited ≤ {} :=
  ⟨run_of_play (fun _ _ _ h => h) (by decide +kernel),
    run_of_play (fun _ _ _ h => h) (by decide +kernel), by decide +kernel, by decide +kernel,
    by decide +kernel⟩

end AlysisCode.TaskEvidence
