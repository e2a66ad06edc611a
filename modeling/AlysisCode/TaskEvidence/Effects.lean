/-
What an operation on a session can do to its log and its process.

Every invariant below is proved of these effects, and of nothing else.
-/
import AlysisCode.TaskEvidence.Basic

namespace AlysisCode.TaskEvidence

variable {S : Type} {session : Session S}

/-! ### Reading a longer log -/

theorem recover_snoc (log : List (Event S)) (event : Event S) :
    recover (log ++ [event]) = (recover log).read event := by
  simp [recover, List.foldl_append]

variable (fate : Fate) (e : TaskEvidenceState S)

theorem recover_append (log : List (Event S)) (event : Event S) : recover (append fate log event) =
      if fate.written then (recover log).read event else recover log := by
  unfold append
  by_cases h : fate.written = true
  · rw [if_pos h, if_pos h, recover_snoc]
  · rw [if_neg h, if_neg h]

def Used (id : String) (log : List (Event S)) : Prop := .task (some id) ∈ log

theorem fresh_iff {id : String} {log : List (Event S)} :
    fresh id log = true ↔ id ≠ "" ∧ ¬Used id log := by
  unfold fresh Used
  rw [Bool.and_eq_true, List.all_eq_true, decide_eq_true_iff]
  refine and_congr_right fun _ => ?_
  constructor
  · intro h hmem
    simpa using h _ hmem
  · intro h event hevent
    cases event with
    | task id' =>
      cases id' with
      | none => rfl
      | some id' =>
        have hne : id' ≠ id := by
          intro heq
          exact h (heq ▸ hevent)
        simpa using hne
    | evidence | toolCall | boundary => rfl

theorem Used.append {id : String} {log : List (Event S)} (h : Used id log) (fate : Fate)
    (event : Event S) : Used id (append fate log event) := by
  unfold TaskEvidence.append
  split
  · exact List.mem_append_left _ h
  · exact h

/-! ### Operations -/

def begun (session : Session S) (newTask : Bool) (captured : S) (p : Process S) :
    TaskEvidenceState S where
  taskId := p.taskId
  workspaceRoot := session.root
  snapshot := if newTask then captured else session.blank
  baselineAvailable := newTask

def behind : TaskEvidenceState S :=
  if fate.raised then { e with baselineAvailable := false } else e

@[simp] theorem behind_taskId : (behind fate e).taskId = e.taskId := by
  unfold behind
  split <;> rfl

@[simp] theorem behind_ledger : (behind fate e).ledger = e.ledger := by
  unfold behind
  split <;> rfl

@[simp] theorem behind_snapshot : (behind fate e).snapshot = e.snapshot := by
  unfold behind
  split <;> rfl

theorem available_of_behind {fate : Fate} {e : TaskEvidenceState S}
    (h : (behind fate e).baselineAvailable = true) :
    e.baselineAvailable = true ∧ fate.raised = false := by
  unfold behind at h
  split at h
  · cases h
  · rename_i hfate
    exact ⟨h, by simpa using hfate⟩

/-- Everything an operation can do to a session whose turn has evidence. -/
inductive Effect (session : Session S) : World S → Op S → World S → Prop
  | proceed (log : List (Event S)) (p : Process S) :
      Effect session ⟨log, some p⟩ .proceed ⟨log, some { p with stage := .accepted false }⟩
  | refuse (log : List (Event S)) (p : Process S) (id : String) (fate : Fate)
      (hid : id ≠ "" ∧ ¬Used id log) :
      Effect session ⟨log, some p⟩ (.accept id fate)
        ⟨append fate log (.task (some id)), some { p with stage := .idle }⟩
  | accept (log : List (Event S)) (p : Process S) (id : String) (hid : id ≠ "" ∧ ¬Used id log) :
      Effect session ⟨log, some p⟩ (.accept id .ok)
        ⟨log ++ [.task (some id)], some { p with taskId := id, stage := .accepted true }⟩
  | keep (log : List (Event S)) (p : Process S) (captured : S) (fate : Fate)
      (e : TaskEvidenceState S) (hstage : p.stage = .accepted false)
      (hevidence : p.evidence = some e) (htask : e.taskId = p.taskId) :
      Effect session ⟨log, some p⟩ (.begin captured fate) ⟨log, some { p with stage := .begun }⟩
  | rebuild (log : List (Event S)) (p : Process S) (captured : S) (fate : Fate) (newTask : Bool)
      (hstage : p.stage = .accepted newTask)
      (hother : newTask = true ∨ ∀ e, p.evidence = some e → e.taskId ≠ p.taskId) :
      Effect session ⟨log, some p⟩ (.begin captured fate)
        ⟨append fate log (.evidence (begun session newTask captured p) session.sessionId),
          some { p with
            evidence := some (behind fate (begun session newTask captured p))
            stage := .begun }⟩
  | install (log : List (Event S)) (p : Process S) (guarded : Bool) (fate : Fate)
      (e : TaskEvidenceState S) (hstage : p.stage = .begun) (hevidence : p.evidence = some e) :
      Effect session ⟨log, some p⟩ (.install guarded fate) ⟨log, some { p with stage := .turn {
          ledger := e.ledger
          contract := if guarded then some e.baselineAvailable else none } }⟩
  | abort (log : List (Event S)) (p : Process S) (fate : Fate) (hraised : fate.raised = true) :
      Effect session ⟨log, some p⟩ (.toolCall fate)
        ⟨append fate log .toolCall, some { p with stage := .idle }⟩
  | toolCall (log : List (Event S)) (p : Process S) (t : Turn) (hstage : p.stage = .turn t) :
      Effect session ⟨log, some p⟩ (.toolCall .ok)
        ⟨log ++ [.toolCall], some { p with stage := .turn { t with dispatched := true } }⟩
  | effect (log : List (Event S)) (p : Process S) (t : Turn) (paths : Finset String)
      (relevant : Bool) (hstage : p.stage = .turn t) (hdispatched : t.dispatched = true) :
      Effect session ⟨log, some p⟩ (.effect paths relevant) ⟨log, some { p with
          stage := .turn { t with ledger := t.ledger.noteEdit paths relevant } }⟩
  | persist (log : List (Event S)) (p : Process S) (fate : Fate) (t : Turn)
      (e : TaskEvidenceState S) (hstage : p.stage = .turn t) (hdispatched : t.dispatched = true)
      (hevidence : p.evidence = some e) :
      Effect session ⟨log, some p⟩ (.persist fate) ⟨append fate log
          (.evidence { e with ledger := e.ledger.merge t.ledger } session.sessionId),
          some { p with
            evidence := some (behind fate { e with ledger := e.ledger.merge t.ledger })
            stage := .turn { t with
              contract := if fate.raised then t.contract.map fun _ => false else t.contract
              dispatched := false } }⟩
  | uncleared (log : List (Event S)) (p : Process S) (fate : Fate) (clears : Bool) :
      Effect session ⟨log, some p⟩ (.clear fate clears) ⟨append fate log (.task none), some p⟩
  | clear (log : List (Event S)) (p : Process S) (clears : Bool) :
      Effect session ⟨log, some p⟩ (.clear .ok clears)
        ⟨if clears then log ++ [.task none] ++ [.boundary] else log ++ [.task none], some {}⟩
  | close (w : World S) (taskFate fate : Fate) : Effect session w (.restart taskFate fate)
        ⟨append taskFate w.log (.task (recover w.log).task), none⟩
  | reopen (w : World S) (fate : Fate) (id : Option String)
      (htask : (recover w.log).task = id) (hnone : id = none ∨ id = some "") :
      Effect session w (.restart .ok fate) ⟨w.log ++ [.task id], some {}⟩
  | restore (w : World S) (fate : Fate) (id : String) (htask : (recover w.log).task = some id)
      (hid : id ≠ "") :
      Effect session w (.restart .ok fate) ⟨append fate (w.log ++ [.task (some id)]) (.evidence
            (restoredState session id (recover w.log).payload session.sessionId)
            session.sessionId),
          some {
            taskId := id
            evidence := some (behind fate
              (restoredState session id (recover w.log).payload session.sessionId)) }⟩

structure Evident (p : Process S) : Prop where
  begun : p.stage = .begun → ∃ e, p.evidence = some e ∧ e.taskId = p.taskId
  turn : ∀ t, p.stage = .turn t → ∃ e, p.evidence = some e ∧ e.taskId = p.taskId ∧
    (t.contract = some true → e.baselineAvailable = true)

theorem ok_of_raised {fate : Fate} (h : ¬fate.raised = true) : fate = .ok := by
  cases fate with
  | ok => rfl
  | lost | late => exact absurd rfl h

theorem Effect.of_execLive {log : List (Event S)} {p : Process S} {w' : World S} {op : Op S}
    (hp : Evident p) (h : execLive session op log p = some w') :
    Effect session ⟨log, some p⟩ op w' := by
  cases op with
  | proceed =>
    cases h
    exact .proceed log p
  | accept id fate =>
    simp only [execLive] at h
    split at h
    · rename_i hfresh
      cases h
      by_cases hraised : fate.raised = true
      · rw [if_pos hraised]
        exact .refuse log p id fate (fresh_iff.mp hfresh)
      · obtain rfl := ok_of_raised hraised
        exact .accept log p id (fresh_iff.mp hfresh)
    · cases h
  | begin captured fate =>
    simp only [execLive] at h
    split at h
    · rename_i newTask hstage
      cases h
      unfold beginTaskEvidence
      cases hevidence : p.evidence with
      | none =>
        apply Effect.rebuild log p captured fate newTask hstage
        right
        intro e he
        rw [hevidence] at he
        cases he
      | some e =>
        dsimp only
        by_cases hnew : (newTask || decide (e.taskId ≠ p.taskId)) = true
        · rw [if_pos hnew]
          apply Effect.rebuild log p captured fate newTask hstage
          rw [Bool.or_eq_true, decide_eq_true_iff] at hnew
          refine hnew.imp_right fun hne e' he' => ?_
          rw [hevidence] at he'
          rwa [← Option.some.inj he']
        · rw [if_neg hnew]
          simp only [ne_eq, Bool.or_eq_true, decide_eq_true_eq, not_or, not_not] at hnew
          have hfalse : newTask = false := by simpa using hnew.1
          have hkeep : ({ p with evidence := some e, stage := .begun } : Process S) =
              { p with stage := .begun } := by rw [← hevidence]
          rw [hkeep]
          exact .keep log p captured fate e (hfalse ▸ hstage) hevidence hnew.2
    · cases h
  | install guarded fate =>
    simp only [execLive] at h
    split at h
    · rename_i e hstage hevidence
      obtain ⟨e', he', htask⟩ := hp.begun hstage
      rw [hevidence] at he'
      cases he'
      have hcurrent : beginTaskEvidence session false session.blank fate p log = (e, log) := by
        unfold beginTaskEvidence
        rw [hevidence]
        simp [htask]
      rw [hcurrent] at h
      have hsame (stage : Stage) : ({ p with evidence := some e, stage := stage } : Process S) =
          { p with stage := stage } := by rw [← hevidence]
      have heffect : Effect session _ _ _ := Effect.install log p guarded fate e hstage hevidence
      cases guarded with
      | true =>
        rw [if_pos rfl, hsame] at h
        exact Option.some.inj h ▸ heffect
      | false =>
        rw [if_neg (by decide)] at h
        exact Option.some.inj h ▸ heffect
    · cases h
  | toolCall fate =>
    simp only [execLive] at h
    split at h
    · rename_i t hstage
      cases h
      by_cases hraised : fate.raised = true
      · rw [if_pos hraised]
        exact .abort log p fate hraised
      · obtain rfl := ok_of_raised hraised
        exact .toolCall log p t hstage
    · cases h
  | effect paths relevant =>
    simp only [execLive] at h
    split at h
    · rename_i t hstage
      split at h
      · rename_i hdispatched
        cases h
        exact .effect log p t paths relevant hstage hdispatched
      · cases h
    · cases h
  | persist fate =>
    simp only [execLive] at h
    split at h
    · rename_i t hstage
      split at h
      · rename_i hdispatched
        obtain ⟨e, he, -⟩ := hp.turn t hstage
        cases h
        unfold persistTaskEvidence
        rw [he]
        exact .persist log p fate t e hstage hdispatched he
      · cases h
    · cases h
  | clear fate clears =>
    simp only [execLive] at h
    split at h
    · cases h
      exact .uncleared log p fate clears
    · rename_i hraised
      obtain rfl := ok_of_raised hraised
      cases h
      exact .clear log p clears
  | restart => cases h

theorem Effect.of_step {w w' : World S} {op : Op S} (hw : ∀ p, w.live = some p → Evident p)
    (h : Step session w op w') : Effect session w op w' := by
  obtain ⟨log, live⟩ := w
  unfold Step exec at h
  cases op with
  | restart taskFate fate =>
    cases h
    unfold restoreSessionTaskState
    by_cases hraised : taskFate.raised = true
    · rw [if_pos hraised]
      exact .close ⟨log, live⟩ taskFate fate
    · obtain rfl := ok_of_raised hraised
      rw [if_neg hraised]
      unfold restoreTaskEvidence
      generalize htask : (recover log).task = id
      cases id with
      | none => exact .reopen ⟨log, live⟩ fate none htask (.inl rfl)
      | some id =>
        by_cases hid : id = ""
        · dsimp only
          rw [if_pos hid]
          exact .reopen ⟨log, live⟩ fate (some id) htask (.inr (congrArg some hid))
        · dsimp only
          rw [if_neg hid]
          exact .restore ⟨log, live⟩ fate id htask hid
  | proceed | accept | begin | install | toolCall | effect | persist | clear =>
    cases live with
    | none => cases h
    | some p => exact .of_execLive (hw p rfl) h

end AlysisCode.TaskEvidence
