/-
Runs of the checkpoint manager for one task and acceptance revision.

A run is a sequence of calls of `consider` and of restarts of the host process, each with
whatever the operating system did meanwhile.  A restart keeps the files and the checkpoint of
the last event that was recorded.  The trace says of each call whether its candidate was
evaluated, and of each restart whether it came back with nothing.

The budget is kept because host and budget file between them cover the evaluations: a candidate
is let through only where the host's attempts are few, and then they are all in the file.
-/
import AlysisCode.Checkpoint.Promotion

namespace AlysisCode.Checkpoint

open Runs

variable {F S B D M : Type} [Json.Floats F] [LinearOrder S] [DecidableEq D]

/-! ### The machine -/

/-- The host process, the files, and the checkpoint of the last recorded event. -/
structure System (S B D : Type) where
  host : State S D := {}
  disk : Disk S B D := {}
  acknowledged : Option (Best S D) := none

variable (host : Host F S B D M) (settings : Settings)

/-- A worker gets past the budget file. -/
def passes (call : Call F) (w : Weather B M) (s : State S D) : Bool :=
  match gate host settings call s, w.budgetWrite with
  | .ok _, .works => true
  | _, _ => false

def evaluates (call : Call F) (w : Weather B M) (s : State S D) : Bool :=
  !s.declines settings call && !call.expired && w.launched && passes host settings call w s

def acknowledge (recorded : Bool) (event : Option (Event S D)) (before : Option (Best S D)) :
    Option (Best S D) :=
  match recorded, event with
  | true, some ⟨.verifiedCheckpointPreserved, some best⟩ => some best
  | _, _ => before

inductive Entry (F S B D M : Type) where
  | considered (call : Call F) (w : Weather B M) (evaluated : Bool) (event : Option (Event S D))
  | restarted (recovery : Recovery) (empty : Bool)

def Entry.evaluation : Entry F S B D M → Option Int
  | .considered call _ true _ => some call.generation
  | _ => none

def Entry.startsAfresh : Entry F S B D M → Bool
  | .restarted _ empty => empty
  | _ => false

/-- The host has no checkpoint and no attempts. -/
def State.isEmpty (s : State S D) : Bool := s.best.isNone && s.attempted.isEmpty

/-- The host process after a restart. -/
def System.resumed (host : Host F S B D M) (settings : Settings) (taskId revision : String)
    (recovery : Recovery) (sys : System S B D) : State S D :=
  selectTask host settings recovery taskId revision sys.acknowledged {} sys.disk

/-- One call of `consider`, or a restart, for the task and the revision. -/
inductive Step (host : Host F S B D M) (settings : Settings) (taskId revision : String) :
    System S B D → Entry F S B D M → System S B D → Prop
  | consider {sys : System S B D} (call : Call F) (w : Weather B M) (recorded : Bool)
      (htask : call.taskId = taskId) (hrevision : call.acceptanceRevision = revision) :
      Step host settings taskId revision sys
        (.considered call w (evaluates host settings call w sys.host)
          (consider host settings call w sys.host sys.disk).2.2)
        { host := (consider host settings call w sys.host sys.disk).1
          disk := (consider host settings call w sys.host sys.disk).2.1
          acknowledged := acknowledge recorded
            (consider host settings call w sys.host sys.disk).2.2 sys.acknowledged }
  | restart {sys : System S B D} (recovery : Recovery) : Step host settings taskId revision sys
        (.restarted recovery (sys.resumed host settings taskId revision recovery).isEmpty)
        { sys with host := sys.resumed host settings taskId revision recovery }

/-- The generations that were evaluated since the last restart that came back with nothing. -/
def evaluations (trace : List (Entry F S B D M)) : List Int :=
  (since Entry.startsAfresh trace).filterMap Entry.evaluation

/-- The checkpoint is one of a candidate of the run. -/
def Earned (trace : List (Entry F S B D M)) (disk : Disk S B D) (best : Best S D) : Prop :=
  ∃ call w evaluated event, Entry.considered call w evaluated event ∈ trace ∧
    Genuine host settings call w disk best

/-! ### One call -/

def State.Ready (s : State S D) (taskId revision : String) : Prop :=
  (s.taskId = taskId ∧ s.acceptanceRevision = revision) ∨ (s.best = none ∧ s.attempted = [])

omit [LinearOrder S] [DecidableEq D] in
theorem State.Ready.select {s : State S D} {taskId revision : String}
    (h : s.Ready taskId revision) :
    (s.select taskId revision).taskId = taskId ∧
      (s.select taskId revision).acceptanceRevision = revision ∧
      (s.select taskId revision).best = s.best ∧
      (s.select taskId revision).attempted = s.attempted := by
  unfold State.select
  split
  · rename_i hsame
    exact ⟨hsame.1.symm, hsame.2.symm, rfl, rfl⟩
  · rename_i hother
    obtain ⟨htask, hrevision⟩ | ⟨hbest, hattempted⟩ := h
    · exact absurd ⟨htask.symm, hrevision.symm⟩ hother
    · exact ⟨rfl, rfl, hbest.symm, hattempted.symm⟩

/-- The attempts cover the generations, or leave no room for another. -/
def State.Covers (taskId : String) (generations : List Int) (s : State S D) : Prop :=
  (∀ generation ∈ generations, (taskId, generation) ∈ s.attempted) ∨
    settings.maxCandidates ≤ s.attempted.length

omit [LinearOrder S] [DecidableEq D] in
theorem State.Covers.mono {settings : Settings} {taskId : String} {generations : List Int}
    {s s' : State S D} (h : s.Covers settings taskId generations)
    (hsub : s.attempted.Sublist s'.attempted) : s'.Covers settings taskId generations := by
  obtain hall | hfull := h
  · exact .inl fun generation hg => hsub.subset (hall generation hg)
  · exact .inr (Nat.le_trans hfull hsub.length_le)

/-- What a call of `consider` can do to the host and to the files. -/
structure Considered (host : Host F S B D M) (settings : Settings) (call : Call F)
    (w : Weather B M) (s : State S D) (disk : Disk S B D)
    (result : State S D × Disk S B D × Option (Event S D)) : Prop where
  ready : result.1.Ready call.taskId call.acceptanceRevision
  archives : Persists disk result.2.1
  budgets : result.2.1.budgets = disk.budgets ∧ evaluates host settings call w s = false ∨
    call.attempt ∉ s.attempted ∧ s.attempted.length < settings.maxCandidates ∧
      result.2.1.budgets = ((call.taskId, call.acceptanceRevision), ⟨call.taskId,
        call.acceptanceRevision, (s.attempted ++ [call.attempt]).map (·.2)⟩) :: disk.budgets
  attempted : s.attempted.Sublist result.1.attempted ∧
      (evaluates host settings call w s = true → call.attempt ∈ result.1.attempted) ∨
    settings.maxCandidates ≤ result.1.attempted.length
  best : (result.1.best = s.best ∧ ∀ e ∈ result.2.2, e.status ≠ .verifiedCheckpointPreserved) ∨
    ∃ new, result.1.best = some new ∧ result.2.2 = some ⟨.verifiedCheckpointPreserved, some new⟩ ∧
      evaluates host settings call w s = true ∧ w.answered = true ∧
      Beats settings new s.best ∧ Genuine host settings call w result.2.1 new

section Call

variable {host : Host F S B D M} {settings : Settings} {call : Call F} {w : Weather B M}
  {s : State S D} {disk : Disk S B D}

omit [Json.Floats F] [LinearOrder S] [DecidableEq D] in
theorem State.Ready.afterFailure (settings : Settings)
    (h : s.Ready call.taskId call.acceptanceRevision) :
    (s.afterFailure settings call).Ready call.taskId call.acceptanceRevision ∧
      (s.afterFailure settings call).best = s.best ∧
      (s.attempted.Sublist (s.afterFailure settings call).attempted ∧
          call.attempt ∈ (s.afterFailure settings call).attempted ∨
        settings.maxCandidates ≤ (s.afterFailure settings call).attempted.length) := by
  unfold State.afterFailure
  by_cases hsame : s.sameTask call = true
  · have hids : call.taskId = s.taskId ∧ call.acceptanceRevision = s.acceptanceRevision := by
      simpa [State.sameTask] using hsame
    rw [if_pos hsame]
    dsimp only
    split
    · rename_i hcontains
      exact ⟨h, rfl, .inl ⟨List.Sublist.refl _, by simpa using hcontains⟩⟩
    · exact ⟨.inl ⟨hids.1.symm, hids.2.symm⟩, rfl, Or.inl ⟨List.sublist_append_left _ _, by simp⟩⟩
  · obtain ⟨hbest, -⟩ : s.best = none ∧ s.attempted = [] := by
      obtain ⟨htask, hrevision⟩ | hempty := h
      · exact absurd (by simp [State.sameTask, htask, hrevision]) hsame
      · exact hempty
    have hall : settings.maxCandidates ≤ (allAttempts settings call.taskId).length := by
      simp [allAttempts]
    rw [if_neg hsame]
    dsimp only
    split
    · exact ⟨.inl ⟨rfl, rfl⟩, hbest.symm, .inr hall⟩
    · refine ⟨.inl ⟨rfl, rfl⟩, hbest.symm, .inr ?_⟩
      rw [List.length_append]
      omega

omit [LinearOrder S] [DecidableEq D] in
theorem not_passes_of_gate {worker : Worker S D}
    (h : gate host settings call s = .error worker) : passes host settings call w s = false := by
  unfold passes
  rw [h]

omit [LinearOrder S] [DecidableEq D] in
theorem not_passes_of_budgetWrite {fate : Fate} (hfate : w.budgetWrite = fate)
    (hne : fate ≠ .works) : passes host settings call w s = false := by
  unfold passes
  rw [hfate]
  cases fate with
  | works => exact absurd rfl hne
  | raises | killed => split <;> simp_all

structure Answered (host : Host F S B D M) (settings : Settings) (call : Call F)
    (w : Weather B M) (s : State S D) (disk : Disk S B D) (result : Disk S B D × Worker S D) :
    Prop where
  archives : Persists disk result.1
  budgets : result.1.budgets = disk.budgets ∧ passes host settings call w s = false ∨
    call.attempt ∉ s.attempted ∧ s.attempted.length < settings.maxCandidates ∧
      result.1.budgets = ((call.taskId, call.acceptanceRevision), ⟨call.taskId,
        call.acceptanceRevision, (s.attempted ++ [call.attempt]).map (·.2)⟩) :: disk.budgets
  state : ∀ s' event, result.2 = .answers s' event →
    s'.Ready call.taskId call.acceptanceRevision ∧ s.attempted.Sublist s'.attempted ∧
      (passes host settings call w s = true → call.attempt ∈ s'.attempted)
  best : ∀ s' event, result.2 = .answers s' event →
    (s'.best = s.best ∧ ∀ e ∈ event, e.status ≠ .verifiedCheckpointPreserved) ∨
      ∃ new, s'.best = some new ∧ event = some ⟨.verifiedCheckpointPreserved, some new⟩ ∧
        passes host settings call w s = true ∧ Beats settings new s.best ∧
        Genuine host settings call w result.1 new

/-- **A worker keeps the budget, and replaces the best checkpoint only by a better one.** -/
theorem considerInline_answered (hdigest : Function.Injective host.digest)
    (h : s.Ready call.taskId call.acceptanceRevision) :
    Answered host settings call w s disk (considerInline host settings call w s disk) := by
  obtain ⟨htask, hrevision, hbest, hattempted⟩ := h.select
  unfold considerInline
  split
  · rename_i worker hgate
    have hnot := not_passes_of_gate (w := w) hgate
    refine ⟨Persists.refl disk, .inl ⟨rfl, hnot⟩, fun s' event hs' => ?_, fun s' event hs' => ?_⟩
    · obtain ⟨rfl, -⟩ := gate_error hgate hs'
      refine ⟨.inl ⟨htask, hrevision⟩, ?_, fun hpasses => ?_⟩
      · rw [hattempted]
      · rw [hnot] at hpasses
        cases hpasses
    · obtain ⟨rfl, hevent⟩ := gate_error hgate hs'
      exact .inl ⟨hbest, hevent⟩
  · rename_i opened score hgate
    obtain ⟨hmeasured, hfresh, hroom, hopened⟩ := gate_ok hgate
    rw [hattempted] at hfresh hroom
    have ho : opened.taskId = call.taskId ∧ opened.acceptanceRevision = call.acceptanceRevision ∧
        opened.best = s.best ∧ opened.attempted = s.attempted ++ [call.attempt] := by
      rw [hopened, ← hattempted]
      exact ⟨htask, hrevision, hbest, rfl⟩
    have hwritten : (disk.writeBudget opened).budgets = ((call.taskId, call.acceptanceRevision),
        ⟨call.taskId, call.acceptanceRevision, (s.attempted ++ [call.attempt]).map (·.2)⟩) ::
          disk.budgets := by
      unfold Disk.writeBudget
      rw [ho.1, ho.2.1, ho.2.2.2]
    have hstate : opened.Ready call.taskId call.acceptanceRevision ∧
        s.attempted.Sublist opened.attempted ∧
        (passes host settings call w s = true → call.attempt ∈ opened.attempted) := by
      rw [ho.2.2.2]
      exact ⟨.inl ⟨ho.1, ho.2.1⟩, List.sublist_append_left _ _, fun _ => by simp⟩
    split
    · rename_i effect hfate
      refine ⟨?_, ?_, fun _ _ hs' => (by cases hs'), fun _ _ hs' => (by cases hs')⟩
      · rw [hfate]
        cases effect <;> exact Persists.refl disk
      · rw [hfate]
        cases effect with
        | false => exact .inl ⟨rfl, not_passes_of_budgetWrite hfate (by simp)⟩
        | true => exact .inr ⟨hfresh, hroom, hwritten⟩
    · rename_i reason effect hfate
      refine ⟨?_, ?_, fun s' event hs' => ?_, fun s' event hs' => ?_⟩
      · rw [hfate]
        cases effect <;> exact Persists.refl disk
      · rw [hfate]
        cases effect with
        | false => exact .inl ⟨rfl, not_passes_of_budgetWrite hfate (by simp)⟩
        | true => exact .inr ⟨hfresh, hroom, hwritten⟩
      · obtain ⟨rfl, -⟩ := State.retains_answers hs'
        exact hstate
      · obtain ⟨rfl, rfl⟩ := State.retains_answers hs'
        refine .inl ⟨ho.2.2.1, fun e he => ?_⟩
        rw [← Option.some.inj he]
        simp
    · rename_i hfate
      rw [hfate]
      have hexamined : Examined host settings call w opened (disk.writeBudget opened)
          (examine host settings call w opened score (disk.writeBudget opened)) :=
        examine_examined hdigest ho.2.1 hmeasured
      obtain ⟨hbudgets, hdisk, hattempts, hpromoted⟩ := hexamined
      refine ⟨hdisk, .inr ⟨hfresh, hroom, hbudgets.trans hwritten⟩, fun s' event hs' => ?_,
        fun s' event hs' => ?_⟩
      · obtain ⟨hsame, hids⟩ := hattempts s' event hs'
        rw [hsame]
        exact ⟨.inl ⟨hids.1.trans ho.1, hids.2.trans ho.2.1⟩, hstate.2⟩
      · have hpasses : passes host settings call w s = true := by
          unfold passes
          rw [hgate, hfate]
        obtain ⟨hsame, hother⟩ | ⟨new, hset, hevent, hbeats, hgenuine⟩ := hpromoted s' event hs'
        · exact .inl ⟨hsame.trans ho.2.2.1, hother⟩
        · rw [ho.2.2.1] at hbeats
          exact .inr ⟨new, hset, hevent, hpasses, hbeats, hgenuine⟩

/-- **What a call of `consider` can do.** -/
theorem considered (hdigest : Function.Injective host.digest)
    (h : s.Ready call.taskId call.acceptanceRevision) :
    Considered host settings call w s disk (consider host settings call w s disk) := by
  unfold consider
  by_cases hdeclines : s.declines settings call = true
  · have hnot : evaluates host settings call w s = false := by simp [evaluates, hdeclines]
    rw [if_pos hdeclines]
    refine ⟨h, Persists.refl disk, .inl ⟨rfl, hnot⟩,
      Or.inl ⟨List.Sublist.refl _, fun heval => ?_⟩, .inl ⟨rfl, fun e he => by cases he⟩⟩
    rw [hnot] at heval
    cases heval
  rw [if_neg hdeclines]
  obtain ⟨hready, hbest, hattempted⟩ := h.afterFailure settings
  have hfailed {disk' : Disk S B D} {status : Status}
      (hstatus : status ≠ .verifiedCheckpointPreserved) (hdisk : Persists disk disk')
      (hbudgets : disk'.budgets = disk.budgets ∧ evaluates host settings call w s = false ∨
        call.attempt ∉ s.attempted ∧ s.attempted.length < settings.maxCandidates ∧
          disk'.budgets = ((call.taskId, call.acceptanceRevision), ⟨call.taskId,
            call.acceptanceRevision, (s.attempted ++ [call.attempt]).map (·.2)⟩) :: disk.budgets) :
      Considered host settings call w s disk (s.afterFailure settings call, disk',
        failureEvent (s.afterFailure settings call) status) := by
    refine ⟨hready, hdisk, hbudgets, ?_, .inl ⟨hbest, fun e he => ?_⟩⟩
    · exact hattempted.imp_left fun hs => ⟨hs.1, fun _ => hs.2⟩
    · rw [← Option.some.inj he]
      exact hstatus
  split
  · rename_i hidle
    refine hfailed (by simp) (Persists.refl disk) (.inl ⟨rfl, ?_⟩)
    rw [Bool.or_eq_true] at hidle
    obtain hexpired | hlaunched := hidle
    · simp [evaluates, hexpired]
    · rw [Bool.not_eq_true'] at hlaunched
      simp [evaluates, hlaunched]
  · rename_i hasked
    have heval : evaluates host settings call w s = passes host settings call w s := by
      rw [Bool.or_eq_true, not_or, Bool.not_eq_true, Bool.not_eq_true', Bool.not_eq_false] at hasked
      simp [evaluates, hdeclines, hasked.1, hasked.2]
    have hanswered : Answered host settings call w s disk
        (considerInline host settings call w s disk) := considerInline_answered hdigest h
    obtain ⟨hdisk, hbudgets, hstate, hpromoted⟩ := hanswered
    rw [← heval] at hbudgets hstate hpromoted
    split
    · rename_i disk' s' event hend
      rw [hend] at hdisk hbudgets hstate hpromoted
      split
      · rename_i hanswer
        obtain ⟨hready', hattempts⟩ := hstate s' event rfl
        refine ⟨hready', hdisk, hbudgets, .inl hattempts, ?_⟩
        obtain hsame | ⟨new, hset, hevent, hevaluated, hbeats, hgenuine⟩ := hpromoted s' event rfl
        · exact .inl hsame
        · exact .inr ⟨new, hset, hevent, hevaluated, hanswer, hbeats, hgenuine⟩
      · exact hfailed (by simp) hdisk hbudgets
    · rename_i disk' reason hend
      rw [hend] at hdisk hbudgets
      exact hfailed (by simp) hdisk hbudgets
    · rename_i disk' hend
      rw [hend] at hdisk hbudgets
      exact hfailed (by simp) hdisk hbudgets

end Call

/-! ### One restart -/

omit [Json.Floats F] [LinearOrder S] in
/-- What a new host process can come back with. -/
theorem resumed_spec (host : Host F S B D M) (settings : Settings) (taskId revision : String)
    (recovery : Recovery) (sys : System S B D) :
    let s := sys.resumed host settings taskId revision recovery
    s.Ready taskId revision ∧ (s.best = none ∨ s.best = sys.acknowledged) ∧
      (s.isEmpty = true ∨ settings.maxCandidates ≤ s.attempted.length ∨
        ∃ budget, sys.disk.budgets.lookup (taskId, revision) = some budget ∧
          (budget.taskId = taskId ∧ budget.acceptanceRevision = revision →
            ∀ generation ∈ budget.generations, (taskId, generation) ∈ s.attempted)) := by
  intro s
  have hall : settings.maxCandidates ≤ (allAttempts settings taskId).length := by
    simp [allAttempts]
  have hs : s = sys.resumed host settings taskId revision recovery := rfl
  unfold System.resumed selectTask at hs
  split at hs
  · rw [hs]
    exact ⟨.inr ⟨rfl, rfl⟩, .inl rfl, .inl rfl⟩
  split at hs
  · rw [hs]
    exact ⟨.inl ⟨rfl, rfl⟩, .inl rfl, .inl rfl⟩
  rename_i saved hsaved
  rw [hsaved]
  split at hs
  · unfold recoverInline at hs
    dsimp only at hs
    split at hs
    · have hattempted : s.attempted = (sys.disk.budgetAttempts recovery taskId revision).getD
            (allAttempts settings taskId) := by
        rw [hs]
      refine ⟨.inl ⟨by rw [hs], by rw [hs]⟩, .inr (by rw [hs]), .inr ?_⟩
      rw [hattempted]
      unfold Disk.budgetAttempts
      split
      · exact .inl hall
      rename_i budget hbudget
      split
      · exact .inl hall
      refine .inr ⟨budget, hbudget, fun hids generation hg => ?_⟩
      rw [if_pos hids]
      have hfirst := map_mem_firsts id budget.generations hg
      rw [List.map_id] at hfirst
      exact List.mem_map_of_mem hfirst
    · rw [hs]
      exact ⟨.inl ⟨rfl, rfl⟩, .inl rfl, .inl rfl⟩
  · rw [hs]
    exact ⟨.inl ⟨rfl, rfl⟩, .inl rfl, .inr (.inl hall)⟩

end AlysisCode.Checkpoint
