/-
The best checkpoint only improves, and the budget holds.

`Kept` is what every run maintains.  Its two lists of generations are the attempts of the host
and those of the budget file; the evaluations are among both, unless the host has no room left.
-/
import AlysisCode.Checkpoint.History

namespace AlysisCode.Checkpoint

open Runs

variable {F S B D M : Type} [DecidableEq D]

/-! ### Entries -/

section Entries

variable (trace : List (Entry F S B D M))

omit [DecidableEq D] in
theorem evaluations_considered (call : Call F) (w : Weather B M) (event : Option (Event S D)) :
    evaluations (trace ++ [.considered call w true event]) =
      evaluations trace ++ [call.generation] := by
  unfold evaluations
  rw [since_snoc_of_neg rfl, List.filterMap_append]
  rfl

omit [DecidableEq D] in
theorem evaluations_passed (call : Call F) (w : Weather B M) (event : Option (Event S D)) :
    evaluations (trace ++ [.considered call w false event]) = evaluations trace := by
  unfold evaluations
  rw [since_snoc_of_neg rfl, List.filterMap_append]
  exact List.append_nil _

omit [DecidableEq D] in
theorem evaluations_restarted (recovery : Recovery) (empty : Bool) :
    evaluations (trace ++ [.restarted recovery empty]) =
      if empty then [] else evaluations trace := by
  unfold evaluations
  cases empty with
  | true => rw [since_snoc_of_pos rfl]; rfl
  | false =>
    rw [since_snoc_of_neg rfl, List.filterMap_append]
    exact List.append_nil _

variable {trace} [Json.Floats F] {host : Host F S B D M} {settings : Settings}

theorem Earned.mono {disk disk' : Disk S B D} {best : Best S D}
    (h : Earned host settings trace disk best) (hdisk : Persists disk disk')
    (entry : Entry F S B D M) : Earned host settings (trace ++ [entry]) disk' best := by
  obtain ⟨call, w, evaluated, event, hmem, hgenuine⟩ := h
  exact ⟨call, w, evaluated, event, List.mem_append_left _ hmem, hgenuine.persists hdisk⟩

end Entries

omit [DecidableEq D] in
theorem acknowledge_of_other {recorded : Bool} {event : Option (Event S D)}
    {before : Option (Best S D)} (h : ∀ e ∈ event, e.status ≠ .verifiedCheckpointPreserved) :
    acknowledge recorded event before = before := by
  unfold acknowledge
  split
  · exact absurd rfl (h _ rfl)
  · rfl

/-! ### The invariant -/

variable [Json.Floats F]

structure Kept (host : Host F S B D M) (settings : Settings) (taskId revision : String)
    (trace : List (Entry F S B D M)) (sys : System S B D) : Prop where
  ready : sys.host.Ready taskId revision
  best : ∀ best ∈ sys.host.best, Earned host settings trace sys.disk best
  acknowledged : ∀ best ∈ sys.acknowledged, Earned host settings trace sys.disk best
  nodup : (evaluations trace).Nodup
  bounded : (evaluations trace).length ≤ settings.maxCandidates
  covered : sys.host.Covers settings taskId (evaluations trace)
  budget : evaluations trace ≠ [] →
    ∃ budget, sys.disk.budgets.lookup (taskId, revision) = some budget ∧
      budget.taskId = taskId ∧ budget.acceptanceRevision = revision ∧
      evaluations trace ⊆ budget.generations

section Kept

variable {host : Host F S B D M} {settings : Settings} {taskId revision : String}
  {trace : List (Entry F S B D M)} {sys : System S B D}

theorem Kept.attempts (h : Kept host settings taskId revision trace sys)
    (hroom : sys.host.attempted.length < settings.maxCandidates) :
    ∀ generation ∈ evaluations trace, (taskId, generation) ∈ sys.host.attempted := by
  obtain hall | hfull := h.covered
  · exact hall
  · omega

theorem Kept.restart (h : Kept host settings taskId revision trace sys) (recovery : Recovery) :
    Kept host settings taskId revision (trace ++ [.restarted recovery
        (sys.resumed host settings taskId revision recovery).isEmpty])
      { sys with host := sys.resumed host settings taskId revision recovery } := by
  obtain ⟨hready, hbest, hattempts⟩ := resumed_spec host settings taskId revision recovery sys
  have hevaluations := evaluations_restarted trace recovery
    (sys.resumed host settings taskId revision recovery).isEmpty
  have hsaved : ∀ best ∈ sys.acknowledged, Earned host settings (trace ++ [.restarted recovery
      (sys.resumed host settings taskId revision recovery).isEmpty]) sys.disk best :=
    fun best hmem => (h.acknowledged best hmem).mono (Persists.refl _) _
  have hresumed : ∀ best ∈ (sys.resumed host settings taskId revision recovery).best,
      Earned host settings (trace ++ [.restarted recovery
        (sys.resumed host settings taskId revision recovery).isEmpty]) sys.disk best := by
    intro best hmem
    obtain hnone | hsome := hbest
    · rw [hnone] at hmem
      cases hmem
    · exact hsaved best (hsome ▸ hmem)
  cases hempty : (sys.resumed host settings taskId revision recovery).isEmpty with
  | true =>
    rw [hempty, if_pos rfl] at hevaluations
    rw [hempty] at hresumed hsaved
    exact {
      ready := hready
      best := hresumed
      acknowledged := hsaved
      nodup := by rw [hevaluations]; exact List.nodup_nil
      bounded := by rw [hevaluations]; exact Nat.zero_le _
      covered := by
        rw [hevaluations]
        exact .inl fun generation hg => absurd hg (List.not_mem_nil)
      budget := fun hne => absurd hevaluations hne }
  | false =>
    rw [hempty, if_neg (by simp)] at hevaluations
    rw [hempty] at hresumed hsaved hattempts
    refine ⟨hready, hresumed, hsaved, ?_, ?_, ?_, ?_⟩
    · rw [hevaluations]
      exact h.nodup
    · rw [hevaluations]
      exact h.bounded
    · rw [hevaluations]
      obtain hno | hfull | ⟨budget, hbudget, hcovers⟩ := hattempts
      · cases hno
      · exact .inr hfull
      · by_cases hnil : evaluations trace = []
        · rw [hnil]
          exact .inl fun generation hg => absurd hg (List.not_mem_nil)
        · obtain ⟨budget', hbudget', htask, hrevision, hsub⟩ := h.budget hnil
          obtain rfl := Option.some.inj (hbudget.symm.trans hbudget')
          exact .inl fun generation hg => hcovers ⟨htask, hrevision⟩ generation (hsub hg)
    · rw [hevaluations]
      exact h.budget

theorem Kept.evaluate (h : Kept host settings taskId revision trace sys) {call : Call F}
    (htask : call.taskId = taskId) (hfresh : call.attempt ∉ sys.host.attempted)
    (hroom : sys.host.attempted.length < settings.maxCandidates) :
    (evaluations trace ++ [call.generation]).Nodup ∧
      (evaluations trace ++ [call.generation]).length ≤ settings.maxCandidates := by
  have hattempts := h.attempts hroom
  have hnew : call.generation ∉ evaluations trace := by
    intro hmem
    apply hfresh
    have hattempt := hattempts _ hmem
    rwa [← htask] at hattempt
  refine ⟨List.nodup_append.mpr ⟨h.nodup, List.nodup_singleton _, fun a ha b hb => ?_⟩, ?_⟩
  · rw [List.mem_singleton.mp hb]
    exact fun heq => hnew (heq ▸ ha)
  · have hsub : evaluations trace ⊆ sys.host.attempted.map (·.2) := fun generation hg =>
      List.mem_map_of_mem (f := (·.2)) (hattempts generation hg)
    have hle := (List.subperm_of_subset h.nodup hsub).length_le
    rw [List.length_map] at hle
    rw [List.length_append, List.length_singleton]
    omega

variable [LinearOrder S]

theorem Kept.promote (h : Kept host settings taskId revision trace sys) {call : Call F}
    {w : Weather B M} {result : State S D × Disk S B D × Option (Event S D)}
    (hconsidered : Considered host settings call w sys.host sys.disk result) (recorded : Bool)
    {evaluated : Bool} {trace' : List (Entry F S B D M)}
    (htrace : trace' = trace ++ [.considered call w evaluated result.2.2]) :
    (∀ best ∈ result.1.best, Earned host settings trace' result.2.1 best) ∧
      ∀ best ∈ acknowledge recorded result.2.2 sys.acknowledged,
        Earned host settings trace' result.2.1 best := by
  have hold (best : Best S D) (hearned : Earned host settings trace sys.disk best) :
      Earned host settings trace' result.2.1 best := by
    rw [htrace]
    exact hearned.mono hconsidered.archives _
  obtain ⟨hsame, hother⟩ | ⟨new, hset, hevent, -, -, -, hgenuine⟩ := hconsidered.best
  · rw [hsame, acknowledge_of_other hother]
    exact ⟨fun best hmem => hold best (h.best best hmem),
      fun best hmem => hold best (h.acknowledged best hmem)⟩
  · have hnew : Earned host settings trace' result.2.1 new := by
      refine ⟨call, w, evaluated, result.2.2, ?_, hgenuine⟩
      rw [htrace]
      exact List.mem_append_right _ (List.mem_singleton_self _)
    rw [hset]
    refine ⟨fun best hmem => ?_, fun best hmem => ?_⟩
    · rw [← Option.some.inj hmem]
      exact hnew
    · rw [hevent] at hmem
      cases recorded with
      | false => exact hold best (h.acknowledged best hmem)
      | true =>
        rw [← Option.some.inj hmem]
        exact hnew

theorem Kept.consider (hdigest : Function.Injective host.digest)
    (h : Kept host settings taskId revision trace sys) {call : Call F} (w : Weather B M)
    (htask : call.taskId = taskId) (hrevision : call.acceptanceRevision = revision)
    (recorded : Bool) :
    Kept host settings taskId revision
      (trace ++ [.considered call w (evaluates host settings call w sys.host)
        (consider host settings call w sys.host sys.disk).2.2])
      { host := (consider host settings call w sys.host sys.disk).1
        disk := (consider host settings call w sys.host sys.disk).2.1
        acknowledged := acknowledge recorded
          (consider host settings call w sys.host sys.disk).2.2 sys.acknowledged } := by
  subst htask hrevision
  have hconsidered : Considered host settings call w sys.host sys.disk
      (consider host settings call w sys.host sys.disk) := considered hdigest h.ready
  generalize consider host settings call w sys.host sys.disk = result at hconsidered ⊢
  have hpromoted (evaluated : Bool) := h.promote hconsidered recorded
    (Eq.refl (trace ++ [.considered call w evaluated result.2.2]))
  obtain ⟨hready, -, hbudgets, hattempted, -⟩ := hconsidered
  cases heval : evaluates host settings call w sys.host with
  | false =>
    obtain ⟨hbest, hacknowledged⟩ := hpromoted false
    rw [heval] at hattempted
    have hevaluations := evaluations_passed trace call w result.2.2
    refine ⟨hready, hbest, hacknowledged, ?_, ?_, ?_, ?_⟩ <;> rw [hevaluations]
    · exact h.nodup
    · exact h.bounded
    · obtain ⟨hsub, -⟩ | hfull := hattempted
      · exact h.covered.mono hsub
      · exact .inr hfull
    · intro hne
      obtain ⟨hsame, -⟩ | ⟨-, hroom, hwritten⟩ := hbudgets
      · rw [hsame]
        exact h.budget hne
      · refine ⟨_, by rw [hwritten, List.lookup_cons, beq_self_eq_true], rfl, rfl,
          fun generation hg => ?_⟩
        exact List.mem_map_of_mem (f := (·.2))
          (List.mem_append_left _ (h.attempts hroom generation hg))
  | true =>
    obtain ⟨hbest, hacknowledged⟩ := hpromoted true
    rw [heval] at hattempted hbudgets
    have hevaluations := evaluations_considered trace call w result.2.2
    obtain ⟨-, hno⟩ | ⟨hfresh, hroom, hwritten⟩ := hbudgets
    · cases hno
    obtain ⟨hnodup, hbounded⟩ := h.evaluate rfl hfresh hroom
    have hattempts := h.attempts hroom
    refine ⟨hready, hbest, hacknowledged, ?_, ?_, ?_, ?_⟩ <;> rw [hevaluations]
    · exact hnodup
    · exact hbounded
    · obtain ⟨hsub, hmem⟩ | hfull := hattempted
      · refine .inl fun generation hg => ?_
        obtain hg | hg := List.mem_append.mp hg
        · exact hsub.subset (hattempts generation hg)
        · rw [List.mem_singleton.mp hg]
          exact hmem rfl
      · exact .inr hfull
    · intro _
      refine ⟨_, by rw [hwritten, List.lookup_cons, beq_self_eq_true], rfl, rfl,
        fun generation hg => ?_⟩
      rw [List.map_append]
      obtain hg | hg := List.mem_append.mp hg
      · exact List.mem_append_left _ (List.mem_map_of_mem (f := (·.2)) (hattempts generation hg))
      · exact List.mem_append_right _ hg

/-- **Every run of calls and restarts keeps the invariant.** -/
theorem kept (hdigest : Function.Injective host.digest)
    (h : Run (Step host settings taskId revision) {} trace sys) :
    Kept host settings taskId revision trace sys := by
  refine Run.history (I := Kept host settings taskId revision) ?_ ?_ h
  · exact {
      ready := Or.inr ⟨rfl, rfl⟩
      best := fun best hmem => by cases hmem
      acknowledged := fun best hmem => by cases hmem
      nodup := List.nodup_nil
      bounded := Nat.zero_le _
      covered := Or.inl fun generation hg => absurd hg List.not_mem_nil
      budget := fun hne => absurd rfl hne }
  · intro trace sys entry sys' _ hkept hstep
    cases hstep with
    | consider call w recorded htask hrevision =>
      exact hkept.consider hdigest w htask hrevision recorded
    | restart recovery => exact hkept.restart recovery

end Kept

/-! ### What a step does to the best checkpoint -/

variable [LinearOrder S]

/-- A call leaves the best checkpoint, or it got an answer that a candidate which beats it was
preserved; a restart leaves nothing but what was acknowledged. -/
def Improves (host : Host F S B D M) (settings : Settings) (sys : System S B D) :
    Entry F S B D M → System S B D → Prop
  | .considered call w evaluated event, sys' =>
    (sys'.host.best = sys.host.best ∧ ∀ e ∈ event, e.status ≠ .verifiedCheckpointPreserved) ∨
    ∃ new, sys'.host.best = some new ∧ event = some ⟨.verifiedCheckpointPreserved, some new⟩ ∧
      evaluated = true ∧ w.answered = true ∧
      Beats settings new sys.host.best ∧ Genuine host settings call w sys'.disk new
  | .restarted _ _, sys' => sys'.host.best = none ∨ sys'.host.best = sys.acknowledged

/-- **The best checkpoint only improves.**  In every run for a task and a revision, the best
checkpoint is one that a verified and terminal candidate has earned, every step leaves or
improves it, and the candidates evaluated since the host last came back with nothing are
different and no more than the settings allow. -/
theorem best_only_improves {host : Host F S B D M} {settings : Settings}
    {taskId revision : String} {trace : List (Entry F S B D M)} {sys : System S B D}
    (hdigest : Function.Injective host.digest)
    (h : Run (Step host settings taskId revision) {} trace sys) :
    (∀ best ∈ sys.host.best, Earned host settings trace sys.disk best) ∧
      (evaluations trace).Nodup ∧ (evaluations trace).length ≤ settings.maxCandidates ∧
      ∀ entry sys', Step host settings taskId revision sys entry sys' →
        Improves host settings sys entry sys' := by
  have hkept := kept hdigest h
  refine ⟨hkept.best, hkept.nodup, hkept.bounded, fun entry sys' hstep => ?_⟩
  cases hstep with
  | consider call w recorded htask hrevision =>
    subst htask hrevision
    have hconsidered : Considered host settings call w sys.host sys.disk
        (consider host settings call w sys.host sys.disk) := considered hdigest hkept.ready
    exact hconsidered.best
  | restart recovery =>
    exact (resumed_spec host settings taskId revision recovery sys).2.1

/-! ### Two runs -/

/-- A host whose digests are the bytes themselves and whose archives are names and contents. -/
def exampleHost : Host Unit Int String String Unit where
  python := { str := fun _ => "", isZero := fun _ => false }
  number
    | .int n => .finite n
    | _ => .other
  digest data := data
  commandDigest command := command
  zip files _ := String.join (files.map fun f => f.1 ++ ":" ++ f.2 ++ ";")
  root := "/work"

def exampleSettings (maxCandidates : Nat) : Settings :=
  ⟨true, 10, 100, maxCandidates, "bench", "v", .maximize⟩

/-- The one file of the workspace. -/
def exampleWalk (content : String) : Walk String :=
  .meets [{ relative := "a.py", before := ⟨1, 0, 0⟩, after := ⟨1, 0, 0⟩, content := content }]

def exampleWeather (second : String) : Weather String Unit :=
  { first := exampleWalk "x", second := exampleWalk second, modes := some () }

/-- A verified candidate, with the run of the objective that it shows. -/
def exampleCall (generation : Int) (result : List (String × Json Unit)) : Call Unit where
  taskId := "T1"
  acceptanceRevision := "r1"
  verifiedSuccess := true
  terminal := true
  generation := generation
  result := result
  acceptedCommands := ["bench"]
  expired := false

/-- The result of `bench` with a value. -/
def measuredRow (value : String) : List (String × Json Unit) :=
  [("cmd", .str "bench"), ("exit_code", .int 0), ("stdout", .str ("\x7b\"v\":" ++ value ++ "\x7d"))]

theorem run_consider (settings : Settings) {trace : List (Entry Unit Int String String Unit)}
    {sys : System Int String String}
    (h : Run (Step exampleHost settings "T1" "r1") {} trace sys) (generation : Int)
    (result : List (String × Json Unit)) (w : Weather String Unit) (recorded : Bool) :
    Run (Step exampleHost settings "T1" "r1") {}
      (trace ++ [.considered (exampleCall generation result) w
        (evaluates exampleHost settings (exampleCall generation result) w sys.host)
        (consider exampleHost settings (exampleCall generation result) w sys.host sys.disk).2.2])
      { host :=
          (consider exampleHost settings (exampleCall generation result) w sys.host sys.disk).1
        disk :=
          (consider exampleHost settings (exampleCall generation result) w sys.host sys.disk).2.1
        acknowledged := acknowledge recorded
          (consider exampleHost settings (exampleCall generation result) w sys.host sys.disk).2.2
          sys.acknowledged } :=
  h.snoc (Step.consider _ w recorded rfl rfl)

/-- A better measurement replaces the best checkpoint, within the budget. -/
theorem best_only_improves_measured :
    ∃ trace sys, Run (Step exampleHost (exampleSettings 2) "T1" "r1") {} trace sys ∧
      sys.host.best.map (·.objectiveValue) = some (some 7) ∧
      (evaluations trace).length ≤ 2 := by
  have hrun := run_consider (exampleSettings 2)
    (run_consider _ Run.nil 0 (measuredRow "5") (exampleWeather "x") true) 1 (measuredRow "7")
    (exampleWeather "x") true
  obtain ⟨-, -, hbounded, -⟩ := best_only_improves (fun _ _ h => h) hrun
  refine ⟨_, _, hrun, ?_, hbounded⟩
  decide +kernel

/-- A checkpoint without a measurement is replaced by a measured one; and a candidate that left
no checkpoint is evaluated again in a new process, where one evaluation is allowed. -/
theorem best_not_only_improved :
    (∃ trace sys entry sys', Run (Step exampleHost (exampleSettings 2) "T1" "r1") {} trace sys ∧
      Step exampleHost (exampleSettings 2) "T1" "r1" sys entry sys' ∧
      sys.host.best.map (·.objectiveValue) = some none ∧
      sys'.host.best.map (·.objectiveValue) = some (some 7)) ∧
    ∃ trace sys, Run (Step exampleHost (exampleSettings 1) "T1" "r1") {} trace sys ∧
      trace.filterMap Entry.evaluation = [0, 0] := by
  refine ⟨⟨_, _, _, _, run_consider _ Run.nil 0 [] (exampleWeather "x") true,
    Step.consider (exampleCall 1 (measuredRow "7")) (exampleWeather "x") true rfl rfl, ?_, ?_⟩,
    ⟨_, _, run_consider _ ((run_consider _ Run.nil 0 [] (exampleWeather "y") true).snoc
      (Step.restart {})) 0 [] (exampleWeather "x") true, ?_⟩⟩
  · decide +kernel
  · decide +kernel
  · decide +kernel

end AlysisCode.Checkpoint
