/-
When inferred dependencies close a cycle.

Inference looks back in the list of tasks and nowhere else, so what it adds is one edge for
each task that is cued, to an earlier task.  Declared dependencies may look ahead, and an
inferred edge closes a cycle exactly if the task it leads to already waits, by declared
dependencies and by what is inferred for the tasks in between, for the task it was inferred
for.  Applying the inference writes such edges into tasks that had none, and changes nothing
about who waits for whom.
-/
import AlysisCode.Library.Graph
import AlysisCode.Plan.Dependencies

namespace AlysisCode.Plan

open Graph Relation Text

/-- A task `a` with the declared dependency `b`. -/
def Declares (tasks : List PlanTask) (a b : String) : Prop :=
  ∃ task ∈ tasks, task.taskId = a ∧ b ∈ task.taskDependencies

/-- A task `a` that waits for `b`, by a declared or an inferred dependency. -/
def WaitsFor (tasks : List PlanTask) (a b : String) : Prop :=
  ∃ task ∈ tasks, task.taskId = a ∧ b ∈ effectiveDependencies tasks task

/-- Behind the tasks `before`, the task is cued, and `previous` is the nearest of them that
can be its predecessor. -/
def Picks (before : List PlanTask) (task previous : PlanTask) : Prop :=
  task.cued = true ∧ ∃ first between, before = first ++ previous :: between ∧
    eligible task previous = true ∧ ∀ other ∈ between, eligible task other = false

/-- A cued task `a` whose nearest possible predecessor is `b`. -/
def Links (tasks : List PlanTask) (a b : String) : Prop :=
  ∃ before task after previous, tasks = before ++ task :: after ∧ Picks before task previous ∧
    task.taskId = a ∧ previous.taskId = b

/-- No cued task's nearest possible predecessor already waits for it, through declared
dependencies and the links of the tasks before it. -/
def NoPredecessorWaits (tasks : List PlanTask) : Prop :=
  ∀ before task after, tasks = before ++ task :: after → ∀ previous, Picks before task previous →
    ¬ ReflTransGen (fun a b => Declares tasks a b ∨ Links before a b) previous.taskId task.taskId

/-! ### What is inferred -/

variable {before tasks tasks' : List PlanTask} {task : PlanTask}

variable {after : List PlanTask} {previous : PlanTask}

theorem find_reverse_eq_some {p : PlanTask → Bool} : before.reverse.find? p = some previous ↔
      ∃ first between, before = first ++ previous :: between ∧ p previous = true ∧
        ∀ other ∈ between, p other = false := by
  rw [List.find?_eq_some_iff_append]
  constructor
  · rintro ⟨hp, between, first, heq, hnone⟩
    refine ⟨first.reverse, between.reverse, ?_, hp, fun other hother => ?_⟩
    · rw [← List.reverse_reverse before, heq]
      simp
    · simpa using hnone other (List.mem_reverse.mp hother)
  · rintro ⟨first, between, rfl, hp, hnone⟩
    refine ⟨hp, between.reverse, first.reverse, by simp, fun other hother => ?_⟩
    simpa using hnone other (List.mem_reverse.mp hother)

theorem takeWhile_before (hids : ((before ++ task :: after).map PlanTask.taskId).Nodup) :
    (before ++ task :: after).takeWhile (fun candidate => candidate.taskId ≠ task.taskId) =
      before := by
  rw [List.takeWhile_append_of_pos, List.takeWhile_cons_of_neg (by simp), List.append_nil]
  intro candidate hcandidate
  rw [List.map_append, List.map_cons, List.nodup_append] at hids
  have hne := hids.2.2 candidate.taskId (List.mem_map_of_mem hcandidate) task.taskId
    List.mem_cons_self
  simpa using hne

theorem inferOrderedPredecessorDependency_eq_some {b : String}
    (hids : ((before ++ task :: after).map PlanTask.taskId).Nodup) :
    (inferOrderedPredecessorDependency (before ++ task :: after) task).map (·.dependsOn) =
      some b ↔ ∃ previous, Picks before task previous ∧ previous.taskId = b := by
  unfold inferOrderedPredecessorDependency Picks
  rw [takeWhile_before hids]
  by_cases hcued : task.cued = true
  · rw [if_pos hcued, Option.map_map]
    simp only [Option.map_eq_some_iff, find_reverse_eq_some, Function.comp_apply, true_and, hcued]
  · simp [hcued]

theorem cued_taskDependencies (h : task.cued = true) : task.taskDependencies = [] := by
  simp only [PlanTask.cued, Bool.and_eq_true, List.isEmpty_iff] at h
  exact h.1.2

/-- **A task waits for what it declares and what it is linked to.** -/
theorem waitsFor_iff (hids : (tasks.map PlanTask.taskId).Nodup) (a b : String) :
    WaitsFor tasks a b ↔ Declares tasks a b ∨ Links tasks a b := by
  constructor
  · rintro ⟨task, htask, rfl, hdep⟩
    unfold effectiveDependencies at hdep
    split at hdep
    · right
      obtain ⟨before, after, rfl⟩ := List.append_of_mem htask
      rw [Option.mem_toList, inferOrderedPredecessorDependency_eq_some hids] at hdep
      obtain ⟨previous, hpicks, hb⟩ := hdep
      exact ⟨before, task, after, previous, rfl, hpicks, rfl, hb⟩
    · exact .inl ⟨task, htask, rfl, hdep⟩
  · rintro (⟨task, htask, rfl, hdep⟩ | ⟨before, task, after, previous, rfl, hpicks, rfl, hb⟩)
    · refine ⟨task, htask, rfl, ?_⟩
      unfold effectiveDependencies
      rw [if_neg]
      · exact hdep
      · intro hempty
        rw [List.isEmpty_iff.mp hempty] at hdep
        cases hdep
    · refine ⟨task, by simp, rfl, ?_⟩
      unfold effectiveDependencies
      rw [if_pos (by rw [cued_taskDependencies hpicks.1]; rfl), Option.mem_toList,
        inferOrderedPredecessorDependency_eq_some hids]
      exact ⟨previous, hpicks, hb⟩

/-! ### Link by link -/

theorem split_snoc {α : Type} {first before after : List α} {last a : α} :
    first ++ [last] = before ++ a :: after ↔
      (∃ after', after = after' ++ [last] ∧ first = before ++ a :: after') ∨
        (after = [] ∧ first = before ∧ last = a) := by
  rcases List.eq_nil_or_concat after with rfl | ⟨after, b, rfl⟩
  · constructor
    · intro h
      obtain ⟨rfl, hlast⟩ := List.append_inj' h rfl
      exact .inr ⟨rfl, rfl, by simpa using hlast⟩
    · rintro (⟨after', heq, -⟩ | ⟨-, rfl, rfl⟩)
      · simp at heq
      · rfl
  · rw [List.concat_eq_append, ← List.cons_append, ← List.append_assoc]
    constructor
    · intro h
      obtain ⟨rfl, hlast⟩ := List.append_inj' h rfl
      obtain rfl : last = b := by simpa using hlast
      exact .inl ⟨after, rfl, rfl⟩
    · rintro (⟨after', heq, rfl⟩ | ⟨heq, -⟩)
      · obtain ⟨rfl, hlast⟩ := List.append_inj' heq rfl
        rw [hlast]
      · simp at heq

theorem links_snoc (first : List PlanTask) (task : PlanTask) (a b : String) :
    Links (first ++ [task]) a b ↔
      Links first a b ∨ ∃ previous, Picks first task previous ∧ a = task.taskId ∧
        b = previous.taskId := by
  unfold Links
  constructor
  · rintro ⟨before, task', after, previous, heq, hpicks, ha, hb⟩
    rcases split_snoc.mp heq with ⟨after', -, hfirst⟩ | ⟨-, rfl, rfl⟩
    · exact .inl ⟨before, task', after', previous, hfirst, hpicks, ha, hb⟩
    · exact .inr ⟨previous, hpicks, ha.symm, hb.symm⟩
  · rintro (⟨before, task', after, previous, hfirst, hpicks, ha, hb⟩ | ⟨previous, hpicks, ha, hb⟩)
    · exact ⟨before, task', after ++ [task], previous,
        split_snoc.mpr (.inl ⟨after, rfl, hfirst⟩), hpicks, ha, hb⟩
    · exact ⟨first, task, [], previous, rfl, hpicks, ha.symm, hb.symm⟩

theorem Picks.unique {previous' : PlanTask} (h : Picks before task previous)
    (h' : Picks before task previous') :
    previous = previous' := by
  have hfind := find_reverse_eq_some.mpr h.2
  rw [find_reverse_eq_some.mpr h'.2] at hfind
  exact (Option.some.inj hfind).symm

/-- **Adding the links task by task closes no cycle exactly if no link does.** -/
theorem acyclic_links_iff (declared : String → String → Prop) (tasks : List PlanTask) :
    Acyclic (fun a b => declared a b ∨ Links tasks a b) ↔ Acyclic declared ∧
      ∀ before task after, tasks = before ++ task :: after → ∀ previous,
        Picks before task previous →
        ¬ ReflTransGen (fun a b => declared a b ∨ Links before a b) previous.taskId
          task.taskId := by
  induction tasks using List.reverseRecOn with
  | nil =>
    have hnone : ∀ a b, (declared a b ∨ Links [] a b) ↔ declared a b := by
      intro a b
      simp [Links]
    rw [acyclic_congr hnone]
    simp
  | append_singleton first task ih =>
    -- the last task's link is the one edge more
    have hsnoc : Acyclic (fun a b => declared a b ∨ Links (first ++ [task]) a b) ↔
        Acyclic (fun a b => declared a b ∨ Links first a b) ∧ ∀ previous,
          Picks first task previous →
          ¬ ReflTransGen (fun a b => declared a b ∨ Links first a b) previous.taskId
            task.taskId := by
      by_cases hpick : ∃ previous, Picks first task previous
      · obtain ⟨previous, hpicks⟩ := hpick
        have hedge : ∀ a b, (declared a b ∨ Links (first ++ [task]) a b) ↔
            WithEdge (fun a b => declared a b ∨ Links first a b) task.taskId previous.taskId
              a b := by
          intro a b
          have hone : (∃ p, Picks first task p ∧ a = task.taskId ∧ b = p.taskId) ↔
              a = task.taskId ∧ b = previous.taskId :=
            ⟨fun ⟨p, hp, h⟩ => hpicks.unique hp ▸ h, fun h => ⟨previous, hpicks, h⟩⟩
          rw [links_snoc, hone, ← or_assoc]
          rfl
        rw [acyclic_congr hedge, acyclic_withEdge_iff]
        refine and_congr_right fun _ => ⟨fun h p hp => ?_, fun h => h previous hpicks⟩
        rw [← hpicks.unique hp]
        exact h
      · have hsame : ∀ a b, (declared a b ∨ Links (first ++ [task]) a b) ↔
            (declared a b ∨ Links first a b) := by
          intro a b
          rw [links_snoc]
          exact ⟨fun h => h.imp_right fun h => h.resolve_right fun ⟨p, hp, _⟩ => hpick ⟨p, hp⟩,
            fun h => h.imp_right Or.inl⟩
        rw [acyclic_congr hsame]
        exact ⟨fun h => ⟨h, fun p hp => absurd ⟨p, hp⟩ hpick⟩, And.left⟩
    rw [hsnoc, ih, and_assoc]
    refine and_congr_right fun _ => ?_
    constructor
    · rintro ⟨hfirst, hlast⟩ before task' after heq
      rcases split_snoc.mp heq with ⟨after', -, heq'⟩ | ⟨-, rfl, rfl⟩
      · exact hfirst before task' after' heq'
      · exact hlast
    · intro h
      exact ⟨fun before task' after heq =>
        h before task' (after ++ [task]) (split_snoc.mpr (.inl ⟨after, rfl, heq⟩)),
        h first task [] rfl⟩

/-! ### Applying the inference -/

/-- A task without its dependencies: what inference reads of a candidate. -/
def wording (task : PlanTask) : PlanTask := { task with dependencies := [] }

theorem infer_map_wording (tasks : List PlanTask) (task : PlanTask) :
    inferOrderedPredecessorDependency (tasks.map wording) task =
      inferOrderedPredecessorDependency tasks task := by
  dsimp only [inferOrderedPredecessorDependency]
  rw [List.takeWhile_map, ← List.map_reverse, List.find?_map, Option.map_map]
  rfl

theorem infer_congr (h : tasks'.map wording = tasks.map wording) (task : PlanTask) :
    inferOrderedPredecessorDependency tasks' task =
      inferOrderedPredecessorDependency tasks task := by
  rw [← infer_map_wording tasks', h, infer_map_wording]

theorem effectiveDependencies_congr (h : tasks'.map wording = tasks.map wording) (task : PlanTask) :
    effectiveDependencies tasks' task = effectiveDependencies tasks task := by
  unfold effectiveDependencies
  rw [infer_congr h]

/-- The task says and waits for what it did. -/
def Keeps (tasks : List PlanTask) (task task' : PlanTask) : Prop :=
  wording task' = wording task ∧
    effectiveDependencies tasks task' = effectiveDependencies tasks task

theorem Keeps.refl (tasks : List PlanTask) (task : PlanTask) : Keeps tasks task task := ⟨rfl, rfl⟩

theorem strip_strip (value : String) : strip (strip value) = strip value := by
  have hbare := bare_stripWhere isSpace value.toList
  have hlist : ∀ v, strip v = String.ofList (stripWhere isSpace v.toList) := fun _ => rfl
  rw [hlist (strip value), hlist value, String.toList_ofList, hbare.stripWhere_eq]

theorem infer_dependsOn {d : InferredTaskDependency}
    (h : inferOrderedPredecessorDependency tasks task = some d) :
    task.cued = true ∧ strip d.dependsOn = d.dependsOn ∧ d.dependsOn ≠ "" := by
  unfold inferOrderedPredecessorDependency at h
  split at h
  · rename_i hcued
    obtain ⟨previous, hfind, rfl⟩ := Option.map_eq_some_iff.mp h
    have heligible := List.find?_some hfind
    simp only [eligible, Bool.and_eq_true, decide_eq_true_eq] at heligible
    exact ⟨hcued, strip_strip previous.id, heligible.1.1.1⟩
  · cases h

theorem keeps_applyToTask (touched : List String) (tasks : List PlanTask) (task : PlanTask) :
    Keeps tasks task (applyToTask touched tasks task).1 := by
  unfold applyToTask
  split
  · exact Keeps.refl tasks task
  · cases hinfer : inferOrderedPredecessorDependency tasks task with
    | none => exact Keeps.refl tasks task
    | some d =>
      obtain ⟨hcued, hstrip, hne⟩ := infer_dependsOn hinfer
      have hnone := cued_taskDependencies hcued
      dsimp only
      rw [hnone, if_neg (by simp)]
      refine ⟨rfl, ?_⟩
      have hnew : PlanTask.taskDependencies { task with dependencies := [] ++ [d.dependsOn] } =
          [d.dependsOn] := by
        simp [PlanTask.taskDependencies, hstrip, hne]
      unfold effectiveDependencies
      rw [hnew, hnone, hinfer]
      rfl

theorem applyToTask_congr (h : tasks'.map wording = tasks.map wording) (touched : List String)
    (task : PlanTask) :
    applyToTask touched tasks' task = applyToTask touched tasks task := by
  unfold applyToTask
  rw [infer_congr h]

theorem applyFrom_eq {done todo : List PlanTask}
    (h : (done ++ todo).map wording = tasks.map wording) (touched : List String) :
    (applyFrom touched done todo).1 =
      done ++ todo.map fun task => (applyToTask touched tasks task).1 := by
  induction todo generalizing done with
  | nil => rw [List.map_nil, List.append_nil]; rfl
  | cons task rest ih =>
    have htask := applyToTask_congr h touched task
    have hwording : (done ++ [(applyToTask touched tasks task).1] ++ rest).map wording =
        tasks.map wording := by
      rw [← h]
      simp only [List.map_append, List.map_cons, List.append_assoc,
        List.cons_append, List.nil_append, (keeps_applyToTask touched tasks task).1]
    show (applyFrom touched (done ++ [(applyToTask touched (done ++ task :: rest) task).1])
      rest).1 = _
    rw [htask, ih hwording, List.append_assoc, List.singleton_append, List.map_cons]

def applied (calls : List (List String)) (tasks : List PlanTask) : List PlanTask :=
  calls.foldl (fun tasks touched => (applyOrderedDependencyInference touched tasks).1) tasks

theorem applied_eq_map (calls : List (List String)) (tasks : List PlanTask) :
    ∃ f : PlanTask → PlanTask, applied calls tasks = tasks.map f ∧
      ∀ task, Keeps tasks task (f task) := by
  induction calls using List.reverseRecOn with
  | nil => exact ⟨id, (List.map_id tasks).symm, Keeps.refl tasks⟩
  | append_singleton calls touched ih =>
    obtain ⟨f, heq, hkeeps⟩ := ih
    have hwording : (tasks.map f).map wording = tasks.map wording := by
      rw [List.map_map]
      exact List.map_congr_left fun task _ => (hkeeps task).1
    refine ⟨fun task => (applyToTask touched tasks (f task)).1, ?_, fun task => ?_⟩
    · have hlast : applied (calls ++ [touched]) tasks =
          (applyFrom touched [] (applied calls tasks)).1 := by
        unfold applied
        rw [List.foldl_append]
        rfl
      rw [hlast, heq, applyFrom_eq hwording, List.nil_append, List.map_map]
      rfl
    · have hnext := keeps_applyToTask touched tasks (f task)
      exact ⟨hnext.1.trans (hkeeps task).1, hnext.2.trans (hkeeps task).2⟩

/-- Applying the inference changes nothing about who waits for whom. -/
theorem waitsFor_applied (calls : List (List String)) (tasks : List PlanTask) (a b : String) :
    WaitsFor (applied calls tasks) a b ↔ WaitsFor tasks a b := by
  obtain ⟨f, heq, hkeeps⟩ := applied_eq_map calls tasks
  have hwording : (tasks.map f).map wording = tasks.map wording := by
    rw [List.map_map]
    exact List.map_congr_left fun task _ => (hkeeps task).1
  have hid : ∀ task, (f task).taskId = task.taskId := by
    intro task
    have hboth : (wording (f task)).taskId = (wording task).taskId := by rw [(hkeeps task).1]
    exact hboth
  unfold WaitsFor
  rw [heq]
  constructor
  · rintro ⟨task', hmem, ha, hb⟩
    obtain ⟨task, htask, rfl⟩ := List.mem_map.mp hmem
    rw [hid] at ha
    rw [effectiveDependencies_congr hwording, (hkeeps task).2] at hb
    exact ⟨task, htask, ha, hb⟩
  · rintro ⟨task, htask, ha, hb⟩
    refine ⟨f task, List.mem_map_of_mem htask, by rw [hid, ha], ?_⟩
    rw [effectiveDependencies_congr hwording, (hkeeps task).2]
    exact hb

/-- **Over acyclic declared dependencies, who waits for whom stays acyclic, also after any
calls of `apply_ordered_dependency_inference`, if and only if no cued task's nearest possible
predecessor already waits for it.** -/
theorem waitsFor_acyclic_iff {tasks : List PlanTask} (hids : (tasks.map PlanTask.taskId).Nodup)
    (hdeclared : Acyclic (Declares tasks)) (calls : List (List String)) :
    Acyclic (WaitsFor (applied calls tasks)) ↔ NoPredecessorWaits tasks := by
  rw [acyclic_congr (waitsFor_applied calls tasks), acyclic_congr (waitsFor_iff hids),
    acyclic_links_iff]
  exact and_iff_right hdeclared

/-! ### A cycle -/

def updateApi : PlanTask := { id := "T01", title := "Update the API", dependencies := ["T02"] }

def thenDocs : PlanTask := { id := "T02", title := "Then update the docs" }

theorem taskDependencies_updateApi : updateApi.taskDependencies = ["T02"] := by decide

theorem taskDependencies_thenDocs : thenDocs.taskDependencies = [] := by decide

theorem acyclic_declared : Acyclic (Declares [updateApi, thenDocs]) := by
  have honly : ∀ a b, Declares [updateApi, thenDocs] a b → a = "T01" ∧ b = "T02" := by
    rintro a b ⟨task, htask, rfl, hb⟩
    rcases List.mem_pair.mp htask with rfl | rfl
    · rw [taskDependencies_updateApi, List.mem_singleton] at hb
      exact ⟨by decide, hb⟩
    · rw [taskDependencies_thenDocs] at hb
      cases hb
  intro a hcycle
  obtain ⟨_, hfirst, -⟩ := TransGen.head'_iff.mp hcycle
  obtain ⟨_, -, hlast⟩ := TransGen.tail'_iff.mp hcycle
  have heq := (honly _ _ hfirst).1.symm.trans (honly _ _ hlast).2
  revert heq
  decide

/-- Two tasks wait for each other, though only one of them says so. -/
theorem waitsFor_cyclic : ([updateApi, thenDocs].map PlanTask.taskId).Nodup ∧
      (∀ task ∈ [updateApi, thenDocs], task.taskId ≠ "") ∧
      Acyclic (Declares [updateApi, thenDocs]) ∧ ¬ Acyclic (WaitsFor [updateApi, thenDocs]) := by
  refine ⟨by decide, by decide, acyclic_declared, fun h => h "T01" ?_⟩
  have hfirst : WaitsFor [updateApi, thenDocs] "T01" "T02" := by
    refine ⟨updateApi, by simp, by decide, ?_⟩
    unfold effectiveDependencies
    rw [taskDependencies_updateApi]
    simp
  have hsecond : WaitsFor [updateApi, thenDocs] "T02" "T01" :=
    ⟨thenDocs, by simp, by decide, by decide +kernel⟩
  exact (TransGen.single hfirst).tail hsecond

/-- The condition on a plan whose second task waits for the first. -/
theorem waitsFor_acyclic_iff_inOrder :
    Acyclic (WaitsFor (applied [["T02"]] [{ updateApi with dependencies := [] }, thenDocs])) ↔
      NoPredecessorWaits [{ updateApi with dependencies := [] }, thenDocs] := by
  refine waitsFor_acyclic_iff (by decide) ?_ [["T02"]]
  intro a hcycle
  obtain ⟨_, ⟨task, htask, -, hb⟩, -⟩ := TransGen.head'_iff.mp hcycle
  have hnone : ∀ task ∈ [{ updateApi with dependencies := [] }, thenDocs],
      PlanTask.taskDependencies task = [] := by decide
  rw [hnone task htask] at hb
  cases hb

end AlysisCode.Plan
