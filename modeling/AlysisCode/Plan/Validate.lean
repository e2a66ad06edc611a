/-
The circular dependency that the validation of a plan reports.

The search goes depth first.  The tasks it is in the middle of are a path, and a dependency on
one of them closes a cycle.  The tasks it is done with are kept in the order in which they were
finished: each depends only on tasks that were finished before it, so none is on a cycle.
-/
import Mathlib.Data.List.Chain
import Mathlib.Data.List.Perm.Subperm
import AlysisCode.Library.Collect
import AlysisCode.Library.Graph
import AlysisCode.Plan.Dependencies

namespace AlysisCode.Plan

open Relation

/-! ### The search -/

section Search

variable {α : Type} [DecidableEq α]

/-- The gray tasks with the path that led to them, and the black ones, the last one first. -/
structure Search (α : Type) where
  stack : List α := []
  black : List α := []

/-- The loop over dependencies, given the recursive call: a cycle, or how it leaves the search.
A task stands on the stack at its `stack_index`; what is neither gray nor black is white. -/
def visitAll (visit : Search α → α → Option (Except (List α) (Search α))) (s : Search α) :
    List α → Option (Except (List α) (Search α))
  | [] => some (.ok s)
  | d :: rest =>
    if d ∈ s.stack then some (.error (s.stack.drop (s.stack.idxOf d) ++ [d]))
    else if d ∈ s.black then visitAll visit s rest
    else
      match visit s d with
      | some (.ok s) => visitAll visit s rest
      | result => result

/-- `_dfs`; `none` if the fuel does not suffice. -/
def dfs (deps : α → List α) : Nat → Search α → α → Option (Except (List α) (Search α))
  | 0, _, _ => none
  | fuel + 1, s, t =>
    match visitAll (dfs deps fuel) { s with stack := s.stack ++ [t] } (deps t) with
    | some (.ok s) => some (.ok ⟨s.stack.dropLast, t :: s.black⟩)
    | result => result

/-- `_find_cycle`; between the tasks the stack is empty. -/
def findCycle (ids : List α) (deps : α → List α) : Option (List α) :=
  match visitAll (dfs deps ids.length) {} ids with
  | some (.error cycle) => some cycle
  | _ => none

/-- Consecutive elements are related, and the first is the last. -/
structure RealCycle (r : α → α → Prop) (cycle : List α) : Prop where
  chain : cycle.IsChain r
  long : 2 ≤ cycle.length
  closes : cycle.head? = cycle.getLast?

/-- Each leads only to what stands behind it. -/
def Ordered (deps : α → List α) : List α → Prop
  | [] => True
  | t :: rest => (∀ d ∈ deps t, d ∈ rest) ∧ Ordered deps rest

variable {deps : α → List α} {ids : List α}

omit [DecidableEq α] in
theorem Ordered.closed {l : List α} (h : Ordered deps l) {a b : α} (ha : a ∈ l)
    (hwalk : ReflTransGen (fun a b => b ∈ deps a) a b) : b ∈ l := by
  have hnext : ∀ a ∈ l, ∀ b ∈ deps a, b ∈ l := by
    clear ha hwalk
    induction l with
    | nil => simp
    | cons t rest ih =>
      intro a ha b hb
      rcases List.mem_cons.mp ha with rfl | ha
      · exact List.mem_cons_of_mem _ (h.1 b hb)
      · exact List.mem_cons_of_mem _ (ih h.2 a ha b hb)
  induction hwalk with
  | refl => exact ha
  | tail _ hstep ih => exact hnext _ ih _ hstep

omit [DecidableEq α] in
theorem Ordered.acyclic {l : List α} (h : Ordered deps l) (hnodup : l.Nodup) :
    ∀ a ∈ l, ¬ TransGen (fun a b => b ∈ deps a) a a := by
  induction l with
  | nil => simp
  | cons t rest ih =>
    obtain ⟨hfresh, hrest⟩ := List.nodup_cons.mp hnodup
    intro a ha hcycle
    rcases List.mem_cons.mp ha with rfl | ha
    · obtain ⟨b, hb, hback⟩ := TransGen.head'_iff.mp hcycle
      exact hfresh (h.2.closed (h.1 b hb) hback)
    · exact ih h.2 hrest a ha hcycle

/-- What holds between two steps of the search. -/
structure Search.Sound (ids : List α) (deps : α → List α) (s : Search α) : Prop where
  nodup : (s.stack ++ s.black).Nodup
  known : s.stack ⊆ ids
  chain : s.stack.IsChain fun a b => b ∈ deps a
  ordered : Ordered deps s.black

def Ends (ids : List α) (deps : α → List α) (s : Search α) (tasks : List α) :
    Option (Except (List α) (Search α)) → Prop
  | none => False
  | some (.error cycle) => RealCycle (fun a b => b ∈ deps a) cycle
  | some (.ok s') => s'.Sound ids deps ∧ s'.stack = s.stack ∧ s.black ⊆ s'.black ∧ tasks ⊆ s'.black

variable {stack : List α} {s : Search α}

omit [DecidableEq α] in
theorem isChain_push {t : α} (hchain : stack.IsChain fun a b => b ∈ deps a)
    (h : ∀ a ∈ stack.getLast?, t ∈ deps a) :
    (stack ++ [t]).IsChain fun a b => b ∈ deps a := by
  refine List.isChain_append.mpr ⟨hchain, List.isChain_singleton t, fun a ha b hb => ?_⟩
  obtain rfl : t = b := by simpa using hb
  exact h a ha

theorem realCycle_of_mem {d : α} (hd : d ∈ stack)
    (hchain : (stack ++ [d]).IsChain fun a b => b ∈ deps a) :
    RealCycle (fun a b => b ∈ deps a) (stack.drop (stack.idxOf d) ++ [d]) := by
  have hlt : stack.idxOf d < stack.length := List.idxOf_lt_length_of_mem hd
  have hdrop : stack.drop (stack.idxOf d) ++ [d] = (stack ++ [d]).drop (stack.idxOf d) := by
    rw [List.drop_append_of_le_length hlt.le]
  refine ⟨?_, by simp; omega, ?_⟩
  · rw [hdrop]
    exact hchain.drop _
  · rw [List.drop_eq_getElem_cons hlt, List.getElem_idxOf hlt, List.getLast?_append]
    rfl

theorem visitAll_ends {visit : Search α → α → Option (Except (List α) (Search α))}
    (hvisit : ∀ s : Search α, s.Sound ids deps → s.stack = stack → ∀ d ∈ ids,
      d ∉ s.stack → d ∉ s.black → (∀ a ∈ stack.getLast?, d ∈ deps a) →
      Ends ids deps s [d] (visit s d)) (hs : s.Sound ids deps) (hstack : s.stack = stack)
    {tasks : List α} (hknown : tasks ⊆ ids) (hedges : ∀ d ∈ tasks, ∀ a ∈ stack.getLast?, d ∈ deps a) :
    Ends ids deps s tasks (visitAll visit s tasks) := by
  induction tasks generalizing s with
  | nil => exact ⟨hs, rfl, fun _ => id, by simp⟩
  | cons d rest ih =>
    have hedge := hedges d List.mem_cons_self
    have hrest : rest ⊆ ids := fun a ha => hknown (List.mem_cons_of_mem d ha)
    have hedges' : ∀ d ∈ rest, ∀ a ∈ stack.getLast?, d ∈ deps a := fun d' hd' =>
      hedges d' (List.mem_cons_of_mem d hd')
    -- the tasks behind `d`, once it is finished
    have hgo {s' : Search α} (hs' : s'.Sound ids deps) (hsame : s'.stack = s.stack)
        (hgrows : s.black ⊆ s'.black) (hd : d ∈ s'.black) :
        Ends ids deps s (d :: rest) (visitAll visit s' rest) := by
      have hends := ih hs' (hsame.trans hstack) hrest hedges'
      generalize visitAll visit s' rest = result at hends
      match result, hends with
      | some (.error _), hcycle => exact hcycle
      | some (.ok s''), ⟨hsound, hstack', hblack, hall⟩ =>
        exact ⟨hsound, hstack'.trans hsame, fun a ha => hblack (hgrows ha),
          List.cons_subset.mpr ⟨hblack hd, hall⟩⟩
    unfold visitAll
    by_cases hgray : d ∈ s.stack
    · rw [if_pos hgray]
      exact realCycle_of_mem hgray (isChain_push hs.chain (hstack ▸ hedge))
    · rw [if_neg hgray]
      by_cases hblack : d ∈ s.black
      · rw [if_pos hblack]
        exact hgo hs rfl (fun _ => id) hblack
      · rw [if_neg hblack]
        have hends := hvisit s hs hstack d (hknown List.mem_cons_self) hgray hblack hedge
        generalize visit s d = result at hends
        match result, hends with
        | some (.error _), hcycle => exact hcycle
        | some (.ok s'), ⟨hsound, hsame, hgrows, hdone⟩ =>
          exact hgo hsound hsame hgrows (hdone List.mem_cons_self)

/-- **The recursion is never deeper than there are tasks**, and a task it returns from is
finished. -/
theorem dfs_ends (hdeps : ∀ t, deps t ⊆ ids) {fuel : Nat} {t : α} (hs : s.Sound ids deps)
    (hfuel : ids.length ≤ fuel + s.stack.length) (ht : t ∈ ids) (hgray : t ∉ s.stack)
    (hblack : t ∉ s.black) (hedge : ∀ a ∈ s.stack.getLast?, t ∈ deps a) :
    Ends ids deps s [t] (dfs deps fuel s t) := by
  induction fuel generalizing s t with
  | zero =>
    have hnodup : (t :: s.stack).Nodup := by
      exact List.nodup_cons.mpr ⟨hgray, hs.nodup.of_append_left⟩
    have hlen := (List.Nodup.subperm hnodup (List.cons_subset.mpr ⟨ht, hs.known⟩)).length_le
    simp at hlen
    omega
  | succ fuel ih =>
    have hpushed : Search.Sound ids deps { s with stack := s.stack ++ [t] } := by
      refine ⟨?_, ?_, isChain_push hs.chain hedge, hs.ordered⟩
      · show ((s.stack ++ [t]) ++ s.black).Nodup
        rw [List.append_assoc, List.singleton_append, List.nodup_middle, List.nodup_cons]
        exact ⟨by simp [hgray, hblack], hs.nodup⟩
      · exact List.append_subset.mpr ⟨hs.known, by simpa using ht⟩
    have hends : Ends ids deps { s with stack := s.stack ++ [t] } (deps t)
        (visitAll (dfs deps fuel) { s with stack := s.stack ++ [t] } (deps t)) := by
      refine visitAll_ends (fun s' hs' hstack d hd hgray hblack hedge => ?_) hpushed rfl
        (hdeps t) (by simp)
      exact ih hs' (by simp [hstack]; omega) hd hgray hblack (hstack ▸ hedge)
    unfold dfs
    generalize visitAll (dfs deps fuel) { s with stack := s.stack ++ [t] } (deps t) = result
      at hends
    match result, hends with
    | some (.error _), hcycle => exact hcycle
    | some (.ok s'), ⟨hsound, hstack, hgrows, hdone⟩ =>
      have hnodup := hsound.nodup
      have hback : s'.stack.dropLast = s.stack := by simp [hstack]
      rw [hstack, List.append_assoc, List.singleton_append] at hnodup
      refine ⟨⟨?_, ?_, ?_, hdone, hsound.ordered⟩, hback, ?_, by simp⟩
      · rw [hback]
        exact hnodup
      · rw [hback]
        exact hs.known
      · rw [hback]
        exact hs.chain
      · exact fun a ha => List.mem_cons_of_mem t (hgrows ha)

/-- **A cycle is found exactly if there is one, and what is found is one.** -/
theorem findCycle_spec (hdeps : ∀ t, deps t ⊆ ids) (hroots : ∀ t, t ∉ ids → deps t = []) :
    match findCycle ids deps with
    | some cycle => RealCycle (fun a b => b ∈ deps a) cycle
    | none => Graph.Acyclic fun a b => b ∈ deps a := by
  have hstart : Search.Sound ids deps {} := ⟨by simp, by simp, by simp, trivial⟩
  have hends : Ends ids deps {} ids (visitAll (dfs deps ids.length) {} ids) := by
    refine visitAll_ends (fun s hs hstack d hd hgray hblack _ => ?_) hstart rfl
      (List.Subset.refl ids) (by simp)
    exact dfs_ends hdeps hs (by simp) hd hgray hblack (by simp [hstack])
  unfold findCycle
  generalize visitAll (dfs deps ids.length) {} ids = result at hends
  match result, hends with
  | some (.error _), hcycle => exact hcycle
  | some (.ok s), ⟨hsound, _, _, hdone⟩ =>
    intro a hcycle
    obtain ⟨b, hb, -⟩ := TransGen.head'_iff.mp hcycle
    have ha : a ∈ ids := by
      by_contra hnot
      rw [hroots a hnot] at hb
      cases hb
    exact hsound.ordered.acyclic hsound.nodup.of_append_right a (hdone ha) hcycle

omit [DecidableEq α] in
theorem RealCycle.transGen {r : α → α → Prop} {cycle : List α} (h : RealCycle r cycle) :
    ∃ a, TransGen r a a := by
  obtain ⟨hchain, hlong, hcloses⟩ := h
  match cycle with
  | a :: b :: rest =>
    have hwalk := List.relationReflTransGen_of_exists_isChain (b :: rest) hchain.tail (by simp)
    have hlast : (b :: rest).getLast (by simp) = a := by
      simpa [List.getLast?_eq_some_getLast] using hcloses.symm
    rw [hlast] at hwalk
    exact ⟨a, .head' (List.isChain_cons_cons.mp hchain).1 hwalk⟩

end Search

/-! ### The warnings -/

/-- A warning of the validation. -/
inductive Warning where
  | tasksMissing
  | unknownDependency (task dependency : String)
  | nonExecutableDependency (task dependency : String)
  | missingAcceptance (task : String)
  | ofTask (text : String)
  | circularDependency (cycle : List String)
  deriving DecidableEq

def Warning.text : Warning → String
  | .tasksMissing => "Plan validation warning: tasks field is missing or not an array."
  | .unknownDependency task dependency =>
    "Task " ++ task ++ " has unknown dependency id: " ++ dependency
  | .nonExecutableDependency task dependency =>
    "Task " ++ task ++ " depends on non-executable task id: " ++ dependency
  | .missingAcceptance task => "Task " ++ task ++ " is missing acceptance_criteria"
  | .ofTask text => text
  | .circularDependency cycle => "Circular dependency detected: " ++ " -> ".intercalate cycle

def taskIds (tasks : List PlanTask) : List String :=
  ((tasks.map PlanTask.taskId).filter (· ≠ "")).foldl (Collect.keepOne id) []

/-- `_NON_EXECUTABLE_OBSOLETE_STATUSES` -/
def PlanTask.isObsolete (task : PlanTask) : Bool :=
  ["superseded", "invalidated"].contains (canonicalStatus task.status)

/-- What `deps_map` gets for a task. -/
def knownDependencies (tasks : List PlanTask) (task : PlanTask) : List String :=
  if task.isObsolete then [] else task.taskDependencies.filter (· ∈ taskIds tasks)

/-- `deps_map.get(id, [])`: of tasks with one id the last one counts. -/
def depsMap (tasks : List PlanTask) (id : String) : List String :=
  match tasks.reverse.find? fun task => task.taskId = id && id ≠ "" with
  | some task => knownDependencies tasks task
  | none => []

/-- The warnings about one task; `others` are those about its scope and its assets. -/
def taskWarnings (others : PlanTask → List String) (tasks : List PlanTask) (task : PlanTask) :
    List Warning :=
  if task.taskId = "" then []
  else
    (task.taskDependencies.filterMap fun dep =>
      if dep ∉ taskIds tasks then some (.unknownDependency task.taskId dep)
      else if !task.isObsolete && (tasks.find? (·.taskId = dep)).any PlanTask.isObsolete then
        some (.nonExecutableDependency task.taskId dep)
      else none) ++
    if task.isObsolete then []
    else
      (if normalizedTextList task.acceptanceCriteria = [] then [.missingAcceptance task.taskId]
        else []) ++ (others task).map .ofTask

/-- `validate_plan`; no tasks if the field is no array. -/
def validatePlan (others : PlanTask → List String) : Option (List PlanTask) → List Warning
  | none => [.tasksMissing]
  | some tasks =>
    tasks.flatMap (taskWarnings others tasks) ++
      ((findCycle (taskIds tasks) (depsMap tasks)).map Warning.circularDependency).toList

variable {tasks : List PlanTask}

def DependsOn (tasks : List PlanTask) (a b : String) : Prop :=
  ∃ task ∈ tasks, task.taskId = a ∧ a ≠ "" ∧ task.isObsolete = false ∧
    b ∈ task.taskDependencies ∧ b ∈ taskIds tasks

/-- Tasks that have an id have different ones. -/
def DistinctIds (tasks : List PlanTask) : Prop :=
  ((tasks.map PlanTask.taskId).filter (· ≠ "")).Nodup

theorem mem_taskIds {id : String} :
    id ∈ taskIds tasks ↔ id ≠ "" ∧ ∃ task ∈ tasks, task.taskId = id := by
  rw [taskIds, Collect.mem_keepFirst_id]
  simp [and_comm]

theorem knownDependencies_subset (task : PlanTask) :
    knownDependencies tasks task ⊆ taskIds tasks := by
  unfold knownDependencies
  split
  · simp
  · intro b hb
    simpa using (List.mem_filter.mp hb).2

/-- What the map holds are the edges of the graph. -/
theorem mem_depsMap (hids : DistinctIds tasks) {a b : String} :
    b ∈ depsMap tasks a ↔ DependsOn tasks a b := by
  have hone {task task' : PlanTask} (h : task ∈ tasks) (h' : task' ∈ tasks)
      (hsame : task.taskId = task'.taskId) (hne : task.taskId ≠ "") : task = task' := by
    refine List.inj_on_of_nodup_map (f := PlanTask.taskId)
      (l := tasks.filter fun task => task.taskId ≠ "") ?_ ?_ ?_ hsame
    · rwa [DistinctIds, List.filter_map] at hids
    · simpa using ⟨h, hne⟩
    · simpa using ⟨h', hsame ▸ hne⟩
  have hedges (task : PlanTask) : b ∈ knownDependencies tasks task ↔
      task.isObsolete = false ∧ b ∈ task.taskDependencies ∧ b ∈ taskIds tasks := by
    unfold knownDependencies
    by_cases hobsolete : task.isObsolete = true <;> simp [hobsolete]
  unfold depsMap DependsOn
  cases hfind : tasks.reverse.find? fun task => task.taskId = a && a ≠ "" with
  | none =>
    have hnone := List.find?_eq_none.mp hfind
    simp only [List.not_mem_nil, false_iff]
    rintro ⟨task, htask, hid, hne, -⟩
    exact hnone task (by simpa using htask) (by simp [hid, hne])
  | some task =>
    have hfound := List.find?_some hfind
    have htask : task ∈ tasks := by simpa using List.mem_of_find?_eq_some hfind
    simp only [decide_eq_true_eq, Bool.and_eq_true] at hfound
    rw [hedges]
    constructor
    · exact fun h => ⟨task, htask, hfound.1, hfound.2, h⟩
    · rintro ⟨task', htask', hid, hne, h⟩
      rwa [hone htask htask' (hfound.1.trans hid.symm) (hfound.1 ▸ hne)]

/-- **The validation reports a circular dependency exactly if there is one, and what it reports
is a real one.** -/
theorem validatePlan_circular (others : PlanTask → List String) (hids : DistinctIds tasks) :
    ((∃ cycle, .circularDependency cycle ∈ validatePlan others (some tasks)) ↔
      ∃ a, TransGen (DependsOn tasks) a a) ∧
    ∀ cycle, .circularDependency cycle ∈ validatePlan others (some tasks) →
      RealCycle (DependsOn tasks) cycle := by
  have hreported (cycle : List String) :
      .circularDependency cycle ∈ validatePlan others (some tasks) ↔
        findCycle (taskIds tasks) (depsMap tasks) = some cycle := by
    have hother : ∀ task, .circularDependency cycle ∉ taskWarnings others tasks task := by
      intro task hmem
      unfold taskWarnings at hmem
      split_ifs at hmem <;> simp at hmem <;> grind
    simp [validatePlan, hother]
  have hsame : (fun a b => b ∈ depsMap tasks a) = DependsOn tasks := by
    funext a b
    exact propext (mem_depsMap hids)
  have hknown : ∀ t, depsMap tasks t ⊆ taskIds tasks := by
    intro t b hb
    obtain ⟨-, -, -, -, -, -, hb⟩ := (mem_depsMap hids).mp hb
    exact hb
  have hroots : ∀ t, t ∉ taskIds tasks → depsMap tasks t = [] := by
    intro t ht
    refine List.eq_nil_iff_forall_not_mem.mpr fun b hb => ht ?_
    obtain ⟨task, htask, hid, hne, -⟩ := (mem_depsMap hids).mp hb
    exact mem_taskIds.mpr ⟨hne, task, htask, hid⟩
  have hspec := findCycle_spec hknown hroots
  rw [hsame] at hspec
  simp only [hreported]
  generalize findCycle (taskIds tasks) (depsMap tasks) = result at hspec
  cases result with
  | none => simpa [Graph.Acyclic] using hspec
  | some cycle =>
    simp only [Option.some.injEq, exists_eq', true_iff, forall_eq']
    exact ⟨hspec.transGen, hspec⟩

def waitingPair : List PlanTask := [{ id := "T1", dependencies := ["T2"] },
  { id := "T2", dependencies := ["T1"] }]

theorem validatePlan_circular_pair : DistinctIds waitingPair ∧ ∀ cycle,
      .circularDependency cycle ∈ validatePlan (fun _ => []) (some waitingPair) →
        RealCycle (DependsOn waitingPair) cycle := by
  have hids : DistinctIds waitingPair := by
    show List.Nodup _
    decide +kernel
  exact ⟨hids, (@validatePlan_circular waitingPair (fun _ => []) hids).2⟩

end AlysisCode.Plan
