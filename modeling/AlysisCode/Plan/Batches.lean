/-
Batches of tasks that run side by side.

A task joins a batch if its claims are precise and share no file name with those of any task
already there.  Names are compared as they are spelled; `Clash` says when two claims that are
spelled differently still cover a common path.
-/
import Mathlib.Data.List.Sort
import AlysisCode.Library.Runs
import AlysisCode.Plan.Overlap

namespace AlysisCode.Plan

open Text

/-- A task as the scheduler sees it, with the claims of its `write_scope` and
`estimated_files`. -/
structure TaskCandidate where
  taskId : String
  (claimedPatterns claimedFiles ambiguousPatterns : List (List Char))
  parallelGroup : String
  deriving DecidableEq

/-- `_to_candidate`, with `_normalize_claimed_patterns`. -/
def toCandidate (task : PlanTask) : TaskCandidate :=
  let claimed := normalizeClaimedScopePatterns task
  let precise := claimed.filter isExplicitRepoPathPattern
  { taskId := task.taskId
    claimedPatterns := claimed
    claimedFiles := precise
    ambiguousPatterns := claimed.filter fun item => !precise.contains item
    parallelGroup := strip task.parallelGroup }

def previewItems (values : List String) (limit : Nat) : String :=
  if values.isEmpty then "(none)"
  else if values.length ≤ limit then ", ".intercalate values
  else ", ".intercalate (values.take limit) ++ s!", +{values.length - limit} more"

/-- Three of the claims, in order. -/
def previewSorted (claims : List (List Char)) : String :=
  previewItems ((claims.map String.ofList).insertionSort (· ≤ ·)) 3

namespace TaskCandidate

variable (c : TaskCandidate)

def hasPreciseClaimedScope : Bool := !c.claimedFiles.isEmpty && c.ambiguousPatterns.isEmpty

def claimedScopeReason : String :=
  if c.claimedPatterns.isEmpty then
    "missing claimed write scope metadata (estimated_files/write_scope)"
  else if !c.ambiguousPatterns.isEmpty then
    s!"ambiguous claimed scope: {previewItems (c.ambiguousPatterns.map String.ofList) 3}"
  else s!"precise claimed scope: {previewSorted c.claimedFiles}"

end TaskCandidate

def pairSafe (a b : TaskCandidate) : Bool × String :=
  if !a.hasPreciseClaimedScope then (false, a.claimedScopeReason)
  else if !b.hasPreciseClaimedScope then (false, b.claimedScopeReason)
  else
    let overlap := a.claimedFiles.filter b.claimedFiles.contains
    if !overlap.isEmpty then (false, s!"claimed scope overlap: {previewSorted overlap}")
    else if a.parallelGroup ≠ "" ∧ b.parallelGroup ≠ "" ∧ a.parallelGroup = b.parallelGroup then
      (false, s!"same parallel_group: {a.parallelGroup}")
    else (true, "claimed scopes disjoint")

/-- A batch, with what `runnable_by_id` holds for its `task_ids`. -/
structure Batch where
  index : Nat
  tasks : List TaskCandidate
  reasons : List String
  deriving DecidableEq

def joinReasons (candidate : TaskCandidate) : List TaskCandidate → Except String (List String)
  | [] => .ok []
  | existing :: rest =>
    match pairSafe candidate existing with
    | (false, reason) => .error s!"blocked by {existing.taskId}: {reason}"
    | (true, reason) => do
      let reasons ← joinReasons candidate rest
      .ok (s!"{existing.taskId}: {reason}" :: reasons)

/-- Put a candidate into the first batch that has room and is safe, if there is one; with the
blockers met on the way.  `found` is what its id finds again. -/
def joinBatch (parallel : Nat) (candidate found : TaskCandidate) :
    List Batch → List String → Option (List Batch) × List String
  | [], blockers => (none, blockers)
  | batch :: rest, blockers =>
    if parallel ≤ batch.tasks.length then
      let (placed, blockers) := joinBatch parallel candidate found rest blockers
      (placed.map (batch :: ·), blockers)
    else
      match joinReasons candidate batch.tasks with
      | .ok reasons =>
        let joined := ", ".intercalate reasons
        (some ({ batch with
            tasks := batch.tasks ++ [found]
            reasons := batch.reasons ++ [s!"{candidate.taskId} joined batch: {joined}"] } :: rest),
          blockers)
      | .error blocker =>
        let (placed, blockers) := joinBatch parallel candidate found rest (blockers ++ [blocker])
        (placed.map (batch :: ·), blockers)

/-- Why a candidate starts a batch of its own. -/
def startReason (candidate : TaskCandidate) (blockers : List String) : String :=
  if !candidate.hasPreciseClaimedScope then
    s!"{candidate.taskId} runs alone: {candidate.claimedScopeReason}"
  else if !blockers.isEmpty then
    s!"{candidate.taskId} starts new batch: {previewItems blockers 2}"
  else s!"{candidate.taskId} starts new batch: {candidate.claimedScopeReason}"

/-- `runnable_by_id[candidate.task_id]`: of candidates with one id, the dictionary keeps the
last. -/
def runnableById (runnable : List TaskCandidate) (candidate : TaskCandidate) : TaskCandidate :=
  (runnable.reverse.find? (·.taskId == candidate.taskId)).getD candidate

/-- One round of the loop of `build_batches`. -/
def placeCandidate (runnable : List TaskCandidate) (parallel : Nat) (batches : List Batch)
    (candidate : TaskCandidate) : List Batch :=
  let found := runnableById runnable candidate
  let (placed, blockers) :=
    if candidate.hasPreciseClaimedScope then joinBatch parallel candidate found batches []
    else (none, [])
  placed.getD (batches ++ [{ index := batches.length + 1
                             tasks := [found]
                             reasons := [startReason candidate blockers] }])

/-- `sorted(runnable, key=lambda c: (not c.has_precise_claimed_scope, c.task_id))`. -/
def inOrder (a b : TaskCandidate) : Bool :=
  if a.hasPreciseClaimedScope = b.hasPreciseClaimedScope then a.taskId ≤ b.taskId
  else a.hasPreciseClaimedScope

def buildBatches (runnable : List TaskCandidate) (parallel : Int) : List Batch :=
  let parallel := if parallel ≤ 0 then 1 else parallel.toNat
  (runnable.insertionSort (inOrder · ·)).foldl (placeCandidate runnable parallel) []

/-! ### What a candidate claims -/

theorem names_of_precise {task : PlanTask} (h : (toCandidate task).hasPreciseClaimedScope = true) :
    ∀ q ∈ (toCandidate task).claimedPatterns, ∃ n, Names q n := by
  intro q hq
  have hambiguous : (toCandidate task).ambiguousPatterns = [] := by
    rw [TaskCandidate.hasPreciseClaimedScope, Bool.and_eq_true] at h
    exact List.isEmpty_iff.mp h.2
  have hprecise : q ∈ (normalizeClaimedScopePatterns task).filter isExplicitRepoPathPattern := by
    have hkept := List.filter_eq_nil_iff.mp hambiguous q hq
    simpa using hkept
  exact isExplicitRepoPathPattern_iff.mp (List.mem_filter.mp hprecise).2

/-! ### What a batch holds -/

theorem precise_of_pairSafe {a b : TaskCandidate} (h : (pairSafe a b).1 = true) :
    b.hasPreciseClaimedScope = true := by
  unfold pairSafe at h
  split at h
  · cases h
  · split at h
    · cases h
    · rename_i hb
      simpa using hb

theorem precise_of_joinReasons {candidate : TaskCandidate} {tasks : List TaskCandidate}
    {reasons : List String} (h : joinReasons candidate tasks = .ok reasons) :
    ∀ c ∈ tasks, c.hasPreciseClaimedScope = true := by
  induction tasks generalizing reasons with
  | nil => simp
  | cons existing rest ih =>
    unfold joinReasons at h
    split at h
    · cases h
    · rename_i reason hsafe
      obtain ⟨later, hlater, -⟩ := Runs.bind_eq_ok.mp h
      intro c hc
      rcases List.mem_cons.mp hc with rfl | hc
      · exact precise_of_pairSafe (congrArg Prod.fst hsafe)
      · exact ih hlater c hc

/-- What every batch of `build_batches` keeps: a candidate is alone, or all are precise. -/
structure Batch.Ok (runnable : List TaskCandidate) (batch : Batch) : Prop where
  known : ∀ c ∈ batch.tasks, c ∈ runnable
  precise : (∃ c, batch.tasks = [c]) ∨ ∀ c ∈ batch.tasks, c.hasPreciseClaimedScope = true

section

variable {runnable : List TaskCandidate} {candidate : TaskCandidate}

theorem Batch.Ok.join {batch : Batch} (h : batch.Ok runnable) (hcand : candidate ∈ runnable)
    (hprecise : candidate.hasPreciseClaimedScope = true) {reasons : List String}
    (hjoin : joinReasons candidate batch.tasks = .ok reasons) (reasons' : List String) :
    Batch.Ok runnable { batch with tasks := batch.tasks ++ [candidate], reasons := reasons' } where
  known := by
    intro c hc
    rcases List.mem_append.mp hc with hc | hc
    · exact h.known c hc
    · rw [List.mem_singleton.mp hc]
      exact hcand
  precise := by
    right
    intro c hc
    rcases List.mem_append.mp hc with hc | hc
    · exact precise_of_joinReasons hjoin c hc
    · rw [List.mem_singleton.mp hc]
      exact hprecise

theorem joinBatch_ok {parallel : Nat} (hcand : candidate ∈ runnable)
    (hprecise : candidate.hasPreciseClaimedScope = true) {batches placed : List Batch}
    {blockers : List String}
    (h : (joinBatch parallel candidate candidate batches blockers).1 = some placed)
    (hall : ∀ batch ∈ batches, batch.Ok runnable) : ∀ batch ∈ placed, batch.Ok runnable := by
  induction batches generalizing placed blockers with
  | nil => cases h
  | cons first rest ih =>
    have hfirst := hall first List.mem_cons_self
    have hrest := fun batch hb => hall batch (List.mem_cons_of_mem first hb)
    -- the candidate goes into a later batch
    have hlater : ∀ blockers, (joinBatch parallel candidate candidate rest blockers).1.map
        (first :: ·) = some placed → ∀ batch ∈ placed, batch.Ok runnable := by
      intro blockers hplaced
      obtain ⟨later, hjoin, rfl⟩ := Option.map_eq_some_iff.mp hplaced
      rw [List.forall_mem_cons]
      exact ⟨hfirst, ih hjoin hrest⟩
    unfold joinBatch at h
    split at h
    · exact hlater _ h
    · split at h
      · rename_i reasons hjoin
        rw [← Option.some.inj h, List.forall_mem_cons]
        exact ⟨hfirst.join hcand hprecise hjoin _, hrest⟩
      · exact hlater _ h

theorem runnableById_eq (hids : (runnable.map (·.taskId)).Nodup) (h : candidate ∈ runnable) :
    runnableById runnable candidate = candidate := by
  unfold runnableById
  cases hfind : runnable.reverse.find? (·.taskId == candidate.taskId) with
  | none => rfl
  | some c =>
    have hmem : c ∈ runnable := List.mem_reverse.mp (List.mem_of_find?_eq_some hfind)
    have hid : c.taskId = candidate.taskId := by simpa using List.find?_some hfind
    exact List.inj_on_of_nodup_map hids hmem h hid

theorem placeCandidate_ok (hids : (runnable.map (·.taskId)).Nodup) (hcand : candidate ∈ runnable)
    {parallel : Nat} {batches : List Batch} (hall : ∀ batch ∈ batches, batch.Ok runnable) :
    ∀ batch ∈ placeCandidate runnable parallel batches candidate, batch.Ok runnable := by
  have hnew : ∀ index reasons, Batch.Ok runnable ⟨index, [candidate], reasons⟩ := by
    intro index reasons
    exact ⟨by simpa using hcand, .inl ⟨candidate, rfl⟩⟩
  have hstart : ∀ index reasons, ∀ batch ∈ batches ++ [⟨index, [candidate], reasons⟩],
      batch.Ok runnable := by
    intro index reasons batch hbatch
    rcases List.mem_append.mp hbatch with hbatch | hbatch
    · exact hall batch hbatch
    · rw [List.mem_singleton.mp hbatch]
      exact hnew index reasons
  unfold placeCandidate
  rw [runnableById_eq hids hcand]
  dsimp only
  split
  · rename_i hprecise
    cases hjoin : (joinBatch parallel candidate candidate batches []).1 with
    | none => exact hstart _ _
    | some placed => exact joinBatch_ok hcand hprecise hjoin hall
  · exact hstart _ _

theorem buildBatches_ok (hids : (runnable.map (·.taskId)).Nodup) (parallel : Int) :
    ∀ batch ∈ buildBatches runnable parallel, batch.Ok runnable := by
  have hrounds : ∀ (cands : List TaskCandidate) (limit : Nat) (batches : List Batch),
      (∀ c ∈ cands, c ∈ runnable) → (∀ batch ∈ batches, batch.Ok runnable) →
      ∀ batch ∈ cands.foldl (placeCandidate runnable limit) batches, batch.Ok runnable := by
    intro cands limit
    induction cands with
    | nil => exact fun batches _ hall => hall
    | cons c rest ih =>
      intro batches hcands hall
      rw [List.forall_mem_cons] at hcands
      exact ih _ hcands.2 (placeCandidate_ok hids hcands.1 hall)
  refine hrounds _ _ [] (fun c hc => ?_) (by simp)
  exact (List.mem_insertionSort _).mp hc

end

/-! ### Scopes of one batch -/

def InScope (root : Root) (path : List Char) (c : TaskCandidate) : Prop :=
  ∃ q ∈ c.claimedPatterns, scopePathMatchesPattern root path q = true

instance (root : Root) (path : List Char) (c : TaskCandidate) : Decidable (InScope root path c) :=
  inferInstanceAs (Decidable (∃ q ∈ c.claimedPatterns, _))

/-- **Two tasks of one batch share no path if and only if no two of their claims clash.** -/
theorem batch_scopes_disjoint_iff (tasks : List PlanTask)
    (hids : (tasks.map (·.taskId)).Nodup) (parallel : Int) (root : Root) {batch : Batch}
    (hbatch : batch ∈ buildBatches (tasks.map toCandidate) parallel) {a b : TaskCandidate}
    (ha : a ∈ batch.tasks) (hb : b ∈ batch.tasks) (hab : a ≠ b) :
    (¬ ∃ path, InScope root path a ∧ InScope root path b) ↔
      ∀ q₁ ∈ a.claimedPatterns, ∀ q₂ ∈ b.claimedPatterns, ∀ n ∈ normalizeRepoPathEntry q₁,
        ∀ m ∈ normalizeRepoPathEntry q₂, ¬ Clash root n m := by
  have hids' : ((tasks.map toCandidate).map (·.taskId)).Nodup := by
    rw [List.map_map]
    exact hids
  have hok := buildBatches_ok hids' parallel batch hbatch
  have hnames : ∀ c ∈ batch.tasks, ∀ q ∈ c.claimedPatterns, ∃ n, Names q n := by
    rcases hok.precise with ⟨c, hone⟩ | hprecise
    · rw [hone, List.mem_singleton] at ha hb
      exact absurd (ha.trans hb.symm) hab
    · intro c hc
      obtain ⟨task, -, rfl⟩ := List.mem_map.mp (hok.known c hc)
      exact names_of_precise (hprecise _ hc)
  constructor
  · intro h q₁ hq₁ q₂ hq₂ n hn m hm hclash
    obtain ⟨n', hn'⟩ := hnames a ha q₁ hq₁
    obtain ⟨m', hm'⟩ := hnames b hb q₂ hq₂
    obtain rfl : n' = n := Option.some.inj (hn'.1.symm.trans hn)
    obtain rfl : m' = m := Option.some.inj (hm'.1.symm.trans hm)
    obtain ⟨path, hpath₁, hpath₂⟩ := (overlap_iff hn' hm').mpr hclash
    exact h ⟨path, ⟨q₁, hq₁, hpath₁⟩, ⟨q₂, hq₂, hpath₂⟩⟩
  · rintro h ⟨path, ⟨q₁, hq₁, hpath₁⟩, ⟨q₂, hq₂, hpath₂⟩⟩
    obtain ⟨n, hn⟩ := hnames a ha q₁ hq₁
    obtain ⟨m, hm⟩ := hnames b hb q₂ hq₂
    exact h q₁ hq₁ q₂ hq₂ n hn.1 m hm.1 ((overlap_iff hn hm).mp ⟨path, hpath₁, hpath₂⟩)

def claiming (id : String) (files : List String) : PlanTask := { id, estimatedFiles := files }

theorem batch_scopes_disjoint_iff_files :
    (¬ ∃ path, InScope none path (toCandidate (claiming "T01" ["src/a.py"])) ∧
      InScope none path (toCandidate (claiming "T02" ["src/b.py"]))) ↔
      ∀ q₁ ∈ ["src/a.py".toList], ∀ q₂ ∈ ["src/b.py".toList], ∀ n ∈ normalizeRepoPathEntry q₁,
        ∀ m ∈ normalizeRepoPathEntry q₂, ¬ Clash none n m := by
  have hbatch : (⟨1, [toCandidate (claiming "T01" ["src/a.py"]),
      toCandidate (claiming "T02" ["src/b.py"])],
      ["T01 starts new batch: precise claimed scope: src/a.py",
        "T02 joined batch: T01: claimed scopes disjoint"]⟩ : Batch) ∈
      buildBatches ([claiming "T01" ["src/a.py"], claiming "T02" ["src/b.py"]].map toCandidate)
        2 := by decide +kernel
  exact batch_scopes_disjoint_iff _ (by decide +kernel) 2 none hbatch (by decide +kernel)
    (by decide +kernel) (by decide +kernel)

/-- A directory and a file in it are claimed side by side. -/
theorem batch_scopes_overlap :
    ∃ batch ∈ buildBatches ([claiming "T01" ["src/pkg"], claiming "T02" ["src/pkg/mod.py"]].map
        toCandidate) 2,
      toCandidate (claiming "T01" ["src/pkg"]) ∈ batch.tasks ∧
        toCandidate (claiming "T02" ["src/pkg/mod.py"]) ∈ batch.tasks ∧
        InScope (some (· == "src/pkg".toList)) "src/pkg/mod.py".toList
          (toCandidate (claiming "T01" ["src/pkg"])) ∧
        InScope (some (· == "src/pkg".toList)) "src/pkg/mod.py".toList
          (toCandidate (claiming "T02" ["src/pkg/mod.py"])) := by
  decide +kernel

end AlysisCode.Plan
