/-
The batches are a partition of the runnable tasks.

A round puts its candidate into one batch or starts one, so what the batches hold is what the
rounds have placed.  A candidate that joins is safe with everything in the batch, and the order
of the rounds is that of the ids, whatever order the tasks came in.
-/
import AlysisCode.Plan.Batches

namespace AlysisCode.Plan

variable {candidate : TaskCandidate}

/-! ### Safe pairs -/

variable {a b : TaskCandidate} {limit : Nat} {runnable : List TaskCandidate}

theorem pairSafe_iff : (pairSafe a b).1 = true ↔
      a.hasPreciseClaimedScope = true ∧ b.hasPreciseClaimedScope = true ∧
        (∀ file ∈ a.claimedFiles, file ∉ b.claimedFiles) ∧
        ¬(a.parallelGroup ≠ "" ∧ b.parallelGroup ≠ "" ∧ a.parallelGroup = b.parallelGroup) := by
  have hoverlap : (!(a.claimedFiles.filter b.claimedFiles.contains).isEmpty) = false ↔
      ∀ file ∈ a.claimedFiles, file ∉ b.claimedFiles := by simp
  unfold pairSafe
  by_cases ha : a.hasPreciseClaimedScope = true
  · by_cases hb : b.hasPreciseClaimedScope = true
    · rw [if_neg (by simp [ha]), if_neg (by simp [hb])]
      dsimp only
      cases hover : !(a.claimedFiles.filter b.claimedFiles.contains).isEmpty with
      | true =>
        rw [if_pos rfl, ← hoverlap, hover]
        simp
      | false =>
        rw [if_neg (by simp)]
        have hdisjoint := hoverlap.mp hover
        split
        · rename_i hgroup
          simp [hgroup]
        · rename_i hgroup
          exact ⟨fun _ => ⟨ha, hb, hdisjoint, hgroup⟩, fun _ => rfl⟩
    · rw [if_neg (by simp [ha]), if_pos (by simp [hb])]
      simp [hb]
  · rw [if_pos (by simp [ha])]
    simp [ha]

theorem pairSafe_symm (h : (pairSafe a b).1 = true) : (pairSafe b a).1 = true := by
  obtain ⟨ha, hb, hdisjoint, hgroup⟩ := pairSafe_iff.mp h
  refine pairSafe_iff.mpr ⟨hb, ha, fun file hfile hfile' => hdisjoint file hfile' hfile, ?_⟩
  rintro ⟨hb', ha', hsame⟩
  exact hgroup ⟨ha', hb', hsame.symm⟩

variable {runnable' : List TaskCandidate} {batches : List Batch} {reasons : List String}

theorem pairSafe_of_joinReasons {tasks : List TaskCandidate}
    (h : joinReasons candidate tasks = .ok reasons) :
    ∀ task ∈ tasks, (pairSafe candidate task).1 = true := by
  induction tasks generalizing reasons with
  | nil => simp
  | cons existing rest ih =>
    unfold joinReasons at h
    split at h
    · cases h
    · rename_i reason hsafe
      obtain ⟨later, hlater, -⟩ := Runs.bind_eq_ok.mp h
      rw [List.forall_mem_cons]
      exact ⟨congrArg Prod.fst hsafe, ih hlater⟩

/-! ### A round -/

theorem joinBatch_some {found : TaskCandidate} {placed : List Batch} {blockers : List String}
    (h : (joinBatch limit candidate found batches blockers).1 = some placed) :
    ∃ before batch after reasons, batches = before ++ batch :: after ∧
      placed = before ++ { batch with tasks := batch.tasks ++ [found], reasons := reasons } ::
        after ∧
      batch.tasks.length < limit ∧ ∀ task ∈ batch.tasks, (pairSafe candidate task).1 = true := by
  induction batches generalizing placed blockers with
  | nil => cases h
  | cons first rest ih =>
    have hlater (blockers : List String) (hplaced : (joinBatch limit candidate found rest
        blockers).1.map (first :: ·) = some placed) :
        ∃ before batch after reasons, first :: rest = before ++ batch :: after ∧
          placed = before ++ { batch with
            tasks := batch.tasks ++ [found], reasons := reasons } :: after ∧
          batch.tasks.length < limit ∧
          ∀ task ∈ batch.tasks, (pairSafe candidate task).1 = true := by
      obtain ⟨later, hjoin, rfl⟩ := Option.map_eq_some_iff.mp hplaced
      obtain ⟨before, batch, after, reasons, rfl, rfl, hroom, hsafe⟩ := ih hjoin
      exact ⟨first :: before, batch, after, reasons, rfl, rfl, hroom, hsafe⟩
    unfold joinBatch at h
    split at h
    · exact hlater _ h
    · rename_i hroom
      split at h
      · rename_i reasons hjoin
        rw [← Option.some.inj h]
        exact ⟨[], first, rest, _, rfl, rfl, Nat.lt_of_not_le hroom, pairSafe_of_joinReasons hjoin⟩
      · exact hlater _ h

theorem placeCandidate_cases {runnable : List TaskCandidate} {limit : Nat}
    {batches : List Batch} (hfound : runnableById runnable candidate = candidate) :
    (∃ before batch after reasons, batches = before ++ batch :: after ∧
      placeCandidate runnable limit batches candidate =
        before ++ { batch with tasks := batch.tasks ++ [candidate], reasons := reasons } :: after ∧
      batch.tasks.length < limit ∧ candidate.hasPreciseClaimedScope = true ∧
      ∀ task ∈ batch.tasks, (pairSafe candidate task).1 = true) ∨
    ∃ reasons, placeCandidate runnable limit batches candidate =
      batches ++ [⟨batches.length + 1, [candidate], reasons⟩] := by
  unfold placeCandidate
  rw [hfound]
  dsimp only
  split
  · rename_i hprecise
    cases hjoin : (joinBatch limit candidate candidate batches []).1 with
    | none => exact .inr ⟨_, rfl⟩
    | some placed =>
      obtain ⟨before, batch, after, reasons, hbatches, hplaced, hroom, hsafe⟩ :=
        joinBatch_some hjoin
      exact .inl ⟨before, batch, after, reasons, hbatches, hplaced, hroom, hprecise, hsafe⟩
  · exact .inr ⟨_, rfl⟩

/-! ### What the rounds keep -/

/-- What a batch owes. -/
structure Batch.Safe (limit : Nat) (batch : Batch) : Prop where
  nonempty : 1 ≤ batch.tasks.length
  room : batch.tasks.length ≤ limit
  pairwise : batch.tasks.Pairwise fun a b => (pairSafe a b).1 = true ∧ (pairSafe b a).1 = true
  alone : ∀ task ∈ batch.tasks, task.hasPreciseClaimedScope = false → batch.tasks = [task]

structure Partition (limit : Nat) (placed : List TaskCandidate) (batches : List Batch) :
    Prop where
  perm : (batches.flatMap (·.tasks)).Perm placed
  safe : ∀ batch ∈ batches, batch.Safe limit
  numbered : batches.map (·.index) = List.range' 1 batches.length

theorem Batch.Safe.join {batch : Batch} (h : batch.Safe limit) (hroom : batch.tasks.length < limit)
    (hprecise : candidate.hasPreciseClaimedScope = true)
    (hsafe : ∀ task ∈ batch.tasks, (pairSafe candidate task).1 = true) :
    Batch.Safe limit { batch with tasks := batch.tasks ++ [candidate], reasons := reasons } where
  nonempty := by simp
  room := by
    rw [List.length_append, List.length_singleton]
    exact hroom
  pairwise := by
    refine List.pairwise_append.mpr ⟨h.pairwise, List.pairwise_singleton _ _, ?_⟩
    intro task htask c hc
    rw [List.mem_singleton.mp hc]
    exact ⟨pairSafe_symm (hsafe task htask), hsafe task htask⟩
  alone := by
    intro task htask himprecise
    rcases List.mem_append.mp htask with htask | htask
    · rw [precise_of_pairSafe (hsafe task htask)] at himprecise
      cases himprecise
    · rw [List.mem_singleton.mp htask, hprecise] at himprecise
      cases himprecise

theorem Batch.safe_singleton (hlimit : 1 ≤ limit) (index : Nat) (reasons : List String) :
    Batch.Safe limit ⟨index, [candidate], reasons⟩ where
  nonempty := Nat.le_refl 1
  room := hlimit
  pairwise := List.pairwise_singleton _ _
  alone := by
    intro task htask _
    rw [List.mem_singleton.mp htask]

theorem Partition.place {placed : List TaskCandidate} (h : Partition limit placed batches)
    (hlimit : 1 ≤ limit) (hfound : runnableById runnable candidate = candidate) :
    Partition limit (placed ++ [candidate]) (placeCandidate runnable limit batches candidate) := by
  have hcases := @placeCandidate_cases candidate runnable limit batches hfound
  rcases hcases with
    ⟨before, batch, after, reasons, rfl, hplaced, hroom, hprecise, hsafe⟩ | ⟨reasons, hplaced⟩
  · rw [hplaced]
    constructor
    · have hend : (before.flatMap (·.tasks) ++ (batch.tasks ++ [candidate]) ++
          after.flatMap (·.tasks)).Perm ((before ++ batch :: after).flatMap (·.tasks) ++
            [candidate]) := by
        simp only [List.flatMap_append, List.flatMap_cons, List.append_assoc]
        exact (List.perm_append_comm.append_left _).append_left _
      refine List.Perm.trans ?_ (hend.trans (h.perm.append_right _))
      simp
    · intro b hb
      rcases List.mem_append.mp hb with hb | hb
      · exact h.safe b (List.mem_append_left _ hb)
      · rcases List.mem_cons.mp hb with rfl | hb
        · have hbatch := h.safe batch (List.mem_append_right _ List.mem_cons_self)
          exact hbatch.join hroom hprecise hsafe
        · exact h.safe b (List.mem_append_right _ (List.mem_cons_of_mem _ hb))
    · simpa using h.numbered
  · rw [hplaced]
    constructor
    · simpa using h.perm.append_right [candidate]
    · intro b hb
      rcases List.mem_append.mp hb with hb | hb
      · exact h.safe b hb
      · rw [List.mem_singleton.mp hb]
        exact Batch.safe_singleton hlimit _ _
    · rw [List.map_append, h.numbered, List.length_append, List.length_singleton,
        List.range'_concat]
      simp [Nat.add_comm]

theorem Partition.places (hlimit : 1 ≤ limit) (candidates : List TaskCandidate)
    (hfound : ∀ c ∈ candidates, runnableById runnable c = c) :
    ∀ {placed batches}, Partition limit placed batches → Partition limit (placed ++ candidates)
      (candidates.foldl (placeCandidate runnable limit) batches) := by
  induction candidates with
  | nil =>
    intro placed batches h
    simpa using h
  | cons c rest ih =>
    intro placed batches h
    rw [List.forall_mem_cons] at hfound
    have hnext := ih hfound.2 (h.place hlimit hfound.1)
    simpa using hnext

/-! ### The order of the rounds -/

theorem inOrder_total (a b : TaskCandidate) : inOrder a b = true ∨ inOrder b a = true := by
  unfold inOrder
  by_cases h : a.hasPreciseClaimedScope = b.hasPreciseClaimedScope
  · rw [if_pos h, if_pos h.symm]
    simpa using String.le_total a.taskId b.taskId
  · rw [if_neg h, if_neg (Ne.symm h)]
    cases ha : a.hasPreciseClaimedScope with
    | true => exact .inl rfl
    | false =>
      right
      cases hb : b.hasPreciseClaimedScope with
      | true => rfl
      | false => exact absurd (ha.trans hb.symm) h

theorem inOrder_iff :
    inOrder a b = true ↔ (a.hasPreciseClaimedScope = true ∧ b.hasPreciseClaimedScope = false) ∨
      (a.hasPreciseClaimedScope = b.hasPreciseClaimedScope ∧ a.taskId ≤ b.taskId) := by
  unfold inOrder
  cases a.hasPreciseClaimedScope <;> cases b.hasPreciseClaimedScope <;> simp

theorem inOrder_trans {c : TaskCandidate} (hab : inOrder a b = true) (hbc : inOrder b c = true) :
    inOrder a c = true := by
  rw [inOrder_iff] at hab hbc ⊢
  rcases hab with ⟨ha, hb⟩ | ⟨hab, hle⟩
  · rcases hbc with ⟨hb', -⟩ | ⟨hbc, -⟩
    · rw [hb] at hb'
      cases hb'
    · exact .inl ⟨ha, hbc.symm.trans hb⟩
  · rcases hbc with ⟨hb, hc⟩ | ⟨hbc, hle'⟩
    · exact .inl ⟨hab.trans hb, hc⟩
    · exact .inr ⟨hab.trans hbc, String.le_trans hle hle'⟩

theorem taskId_eq_of_inOrder (hab : inOrder a b = true) (hba : inOrder b a = true) :
    a.taskId = b.taskId := by
  rw [inOrder_iff] at hab hba
  rcases hab with ⟨ha, hb⟩ | ⟨hsame, hle⟩
  · rcases hba with ⟨hb', -⟩ | ⟨hsame, -⟩
    · rw [hb] at hb'
      cases hb'
    · rw [ha, hb] at hsame
      cases hsame
  · rcases hba with ⟨hb, ha⟩ | ⟨-, hle'⟩
    · rw [ha, hb] at hsame
      cases hsame
    · exact String.le_antisymm hle hle'

instance : Std.Total fun a b : TaskCandidate => inOrder a b = true := ⟨inOrder_total⟩

instance : IsTrans TaskCandidate fun a b => inOrder a b = true :=
  ⟨fun _ _ _ hab hbc => inOrder_trans hab hbc⟩

theorem insertionSort_eq_of_perm (hids : (runnable.map (·.taskId)).Nodup)
    (h : runnable'.Perm runnable) :
    runnable'.insertionSort (inOrder · ·) = runnable.insertionSort (inOrder · ·) := by
  have hsorted := List.pairwise_insertionSort (fun a b => inOrder a b = true) runnable
  have hsorted' := List.pairwise_insertionSort (fun a b => inOrder a b = true) runnable'
  refine List.Perm.eq_of_pairwise ?_ hsorted' hsorted
    ((List.perm_insertionSort _ _).trans (h.trans (List.perm_insertionSort _ _).symm))
  intro a b ha hb hab hba
  have ha' := h.mem_iff.mp ((List.mem_insertionSort _).mp ha)
  have hb' := (List.mem_insertionSort _).mp hb
  exact List.inj_on_of_nodup_map hids ha' hb' (taskId_eq_of_inOrder hab hba)

theorem foldl_placeCandidate_congr {candidates : List TaskCandidate}
    (hfound : ∀ c ∈ candidates, runnableById runnable c = c)
    (hfound' : ∀ c ∈ candidates, runnableById runnable' c = c) :
    ∀ batches, candidates.foldl (placeCandidate runnable' limit) batches =
      candidates.foldl (placeCandidate runnable limit) batches := by
  induction candidates with
  | nil => exact fun _ => rfl
  | cons c rest ih =>
    intro batches
    rw [List.forall_mem_cons] at hfound hfound'
    have hround : placeCandidate runnable' limit batches c =
        placeCandidate runnable limit batches c := by
      unfold placeCandidate
      rw [hfound.1, hfound'.1]
    rw [List.foldl_cons, List.foldl_cons, hround]
    exact ih hfound.2 hfound'.2 _

/-- **The batches are a partition of the tasks into safe batches of at most `parallel`, and do
not depend on the order of the tasks.** -/
theorem buildBatches_partition (runnable : List TaskCandidate) (parallel : Int)
    (hids : (runnable.map (·.taskId)).Nodup) :
    Partition (max 1 parallel).toNat runnable (buildBatches runnable parallel) ∧
      ∀ runnable' : List TaskCandidate, runnable'.Perm runnable →
        buildBatches runnable' parallel = buildBatches runnable parallel := by
  have hfound : ∀ c ∈ runnable.insertionSort (inOrder · ·), runnableById runnable c = c :=
    fun c hc => runnableById_eq hids ((List.mem_insertionSort _).mp hc)
  constructor
  · have hlimit : (if parallel ≤ 0 then 1 else parallel.toNat) = (max 1 parallel).toNat := by
      split <;> omega
    have hstart : Partition (max 1 parallel).toNat [] [] :=
      ⟨List.Perm.refl _, by simp, rfl⟩
    have hall := hstart.places (by omega) _ hfound
    unfold buildBatches
    rw [hlimit]
    exact ⟨hall.perm.trans (List.perm_insertionSort _ _), hall.safe, hall.numbered⟩
  · intro runnable' h
    have hids' : (runnable'.map (·.taskId)).Nodup := (h.map _).nodup_iff.mpr hids
    unfold buildBatches
    rw [insertionSort_eq_of_perm hids h]
    refine foldl_placeCandidate_congr hfound (fun c hc => ?_) []
    exact runnableById_eq hids' (h.mem_iff.mpr ((List.mem_insertionSort _).mp hc))

/-- Two tasks side by side, given in the other order. -/
theorem buildBatches_partition_swapped :
    Partition 2 [toCandidate (claiming "T02" ["src/b.py"]), toCandidate (claiming "T01" [])]
        (buildBatches [toCandidate (claiming "T02" ["src/b.py"]),
          toCandidate (claiming "T01" [])] 2) ∧
      buildBatches [toCandidate (claiming "T01" []), toCandidate (claiming "T02" ["src/b.py"])] 2 =
        buildBatches [toCandidate (claiming "T02" ["src/b.py"]),
          toCandidate (claiming "T01" [])] 2 := by
  obtain ⟨hpartition, hperm⟩ := buildBatches_partition
    [toCandidate (claiming "T02" ["src/b.py"]), toCandidate (claiming "T01" [])] 2
    (by decide +kernel)
  exact ⟨hpartition, hperm _ (List.Perm.swap _ _ _)⟩

end AlysisCode.Plan
