/-
What one evaluation can do to the best checkpoint and to the files.

Archives stay as they are once they stand at their address, the budget file is written in one
place, and the best checkpoint is replaced only where two snapshots agreed, the archive holds
them and the score is better.
-/
import AlysisCode.Checkpoint.Worker

namespace AlysisCode.Checkpoint

variable {F S B D M : Type} [DecidableEq D]

/-- Every archive that stood at its address still stands there. -/
def Persists (disk disk' : Disk S B D) : Prop :=
  ∀ name content, disk.archives.lookup name = some content →
    disk'.archives.lookup name = some content

theorem Persists.refl (disk : Disk S B D) : Persists disk disk := fun _ _ h => h

section Genuine

variable [Json.Floats F]

/-- The checkpoint is one of the candidate: its outcome was verified and terminal, both walks
through the workspace found the same files, and the archive on the disk holds them. -/
structure Genuine (host : Host F S B D M) (settings : Settings) (call : Call F) (w : Weather B M)
    (disk : Disk S B D) (best : Best S D) : Prop where
  sufficient : call.sufficient = true
  taskId : best.taskId = call.taskId
  acceptanceRevision : best.acceptanceRevision = call.acceptanceRevision
  generation : best.generation = call.generation
  measured : measurement host settings call = some best.objectiveValue
  snapshots : ∃ first second files confirmed omitted modes,
    w.first = .meets first ∧ snapshot settings first = .ok (files, omitted) ∧
      w.second = .meets second ∧ snapshot settings second = .ok (confirmed, omitted) ∧
      (∀ name, files.lookup name = confirmed.lookup name) ∧
      disk.archives.lookup best.archive = some (host.zip files modes)

theorem Genuine.persists {host : Host F S B D M} {settings : Settings} {call : Call F}
    {w : Weather B M} {disk disk' : Disk S B D} {best : Best S D}
    (h : Genuine host settings call w disk best) (hdisk : Persists disk disk') :
    Genuine host settings call w disk' best where
  sufficient := h.sufficient
  taskId := h.taskId
  acceptanceRevision := h.acceptanceRevision
  generation := h.generation
  measured := h.measured
  snapshots := by
    obtain ⟨first, second, files, confirmed, omitted, modes, hfirst, hfiles, hsecond, hconfirmed,
      hsame, harchive⟩ := h.snapshots
    exact ⟨first, second, files, confirmed, omitted, modes, hfirst, hfiles, hsecond, hconfirmed,
      hsame, hdisk _ _ harchive⟩

end Genuine

def Beats [LinearOrder S] (settings : Settings) (new : Best S D)
    (previous : Option (Best S D)) : Prop :=
  ∀ old ∈ previous, better settings.objectiveDirection new.objectiveValue old.objectiveValue = true

/-! ### The archive -/

theorem lookup_eq_of_sameDigests {host : Host F S B D M}
    (hdigest : Function.Injective host.digest) {files confirmed : List (String × B)}
    (h : sameDigests host files confirmed = true) (name : String) :
    files.lookup name = confirmed.lookup name := by
  have hmem {fs : List (String × B)} {content : B} (hfs : fs.lookup name = some content) :
      (name, content) ∈ fs := by
    obtain ⟨before, after, rfl, -⟩ := List.lookup_eq_some_iff.mp hfs
    simp
  have hfound {fs gs : List (String × B)} (hall : fs.all (fun f =>
      (gs.lookup f.1).map host.digest == some (host.digest f.2)) = true) {content : B}
      (hfs : fs.lookup name = some content) : gs.lookup name = some content := by
    have hdigests := List.all_eq_true.mp hall _ (hmem hfs)
    rw [beq_iff_eq] at hdigests
    obtain ⟨other, hother, heq⟩ := Option.map_eq_some_iff.mp hdigests
    rw [hother, hdigest heq]
  unfold sameDigests at h
  rw [Bool.and_eq_true] at h
  cases hfiles : files.lookup name with
  | some content => exact (hfound h.1 hfiles).symm
  | none =>
    cases hconfirmed : confirmed.lookup name with
    | none => rfl
    | some content =>
      have hback := hfound h.2 hconfirmed
      rw [hfiles] at hback
      cases hback

theorem storeArchive_spec (host : Host F S B D M) (hdigest : Function.Injective host.digest)
    (w : Weather B M) (disk : Disk S B D) (data : B) :
    (storeArchive host w disk data).1.budgets = disk.budgets ∧
      Persists disk (storeArchive host w disk data).1 ∧
      ((storeArchive host w disk data).2 = .works →
        (storeArchive host w disk data).1.archives.lookup (host.digest data) = some data) := by
  have hleave (left : Option B) (hnone : disk.archives.lookup (host.digest data) = none) :
      (disk.leave (host.digest data) left).budgets = disk.budgets ∧
        Persists disk (disk.leave (host.digest data) left) := by
    cases left with
    | none => exact ⟨rfl, Persists.refl disk⟩
    | some content =>
      refine ⟨rfl, fun name other hname => ?_⟩
      show List.lookup name ((host.digest data, content) :: disk.archives) = some other
      rw [List.lookup_cons]
      split
      · rename_i heq
        rw [beq_iff_eq] at heq
        rw [heq, hnone] at hname
        cases hname
      · exact hname
  unfold storeArchive
  split
  · rename_i hnone
    split
    · refine ⟨(hleave _ hnone).1, (hleave _ hnone).2, fun _ => ?_⟩
      show List.lookup (host.digest data) ((host.digest data, data) :: disk.archives) = some data
      rw [List.lookup_cons, beq_self_eq_true]
    · exact ⟨(hleave _ hnone).1, (hleave _ hnone).2, fun h => by cases h⟩
    · exact ⟨(hleave _ hnone).1, (hleave _ hnone).2, fun h => by cases h⟩
  · rename_i content hcontent
    split
    · split
      · exact ⟨rfl, Persists.refl disk, fun h => by cases h⟩
      · rename_i hsame
        refine ⟨rfl, Persists.refl disk, fun _ => ?_⟩
        rw [hcontent, hdigest (not_not.mp hsame)]
    · rename_i hfate
      exact ⟨rfl, Persists.refl disk, fun h => absurd h hfate⟩

/-! ### An evaluation -/

omit [DecidableEq D] in
theorem State.retains_answers {s : State S D} {status : Status} {s' : State S D}
    {event : Option (Event S D)} (h : s.retains status = .answers s' event) :
    s' = s ∧ event = some ⟨status, s.best⟩ := by
  obtain ⟨rfl, rfl⟩ := Worker.answers.inj h
  exact ⟨rfl, rfl⟩

variable [Json.Floats F] [LinearOrder S]

/-- What a worker that was let through may have done when it ends. -/
structure Examined (host : Host F S B D M) (settings : Settings) (call : Call F) (w : Weather B M)
    (s : State S D) (disk : Disk S B D) (result : Disk S B D × Worker S D) : Prop where
  budgets : result.1.budgets = disk.budgets
  archives : Persists disk result.1
  attempted : ∀ s' event, result.2 = .answers s' event → s'.attempted = s.attempted ∧
    s'.taskId = s.taskId ∧ s'.acceptanceRevision = s.acceptanceRevision
  best : ∀ s' event, result.2 = .answers s' event →
    (s'.best = s.best ∧ ∀ e ∈ event, e.status ≠ .verifiedCheckpointPreserved) ∨
      ∃ new, s'.best = some new ∧ event = some ⟨.verifiedCheckpointPreserved, some new⟩ ∧
        Beats settings new s.best ∧ Genuine host settings call w result.1 new

section Examined

variable {host : Host F S B D M} {settings : Settings} {call : Call F} {w : Weather B M}
  {s : State S D} {disk disk' : Disk S B D}

theorem examined_killed (hbudgets : disk'.budgets = disk.budgets) (hdisk : Persists disk disk') :
    Examined host settings call w s disk (disk', .killed) :=
  ⟨hbudgets, hdisk, fun _ _ h => (by cases h), fun _ _ h => (by cases h)⟩

theorem examined_retains {status : Status} (hstatus : status ≠ .verifiedCheckpointPreserved)
    (hbudgets : disk'.budgets = disk.budgets) (hdisk : Persists disk disk') :
    Examined host settings call w s disk (disk', s.retains status) := by
  refine ⟨hbudgets, hdisk, fun s' event h => ?_, fun s' event h => ?_⟩
  · obtain ⟨rfl, -⟩ := State.retains_answers h
    exact ⟨rfl, rfl, rfl⟩
  · obtain ⟨rfl, rfl⟩ := State.retains_answers h
    refine .inl ⟨rfl, fun e he => ?_⟩
    rw [← Option.some.inj he]
    exact hstatus

theorem examined_nothing : Examined host settings call w s disk (disk, .answers s none) := by
  refine ⟨rfl, Persists.refl disk, fun s' event h => ?_, fun s' event h => ?_⟩
  · obtain ⟨rfl, -⟩ := Worker.answers.inj h
    exact ⟨rfl, rfl, rfl⟩
  · obtain ⟨rfl, rfl⟩ := Worker.answers.inj h
    exact .inl ⟨rfl, fun e he => by cases he⟩

/-- What publishing starts from. -/
structure Confirmed (host : Host F S B D M) (settings : Settings) (call : Call F)
    (w : Weather B M) (s : State S D) (score : Option S) (omitted : List String) (data : B) :
    Prop where
  sufficient : call.sufficient = true
  revision : s.acceptanceRevision = call.acceptanceRevision
  measured : measurement host settings call = some score
  beats : ∀ old ∈ s.best, better settings.objectiveDirection score old.objectiveValue = true
  snapshots : ∃ first second files confirmed modes,
    w.first = .meets first ∧ snapshot settings first = .ok (files, omitted) ∧
      w.second = .meets second ∧ snapshot settings second = .ok (confirmed, omitted) ∧
      (∀ name, files.lookup name = confirmed.lookup name) ∧ data = host.zip files modes

variable {score : Option S}

theorem publish_examined (hdigest : Function.Injective host.digest) {omitted : List String}
    {data : B} (h : Confirmed host settings call w s score omitted data) :
    Examined host settings call w s disk
      (publish host settings call w s score omitted data disk) := by
  obtain ⟨hbudgets, hdisk, hstored⟩ := storeArchive_spec host hdigest w disk data
  unfold publish
  split
  · rename_i stored effect heq
    rw [heq] at hbudgets hdisk
    exact examined_killed hbudgets hdisk
  · rename_i stored reason effect heq
    rw [heq] at hbudgets hdisk
    exact examined_retains (by simp) hbudgets hdisk
  · rename_i stored heq
    rw [heq] at hbudgets hdisk hstored
    split
    · exact examined_killed hbudgets hdisk
    · exact examined_retains (by simp) hbudgets hdisk
    · have hindexed : (w.indexWrite.apply stored (stored.writeIndex
          (newBest host settings call s score omitted data))).budgets = disk.budgets ∧
          (w.indexWrite.apply stored (stored.writeIndex
            (newBest host settings call s score omitted data))).archives = stored.archives := by
        unfold Fate.apply
        split
        · exact ⟨hbudgets, rfl⟩
        · split <;> exact ⟨hbudgets, rfl⟩
        · split <;> exact ⟨hbudgets, rfl⟩
      have hpersists : Persists disk (w.indexWrite.apply stored (stored.writeIndex
          (newBest host settings call s score omitted data))) := by
        intro name content hname
        rw [hindexed.2]
        exact hdisk name content hname
      split
      · exact examined_killed hindexed.1 hpersists
      · exact examined_retains (by simp) hindexed.1 hpersists
      · refine ⟨hindexed.1, hpersists, fun s' event heq => ?_, fun s' event heq => ?_⟩
        · obtain ⟨rfl, -⟩ := Worker.answers.inj heq
          exact ⟨rfl, rfl, rfl⟩
        · obtain ⟨rfl, rfl⟩ := Worker.answers.inj heq
          obtain ⟨first, second, files, confirmed, modes, hfirst, hfiles, hsecond, hconfirmed,
            hsame, hdata⟩ := h.snapshots
          refine .inr ⟨_, rfl, rfl, h.beats, ?_⟩
          exact {
            sufficient := h.sufficient
            taskId := rfl
            acceptanceRevision := h.revision
            generation := rfl
            measured := h.measured
            snapshots := by
              refine ⟨first, second, files, confirmed, omitted, modes, hfirst, hfiles, hsecond,
                hconfirmed, hsame, ?_⟩
              rw [hindexed.2, ← hdata]
              exact hstored rfl }

theorem preserve_examined (hdigest : Function.Injective host.digest)
    (hsufficient : call.sufficient = true)
    (hrevision : s.acceptanceRevision = call.acceptanceRevision)
    (hmeasured : measurement host settings call = some score)
    (hbeats : ∀ old ∈ s.best, better settings.objectiveDirection score old.objectiveValue = true) :
    Examined host settings call w s disk (preserve host settings call w s score disk) := by
  have hdisk := Persists.refl disk
  unfold preserve
  split
  · exact examined_killed rfl hdisk
  · exact examined_retains (by simp) rfl hdisk
  rename_i first hfirst
  split
  · exact examined_retains (by simp) rfl hdisk
  rename_i files omitted hfiles
  split
  · exact examined_nothing
  split
  · exact examined_killed rfl hdisk
  · exact examined_retains (by simp) rfl hdisk
  rename_i second hsecond
  split
  · exact examined_retains (by simp) rfl hdisk
  rename_i confirmed confirmedOmitted hconfirmed
  split
  · exact examined_retains (by simp) rfl hdisk
  rename_i hagree
  rw [not_or, not_not] at hagree
  obtain ⟨rfl, hsame⟩ := hagree
  split
  · exact examined_retains (by simp) rfl hdisk
  rename_i modes _
  exact publish_examined hdigest ⟨hsufficient, hrevision, hmeasured, hbeats, first, second, files,
    confirmed, modes, hfirst, hfiles, hsecond, hconfirmed,
    lookup_eq_of_sameDigests hdigest (by simpa using hsame), rfl⟩

/-- **An evaluation replaces the best checkpoint only by a genuine one that beats it.** -/
theorem examine_examined (hdigest : Function.Injective host.digest)
    (hrevision : s.acceptanceRevision = call.acceptanceRevision)
    (hmeasured : measurement host settings call = some score) :
    Examined host settings call w s disk (examine host settings call w s score disk) := by
  have hdisk := Persists.refl disk
  unfold examine
  split
  · exact examined_retains (by simp) rfl hdisk
  rename_i hsufficient
  split
  · exact examined_retains (by simp) rfl hdisk
  rename_i hbeats
  split
  · exact examined_retains (by simp) rfl hdisk
  split
  · exact examined_retains (by simp) rfl hdisk
  refine preserve_examined hdigest (by simpa using hsufficient) hrevision hmeasured ?_
  intro old hold
  rw [Option.mem_def] at hold
  simpa [hold] using hbeats

end Examined

/-! ### The way to an evaluation -/

section Gate

variable {host : Host F S B D M} {settings : Settings} {call : Call F} {s : State S D}

/-- A worker that is let through has room for the attempt, which is new. -/
structure Opens (host : Host F S B D M) (settings : Settings) (call : Call F) (s s' : State S D)
    (score : Option S) : Prop where
  measured : measurement host settings call = some score
  fresh : call.attempt ∉ s.attempted
  room : s.attempted.length < settings.maxCandidates
  state : s' = { s with attempted := s.attempted ++ [call.attempt] }

omit [DecidableEq D] [LinearOrder S] in
theorem gate_ok {s' : State S D} {score : Option S}
    (h : gate host settings call s = .ok (s', score)) :
    Opens host settings call (s.select call.taskId call.acceptanceRevision) s' score := by
  unfold gate at h
  dsimp only at h
  split at h
  · cases h
  split at h
  · cases h
  rename_i score' hmeasured
  split at h
  · cases h
  rename_i hfresh
  split at h
  · cases h
  obtain ⟨rfl, rfl⟩ := Prod.mk.inj (Except.ok.inj h)
  exact ⟨hmeasured, by simpa using hfresh, by omega, rfl⟩

omit [DecidableEq D] [LinearOrder S] in
theorem gate_error {worker : Worker S D} (h : gate host settings call s = .error worker)
    {s' : State S D} {event : Option (Event S D)} (hworker : worker = .answers s' event) :
    s' = s.select call.taskId call.acceptanceRevision ∧
      ∀ e ∈ event, e.status ≠ .verifiedCheckpointPreserved := by
  unfold gate at h
  dsimp only at h
  split at h
  · obtain ⟨rfl, rfl⟩ := Worker.answers.inj ((Except.error.inj h).trans hworker)
    exact ⟨rfl, fun e he => by cases he⟩
  split at h
  · cases (Except.error.inj h).trans hworker
  split at h
  · obtain ⟨rfl, rfl⟩ := Worker.answers.inj ((Except.error.inj h).trans hworker)
    exact ⟨rfl, fun e he => by cases he⟩
  split at h
  · obtain ⟨rfl, rfl⟩ := State.retains_answers ((Except.error.inj h).trans hworker)
    refine ⟨rfl, fun e he => ?_⟩
    rw [← Option.some.inj he]
    simp
  · cases h

end Gate

end AlysisCode.Checkpoint
