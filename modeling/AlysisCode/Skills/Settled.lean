/-
When a transaction of a managed skill bundle ends in one of its two states.

A call either completes, or raises with the target as it was and nothing beside it.  Whether it
does so depends on the first operation that raises, on whether that is an `Exception`, and on
the operations of the rollback it then needs.
-/
import Mathlib.Tactic.Tauto
import AlysisCode.Skills.Transactions

namespace AlysisCode.Skills

variable {D : Type}

/-- The call completed with the target as wanted, or raised with everything as before. -/
inductive Settled (before after : Option (Entry D)) : Outcome D → Prop
  | completed {w : World D} (htarget : w.target = after) (hpersisted : w.persisted = true) :
    Settled before after (.ok (), w)
  | undone {w : World D} {raised : Raised} (htarget : w.target = before)
    (hbackup : w.backup = none) (hstaged : w.stageDir = false) :
    Settled before after (.error raised, w)

section Conditions

variable (faults : Faults D)

/-- The staging directory is removed, or what it raises leaves nothing of it. -/
def StageDirGone : Prop := ∀ f ∈ faults .removeStageDir, f.remains = none

/-- The backup is removed, or what that raises leaves nothing of it. -/
def BackupGone : Prop := ∀ f ∈ faults .removeBackup, f.remains = none

/-- The backup comes back, over what is left at the target. -/
def Restores (old : Entry D) (left : Option (Entry D)) : Prop :=
  faults .probeBackup = none ∧ faults .restore = none ∧ old.replaces left = true

/-- What is left at the target once the new bundle was removed. -/
def leftOfInstalled : Option (Entry D) := (faults .removeInstalled).bind (·.remains)

/-- The new bundle goes, and what was there before comes back. -/
def Undoes (target : Option (Entry D)) : Prop :=
  faults .probeInstalled = none ∧
    match target with
    | some old => (∀ f ∈ faults .removeInstalled, f.raised ≠ .interrupt) ∧
        Restores faults old (leftOfInstalled faults)
    | none => leftOfInstalled faults = none

/-- The call ends before it creates anything. -/
def NeverStarts (target : Option (Entry D)) (force : Bool) : Prop :=
  faults .probeTarget ≠ none ∨ (target ≠ none ∧ force = false) ∨ faults .makeParent ≠ none ∨
    faults .makeStageDir ≠ none

/-- The call ends before it moves anything. -/
def NeverMoves (bundle target : Option (Entry D)) : Prop :=
  faults .stageBundle ≠ none ∨ faults .probeStaged ≠ none ∨ bundle = none ∨
    (target ≠ none ∧ faults .backup ≠ none)

/-- What must hold of an update that gets as far as moving.  When all has been done and the call
raises after all, the target is as it was only if the new bundle is what was there. -/
def InstallSettles (bundle target : Option (Entry D)) : Prop :=
  match faults .install with
  | some f => StageDirGone faults ∧ ∀ old ∈ target, f.raised ≠ .interrupt ∧ Restores faults old none
  | none =>
    match faults .persistState with
    | some f => StageDirGone faults ∧ f.raised ≠ .interrupt ∧ Undoes faults target
    | none => (faults .removeStageDir = none ∧
          (target ≠ none → ∀ f ∈ faults .removeBackup, f.raised ≠ .interrupt)) ∨
        (bundle = target ∧ BackupGone faults ∧ StageDirGone faults)

def UpdateSettles (bundle target : Option (Entry D)) (force : Bool) : Prop :=
  NeverStarts faults target force ∨ (NeverMoves faults bundle target ∧ StageDirGone faults) ∨
    (¬ NeverMoves faults bundle target ∧ InstallSettles faults bundle target)

def RemovalSettles (target : Option (Entry D)) : Prop :=
  faults .probeTarget ≠ none ∨ faults .backup ≠ none ∨ ∀ old ∈ target,
    match faults .persistState with
    | some f => f.raised ≠ .interrupt ∧ Restores faults old none
    | none => ∀ f ∈ faults .removeBackup, f.raised ≠ .interrupt

end Conditions

variable {faults : Faults D}

/-! ### The rollback -/

/-- What a rollback must leave. -/
def Restored (before : Option (Entry D)) (w : World D) : Prop :=
  w.target = before ∧ w.backup = none

variable {w : World D} {old : Entry D} {after before : Option (Entry D)} {raised : Raised}

theorem restoreBackup_none (faults : Faults D) (failed : String) (h : w.backup = none) :
    (∃ raised, restoreBackup faults failed w = (.error raised, w)) ∨
      restoreBackup faults failed w = (.ok [], w) := by
  unfold restoreBackup
  cases hprobe : faults .probeBackup with
  | some f => exact .inl ⟨_, rfl⟩
  | none =>
    rw [h]
    exact .inr rfl

/-- With a backup: it comes back exactly under the condition, and otherwise it stays. -/
theorem restoreBackup_some (faults : Faults D) (failed : String) (h : w.backup = some old) :
    (Restores faults old w.target ∧
      restoreBackup faults failed w = (.ok [], { w with target := some old, backup := none })) ∨
    (¬ Restores faults old w.target ∧ ∃ result, restoreBackup faults failed w = (result, w)) := by
  unfold restoreBackup Restores
  cases hprobe : faults .probeBackup with
  | some f =>
    refine .inr ⟨?_, _, rfl⟩
    rintro ⟨hnone, -⟩
    cases hnone
  | none =>
    rw [h]
    cases hrestore : faults .restore with
    | some f =>
      refine .inr ⟨?_, ?_⟩
      · rintro ⟨-, hnone, -⟩
        cases hnone
      · dsimp only
        cases f.raised with
        | interrupt | lifecycle error | exception text => exact ⟨_, rfl⟩
    | none =>
      dsimp only
      by_cases hreplaces : old.replaces w.target = true
      · rw [if_pos hreplaces]
        exact .inl ⟨⟨rfl, rfl, hreplaces⟩, rfl⟩
      · rw [if_neg hreplaces]
        refine .inr ⟨?_, _, rfl⟩
        rintro ⟨-, -, hyes⟩
        exact hreplaces hyes

theorem settled_removeStageDir_error :
    Settled before after (removeStageDir faults (.error raised, w)) ↔
      StageDirGone faults ∧ Restored before w := by
  unfold removeStageDir StageDirGone Restored
  cases hstage : faults .removeStageDir with
  | none =>
    constructor
    · intro h
      cases h with
      | undone htarget hbackup _ => exact ⟨fun f hf => (nomatch hf), htarget, hbackup⟩
    · rintro ⟨-, htarget, hbackup⟩
      exact .undone htarget hbackup rfl
  | some f =>
    constructor
    · intro h
      cases h with
      | undone htarget hbackup hgone =>
        refine ⟨?_, htarget, hbackup⟩
        intro g hg
        cases hg
        exact Option.isSome_eq_false_iff.mp hgone |> Option.isNone_iff_eq_none.mp
    · rintro ⟨hgone, htarget, hbackup⟩
      refine .undone htarget hbackup ?_
      show f.remains.isSome = false
      rw [hgone f rfl]
      rfl

theorem settled_removeStageDir_ok (htarget : w.target = after) (hpersisted : w.persisted = true) :
    Settled before after (removeStageDir faults (.ok (), w)) ↔
      faults .removeStageDir = none ∨ (StageDirGone faults ∧ Restored before w) := by
  cases hstage : faults .removeStageDir with
  | none =>
    unfold removeStageDir
    rw [hstage]
    exact iff_of_true (.completed htarget hpersisted) (.inl rfl)
  | some f =>
    have hsame : removeStageDir faults (.ok (), w) =
        removeStageDir faults (.error f.raised, w) := by
      unfold removeStageDir
      rw [hstage]
    rw [hsame, settled_removeStageDir_error]
    simp

/-! ### Updating -/

theorem handleUpdate_early (faults : Faults D) (raised : Raised) (existing : Bool)
    (h : w.backup = none) :
    ∃ raised', handleUpdate faults existing false raised w = (.error raised', w) := by
  have hrollback (cause : Raised) : ∃ raised',
        rollbackManagedBundleUpdate faults existing false cause w = (.error raised', w) := by
    unfold rollbackManagedBundleUpdate
    cases existing with
    | false => exact ⟨_, rfl⟩
    | true =>
      rcases restoreBackup_none faults "failed to restore previous bundle: " h with
        ⟨raised', heq⟩ | heq
      · exact ⟨raised', by simp [heq]⟩
      · exact ⟨cause, by simp [heq]⟩
  unfold handleUpdate
  cases raised with
  | interrupt => exact ⟨_, rfl⟩
  | lifecycle error | exception text => exact hrollback _

theorem restoreBackup_restored {failed : String} (h : w.backup = some old) :
    Restored (some old) (restoreBackup faults failed w).2 ↔ Restores faults old w.target := by
  rcases restoreBackup_some faults failed h with
    ⟨hrestores, heq⟩ | ⟨hnot, result, heq⟩
  · rw [heq]
    exact iff_of_true ⟨rfl, rfl⟩ hrestores
  · rw [heq]
    refine iff_of_false ?_ hnot
    rintro ⟨-, hnone⟩
    rw [h] at hnone
    cases hnone

theorem restoreBackup_stageDir (faults : Faults D) (failed : String) (h : w.backup = some old) :
    (restoreBackup faults failed w).2.stageDir = w.stageDir := by
  rcases restoreBackup_some faults failed h with ⟨-, heq⟩ | ⟨-, result, heq⟩
  · rw [heq]
  · rw [heq]

/-- What is noted of the removal does not change what the rollback leaves. -/
theorem rollback_of_ok (existing installed : Bool) (cause : Raised) {w' : World D}
    {errors : List String}
    (h : (if installed then removeInstalled faults w else (.ok [], w)) = (.ok errors, w')) :
    ∃ raised, rollbackManagedBundleUpdate faults existing installed cause w =
      (.error raised, if existing then
        (restoreBackup faults "failed to restore previous bundle: " w').2 else w') := by
  unfold rollbackManagedBundleUpdate
  rw [h]
  cases existing with
  | false =>
    simp only [Bool.false_eq_true, if_false]
    split
    · exact ⟨_, rfl⟩
    · exact ⟨_, rfl⟩
  | true =>
    simp only [if_true]
    rcases _ : restoreBackup faults "failed to restore previous bundle: " w' with
      ⟨raised | errors', w''⟩
    · exact ⟨raised, rfl⟩
    · dsimp only
      split
      · exact ⟨_, rfl⟩
      · exact ⟨_, rfl⟩

theorem handleUpdate_of_ne {existing installed : Bool} (h : raised ≠ .interrupt) :
    handleUpdate faults existing installed raised w =
      rollbackManagedBundleUpdate faults existing installed raised w := by
  unfold handleUpdate
  cases raised with
  | interrupt => exact absurd rfl h
  | lifecycle error | exception text => rfl

theorem handleUpdate_moved (faults : Faults D) (raised : Raised) (htarget : w.target = none)
    (hbackup : w.backup = some old) :
    ∃ raised' w', handleUpdate faults true false raised w = (.error raised', w') ∧
      (Restored (some old) w' ↔ raised ≠ .interrupt ∧ Restores faults old none) := by
  by_cases hraised : raised = .interrupt
  · rw [hraised]
    refine ⟨_, w, rfl, iff_of_false ?_ fun h => h.1 rfl⟩
    rintro ⟨hold, -⟩
    rw [htarget] at hold
    cases hold
  · rw [handleUpdate_of_ne hraised]
    have hnothing : (if false then removeInstalled faults w else (.ok [], w)) = (.ok [], w) := rfl
    obtain ⟨raised', heq⟩ := rollback_of_ok true false raised hnothing
    refine ⟨raised', _, heq, ?_⟩
    rw [if_pos rfl, restoreBackup_restored hbackup, htarget]
    exact (and_iff_right hraised).symm

variable {new : Entry D}

/-- What the removal of the new bundle leaves, and when it ends the rollback. -/
theorem removeInstalled_eq (htarget : w.target = some new) (hprobe : faults .probeInstalled = none) :
    ((∃ f ∈ faults .removeInstalled, f.raised = .interrupt) ∧
      removeInstalled faults w = (.error .interrupt, { w with target := leftOfInstalled faults })) ∨
    ((∀ f ∈ faults .removeInstalled, f.raised ≠ .interrupt) ∧ ∃ errors,
      removeInstalled faults w = (.ok errors, { w with target := leftOfInstalled faults })) := by
  unfold removeInstalled leftOfInstalled
  rw [hprobe, htarget]
  simp only [Option.isSome_some, if_true]
  cases hremove : faults .removeInstalled with
  | none => exact .inr ⟨fun f hf => (nomatch hf), [], rfl⟩
  | some f =>
    dsimp only
    cases hraised : f.raised with
    | interrupt => exact .inl ⟨⟨f, rfl, hraised⟩, rfl⟩
    | lifecycle error | exception text =>
      refine .inr ⟨?_, _, rfl⟩
      intro g hg
      cases hg
      simp [hraised]

/-- The state could not be persisted. -/
theorem handleUpdate_installed (faults : Faults D) (raised : Raised) (htarget : w.target = some new) :
    ∃ raised' w', handleUpdate faults w.backup.isSome true raised w = (.error raised', w') ∧
      (Restored w.backup w' ↔ raised ≠ .interrupt ∧ Undoes faults w.backup) := by
  by_cases hraised : raised = .interrupt
  · rw [hraised]
    refine ⟨_, w, rfl, iff_of_false ?_ fun h => h.1 rfl⟩
    rintro ⟨hold, hnone⟩
    rw [hnone, htarget] at hold
    cases hold
  · rw [handleUpdate_of_ne hraised]
    cases hprobe : faults .probeInstalled with
    | some f =>
      have heq : rollbackManagedBundleUpdate faults w.backup.isSome true raised w =
          (.error f.raised, w) := by
        unfold rollbackManagedBundleUpdate removeInstalled
        rw [hprobe]
        rfl
      refine ⟨_, w, heq, iff_of_false ?_ ?_⟩
      · rintro ⟨hold, hnone⟩
        rw [hnone, htarget] at hold
        cases hold
      · rintro ⟨-, hnone, -⟩
        rw [hprobe] at hnone
        cases hnone
    | none =>
      rcases removeInstalled_eq htarget hprobe with ⟨⟨f, hf, hinterrupt⟩, hremoved⟩ |
          ⟨hquiet, errors, hremoved⟩
      · have heq : rollbackManagedBundleUpdate faults w.backup.isSome true raised w =
            (.error .interrupt, { w with target := leftOfInstalled faults }) := by
          unfold rollbackManagedBundleUpdate
          rw [if_pos rfl, hremoved]
        refine ⟨_, _, heq, ?_⟩
        unfold Restored Undoes
        cases hbackup : w.backup with
        | none => simp [hraised, hprobe]
        | some old =>
          refine iff_of_false (fun h => by cases h.2) ?_
          rintro ⟨-, -, hnot, -⟩
          exact hnot f hf hinterrupt
      · have hif : (if true then removeInstalled faults w else (.ok [], w)) =
            (.ok errors, { w with target := leftOfInstalled faults }) := hremoved
        obtain ⟨raised', heq⟩ := rollback_of_ok w.backup.isSome true raised hif
        refine ⟨raised', _, heq, ?_⟩
        cases hbackup : w.backup with
        | none =>
          unfold Restored Undoes
          simp [hraised, hprobe]
        | some old =>
          rw [Option.isSome_some, if_pos rfl, restoreBackup_restored rfl]
          unfold Undoes
          simp only [hprobe, true_and]
          exact ⟨fun h => ⟨hraised, hquiet, h⟩, fun h => h.2.2⟩

theorem settled_bestEffortRemove (htarget : w.target = after) (hpersisted : w.persisted = true) :
    Settled before after (removeStageDir faults (bestEffortRemove faults w)) ↔
      (faults .removeStageDir = none ∧ ∀ f ∈ faults .removeBackup, f.raised ≠ .interrupt) ∨
        (after = before ∧ BackupGone faults ∧ StageDirGone faults) := by
  unfold bestEffortRemove BackupGone
  cases hremove : faults .removeBackup with
  | none =>
    refine (settled_removeStageDir_ok (w := { w with backup := none }) htarget hpersisted).trans ?_
    unfold Restored
    simp [htarget, and_comm]
  | some f =>
    dsimp only
    cases hraised : f.raised with
    | interrupt =>
      refine settled_removeStageDir_error.trans ?_
      unfold Restored
      simp only [htarget, Option.mem_some_iff, forall_eq', hraised]
      tauto
    | lifecycle error | exception text =>
      refine (settled_removeStageDir_ok (w := { w with backup := f.remains }) htarget
        hpersisted).trans ?_
      unfold Restored
      simp only [htarget, Option.mem_some_iff, forall_eq', hraised]
      tauto

theorem settled_installBundle {bundle target : Option (Entry D)} (hbundle : bundle = some new)
    (hstaged : w.staged = bundle) (htarget : w.target = none) (hbackup : w.backup = target) :
    Settled target bundle (removeStageDir faults (installBundle faults target.isSome w)) ↔
      InstallSettles faults bundle target := by
  unfold installBundle InstallSettles
  cases hinstall : faults .install with
  | some f =>
    dsimp only
    cases target with
    | none =>
      obtain ⟨raised, hearly⟩ := handleUpdate_early faults f.raised false hbackup
      rw [Option.isSome_none, hearly, settled_removeStageDir_error]
      unfold Restored
      simp [htarget, hbackup]
    | some old =>
      obtain ⟨raised, w', houtcome, hrestored⟩ :=
        handleUpdate_moved faults f.raised htarget hbackup
      rw [Option.isSome_some, houtcome, settled_removeStageDir_error, hrestored]
      simp
  | none =>
    dsimp only
    generalize hw : ({ w with target := w.staged, staged := none } : World D) = w₁
    have htarget₁ : w₁.target = bundle := by rw [← hw]; exact hstaged
    have hbackup₁ : w₁.backup = target := by rw [← hw]; exact hbackup
    cases hpersist : faults .persistState with
    | some f =>
      obtain ⟨raised, w', houtcome, hrestored⟩ := handleUpdate_installed faults f.raised
        (htarget₁.trans hbundle)
      rw [hbackup₁] at houtcome hrestored
      dsimp only
      rw [houtcome, settled_removeStageDir_error, hrestored]
    | none =>
      cases target with
      | none =>
        refine (settled_removeStageDir_ok (show _ = bundle from hstaged) rfl).trans ?_
        unfold Restored
        simp [hstaged, hbundle]
      | some old =>
        refine (settled_bestEffortRemove (show _ = bundle from hstaged) rfl).trans ?_
        simp

theorem settled_stageAndInstall (target bundle : Option (Entry D)) :
    Settled target bundle (removeStageDir faults (stageAndInstall faults bundle
        (World.before target).target.isSome { World.before target with stageDir := true })) ↔
      (NeverMoves faults bundle target ∧ StageDirGone faults) ∨
        (¬ NeverMoves faults bundle target ∧ InstallSettles faults bundle target) := by
  have hunmoved {raised : Raised} {w : World D} (hrestored : Restored target w)
      (hnever : NeverMoves faults bundle target) :
      Settled target bundle (removeStageDir faults (.error raised, w)) ↔
        (NeverMoves faults bundle target ∧ StageDirGone faults) ∨
          (¬ NeverMoves faults bundle target ∧ InstallSettles faults bundle target) := by
    rw [settled_removeStageDir_error]
    simp [hrestored, hnever]
  unfold stageAndInstall
  cases hstage : faults .stageBundle with
  | some f =>
    refine hunmoved ⟨rfl, rfl⟩ (.inl ?_)
    rw [hstage]
    exact Option.some_ne_none f
  | none =>
    cases hprobe : faults .probeStaged with
    | some f =>
      refine hunmoved ⟨rfl, rfl⟩ (.inr (.inl ?_))
      rw [hprobe]
      exact Option.some_ne_none f
    | none =>
      dsimp only
      cases hbundle : bundle with
      | none =>
        subst hbundle
        exact hunmoved ⟨rfl, rfl⟩ (.inr (.inr (.inl rfl)))
      | some new =>
        rw [if_neg (by simp)]
        have hmoves (h : target ≠ none → faults .backup = none) :
            ¬ NeverMoves faults (some new) target := by
          rintro (h' | h' | h' | ⟨htarget, h'⟩)
          · exact h' hstage
          · exact h' hprobe
          · cases h'
          · exact h' (h htarget)
        subst hbundle
        cases target with
        | none =>
          have hnot := hmoves fun h => absurd rfl h
          rw [show (World.before (none : Option (Entry D))).target.isSome = false from rfl,
            if_neg Bool.false_ne_true, or_iff_right fun h => hnot h.1, and_iff_right hnot]
          exact settled_installBundle rfl rfl rfl rfl
        | some old =>
          rw [show (World.before (some old)).target.isSome = true from rfl, if_pos rfl]
          cases hbackup : faults .backup with
          | some f =>
            obtain ⟨raised, hearly⟩ := handleUpdate_early faults f.raised true
              (w := { World.before (some old) with stageDir := true, staged := some new })
              rfl
            dsimp only
            rw [hearly]
            refine hunmoved ⟨rfl, rfl⟩ (.inr (.inr (.inr ⟨by simp, ?_⟩)))
            rw [hbackup]
            exact Option.some_ne_none f
          | none =>
            have hnot := hmoves fun _ => hbackup
            rw [or_iff_right fun h => hnot h.1, and_iff_right hnot]
            exact settled_installBundle rfl rfl rfl rfl

/-- `commit_managed_bundle_update` settles exactly under its condition. -/
theorem update_settled_iff (faults : Faults D) (bundle target : Option (Entry D)) (force : Bool) :
    Settled target bundle (commitManagedBundleUpdate faults bundle force (.before target)) ↔
      UpdateSettles faults bundle target force := by
  have hnever (raised : Raised) : Settled target bundle (.error raised, World.before target) :=
    .undone rfl rfl rfl
  unfold commitManagedBundleUpdate UpdateSettles
  cases hprobe : faults .probeTarget with
  | some f =>
    refine iff_of_true (hnever _) (.inl (.inl ?_))
    rw [hprobe]
    exact Option.some_ne_none f
  | none =>
    have hexisting : ((World.before target).target.isSome && !force) = true ↔
        target ≠ none ∧ force = false := by
      rw [Bool.and_eq_true, Bool.not_eq_true', Option.isSome_iff_ne_none]
      rfl
    by_cases hrefused : target ≠ none ∧ force = false
    · rw [if_pos (hexisting.mpr hrefused)]
      exact iff_of_true (hnever _) (.inl (.inr (.inl hrefused)))
    · rw [if_neg (mt hexisting.mp hrefused)]
      cases hparent : faults .makeParent with
      | some f =>
        refine iff_of_true (hnever _) (.inl (.inr (.inr (.inl ?_))))
        rw [hparent]
        exact Option.some_ne_none f
      | none =>
        cases hdir : faults .makeStageDir with
        | some f =>
          refine iff_of_true (hnever _) (.inl (.inr (.inr (.inr ?_))))
          rw [hdir]
          exact Option.some_ne_none f
        | none =>
          have hstarts : ¬ NeverStarts faults target force := by
            rintro (h | h | h | h)
            · exact h hprobe
            · exact hrefused h
            · exact h hparent
            · exact h hdir
          rw [or_iff_right hstarts]
          exact settled_stageAndInstall target bundle

/-! ### Removing -/

theorem settled_error (hstaged : w.stageDir = false) :
    Settled before after (.error raised, w) ↔ Restored before w := by
  constructor
  · intro h
    cases h with
    | undone htarget hbackup _ => exact ⟨htarget, hbackup⟩
  · rintro ⟨htarget, hbackup⟩
    exact .undone htarget hbackup hstaged

/-- What an `Exception` is answered with. -/
theorem handleRemoval_of_ne (faults : Faults D) (h : raised ≠ .interrupt) (w : World D) :
    ∃ raised', handleRemoval faults raised w =
      (.error raised', (restoreBackup faults "failed to restore backup: " w).2) := by
  unfold handleRemoval
  generalize restoreBackup faults "failed to restore backup: " w = restored
  obtain ⟨raised' | errors, w'⟩ := restored
  · cases raised with
    | interrupt => exact absurd rfl h
    | lifecycle error | exception text => exact ⟨raised', rfl⟩
  · by_cases hnil : errors = []
    · cases raised with
      | interrupt => exact absurd rfl h
      | lifecycle error | exception text => exact ⟨_, if_pos hnil⟩
    · cases raised with
      | interrupt => exact absurd rfl h
      | lifecycle error | exception text => exact ⟨_, if_neg hnil⟩

/-- `commit_managed_bundle_removal` settles exactly under its condition. -/
theorem removal_settled_iff (faults : Faults D) (target : Option (Entry D)) :
    Settled target none (commitManagedBundleRemoval faults (.before target)) ↔
      RemovalSettles faults target := by
  have hnever (raised : Raised) : Settled target none (.error raised, World.before target) :=
    .undone rfl rfl rfl
  unfold commitManagedBundleRemoval RemovalSettles
  cases hprobe : faults .probeTarget with
  | some f => exact iff_of_true (hnever _) (.inl (Option.some_ne_none f))
  | none =>
    rw [or_iff_right fun h => h rfl]
    cases target with
    | none =>
      rw [if_pos (show (World.before (none : Option (Entry D))).target.isNone = true from rfl)]
      refine iff_of_true ?_ (.inr fun old hold => (nomatch hold))
      unfold persistState
      cases hpersist : faults .persistState with
      | some f => exact hnever _
      | none => exact .completed rfl rfl
    | some old =>
      rw [if_neg (show ¬ (World.before (some old)).target.isNone = true by simp [World.before])]
      cases hbackup : faults .backup with
      | some f =>
        refine iff_of_true ?_ (.inl (Option.some_ne_none f))
        dsimp only
        by_cases hraised : f.raised = .interrupt
        · rw [hraised]
          exact hnever _
        · obtain ⟨raised', heq⟩ :=
            handleRemoval_of_ne faults hraised (World.before (some old))
          rw [heq]
          rcases restoreBackup_none faults "failed to restore backup: "
              (w := World.before (some old)) rfl with ⟨raised'', hresult⟩ | hresult
          · rw [hresult]
            exact hnever _
          · rw [hresult]
            exact hnever _
      | none =>
        rw [or_iff_right fun h => h rfl]
        simp only [Option.mem_some_iff, forall_eq']
        unfold persistState
        cases hpersist : faults .persistState with
        | some f =>
          dsimp only
          by_cases hraised : f.raised = .interrupt
          · rw [hraised]
            refine iff_of_false ?_ fun h => h.1 rfl
            intro h
            cases h with
            | undone htarget _ _ => cases htarget
          · obtain ⟨raised', heq⟩ := handleRemoval_of_ne faults hraised
              { World.before (some old) with target := none, backup := some old }
            have hstaged := restoreBackup_stageDir faults "failed to restore backup: "
              (w := { World.before (some old) with target := none, backup := some old }) rfl
            rw [show (World.before (some old)).target = some old from rfl, heq,
              settled_error hstaged, restoreBackup_restored rfl]
            exact (and_iff_right hraised).symm
        | none =>
          unfold bestEffortRemove
          cases hremove : faults .removeBackup with
          | none => exact iff_of_true (.completed rfl rfl) fun f hf => (nomatch hf)
          | some f =>
            simp only [Option.mem_some_iff, forall_eq']
            cases hraised : f.raised with
            | interrupt =>
              refine iff_of_false ?_ fun h => h rfl
              intro h
              cases h with
              | undone htarget _ _ => cases htarget
            | lifecycle error | exception text => exact iff_of_true (.completed rfl rfl) (by simp)

/-- **Both transactions end in one of their two states exactly under their conditions, whichever
operations raise.** -/
theorem transactions_settled_iff (faults : Faults D) (bundle target : Option (Entry D))
    (force : Bool) :
    (Settled target bundle (commitManagedBundleUpdate faults bundle force (.before target)) ↔
      UpdateSettles faults bundle target force) ∧
    (Settled target none (commitManagedBundleRemoval faults (.before target)) ↔
      RemovalSettles faults target) :=
  ⟨update_settled_iff faults bundle target force, removal_settled_iff faults target⟩

/-- The process is interrupted while the state is written. -/
def interrupted : Faults Unit := fun operation =>
  if operation = .persistState then some ⟨.interrupt, none⟩ else none

/-- An update that is interrupted leaves the new bundle in place and the old one in the backup; a
removal leaves nothing in place. -/
theorem interrupted_unsettled :
    ¬ Settled (some (.other ())) (some (.directory [])) (commitManagedBundleUpdate interrupted
        (some (.directory [])) true (.before (some (.other ())))) ∧
    ¬ Settled (some (.other ())) none
      (commitManagedBundleRemoval interrupted (.before (some (.other ())))) ∧
    (commitManagedBundleUpdate interrupted (some (.directory [])) true
      (.before (some (.other ())))).2 =
        ⟨some (.directory []), some (.other ()), false, none, false⟩ := by
  have hupdate : commitManagedBundleUpdate interrupted (some (.directory [])) true
      (.before (some (.other ()))) =
        (.error .interrupt, ⟨some (.directory []), some (.other ()), false, none, false⟩) := rfl
  have hremoval : commitManagedBundleRemoval interrupted (.before (some (.other ()))) =
      (.error .interrupt, ⟨none, some (.other ()), false, none, false⟩) := rfl
  rw [hupdate, hremoval]
  refine ⟨?_, ?_, rfl⟩
  · intro h
    cases h with
    | undone _ hbackup _ => cases hbackup
  · intro h
    cases h with
    | undone _ hbackup _ => cases hbackup

end AlysisCode.Skills
