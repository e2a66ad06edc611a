/-
The transactions that install, update and remove a managed skill bundle.

A bundle is staged beside its target and moved into place; what was there is moved to a backup
first, and comes back when something fails.  Every operation may raise, any number of them in one
call: an `Exception`, or what is none, such as `KeyboardInterrupt`.  A move that raises has moved
nothing; a removal that raises may have removed a part.
-/
import Mathlib.Data.Option.Basic

namespace AlysisCode.Skills

/-! ### Paths -/

/-- What a path names: a directory with its entries, or a file or symbolic link. -/
inductive Entry (D : Type) where
  | directory (entries : List (String × D))
  | other (data : D)
  deriving DecidableEq

/-- `os.replace` onto what is there does not raise. -/
def Entry.replaces {D : Type} : Entry D → Option (Entry D) → Bool
  | _, none => true
  | .directory _, some (.directory entries) => entries.isEmpty
  | .other _, some (.other _) => true
  | _, some _ => false

/-- `target_path`, the backup beside it, and the staging directory with the bundle in it. -/
structure World (D : Type) where
  target : Option (Entry D)
  backup : Option (Entry D)
  stageDir : Bool
  staged : Option (Entry D)
  persisted : Bool

/-- Before a call: names for a backup and for staging are new. -/
def World.before {D : Type} (target : Option (Entry D)) : World D where
  target := target
  backup := none
  stageDir := false
  staged := none
  persisted := false

/-! ### Failures -/

inductive LifecycleError where
  | alreadyExists
  | notStaged
  | updateRollbackFailed (errors : List String)
  | removeRollbackFailed (errors : List String)
  deriving DecidableEq

/-- What is raised; `interrupt` is no `Exception`. -/
inductive Raised where
  | lifecycle (error : LifecycleError)
  | exception (text : String)
  | interrupt
  deriving DecidableEq

def Raised.text : Raised → String
  | .exception text => text
  | _ => ""

/-- The operations of a call that may raise. -/
inductive Operation where
  | probeTarget
  | makeParent
  | makeStageDir
  | stageBundle
  | probeStaged
  | backup
  | install
  | persistState
  | probeInstalled
  | removeInstalled
  | probeBackup
  | restore
  | removeBackup
  | removeStageDir
  deriving DecidableEq

/-- An operation that raises, and what it leaves of what it was staging or removing. -/
structure Fault (D : Type) where
  raised : Raised
  remains : Option (Entry D)

abbrev Faults (D : Type) := Operation → Option (Fault D)

abbrev Outcome (D : Type) := Except Raised Unit × World D

section Transactions

variable {D : Type} (faults : Faults D)

/-! ### Updating -/

variable (w : World D)

/-- The first half of `_rollback_managed_bundle_update`: what it notes, or what it raises. -/
def removeInstalled : Except Raised (List String) × World D :=
  match faults .probeInstalled with
  | some f => (.error f.raised, w)
  | none =>
    if w.target.isSome then
      match faults .removeInstalled with
      | none => (.ok [], { w with target := none })
      | some f =>
        let w := { w with target := f.remains }
        match f.raised with
        | .interrupt => (.error .interrupt, w)
        | raised => (.ok ["failed to remove staged bundle: " ++ raised.text], w)
    else (.ok [], w)

/-- `os.replace(backup_path, target_path)`, in a rollback. -/
def restoreBackup (failed : String) (w : World D) : Except Raised (List String) × World D :=
  match faults .probeBackup with
  | some f => (.error f.raised, w)
  | none =>
    match w.backup with
    | none => (.ok [], w)
    | some old =>
      match faults .restore with
      | some f =>
        match f.raised with
        | .interrupt => (.error .interrupt, w)
        | raised => (.ok [failed ++ raised.text], w)
      | none =>
        if old.replaces w.target then (.ok [], { w with target := some old, backup := none })
        else (.ok [failed ++ "OSError"], w)

/-- `_rollback_managed_bundle_update`, and the `raise` behind it. -/
def rollbackManagedBundleUpdate (existing installed : Bool) (cause : Raised) (w : World D) :
    Outcome D :=
  match if installed then removeInstalled faults w else (.ok [], w) with
  | (.error raised, w) => (.error raised, w)
  | (.ok errors, w) =>
    match if existing then restoreBackup faults "failed to restore previous bundle: " w
        else (.ok [], w) with
    | (.error raised, w) => (.error raised, w)
    | (.ok errors', w) =>
      if errors ++ errors' = [] then (.error cause, w)
      else (.error (.lifecycle (.updateRollbackFailed (errors ++ errors'))), w)

/-- `except Exception` -/
def handleUpdate (existing installed : Bool) (raised : Raised) (w : World D) : Outcome D :=
  match raised with
  | .interrupt => (.error .interrupt, w)
  | raised => rollbackManagedBundleUpdate faults existing installed raised w

/-- `_best_effort_remove(backup_path)` -/
def bestEffortRemove : Outcome D :=
  match faults .removeBackup with
  | none => (.ok (), { w with backup := none })
  | some f =>
    let w := { w with backup := f.remains }
    match f.raised with
    | .interrupt => (.error .interrupt, w)
    | _ => (.ok (), w)

/-- `os.replace(staged_path, target_path)` and `persist_state()`. -/
def installBundle (existing : Bool) (w : World D) : Outcome D :=
  match faults .install with
  | some f => handleUpdate faults existing false f.raised w
  | none =>
    let w := { w with target := w.staged, staged := none }
    match faults .persistState with
    | some f => handleUpdate faults existing true f.raised w
    | none =>
      let w := { w with persisted := true }
      if existing then bestEffortRemove faults w else (.ok (), w)

/-- The body of `with`. -/
def stageAndInstall (bundle : Option (Entry D)) (existing : Bool) (w : World D) : Outcome D :=
  match faults .stageBundle with
  | some f => (.error f.raised, { w with staged := f.remains })
  | none =>
    let w := { w with staged := bundle }
    match faults .probeStaged with
    | some f => (.error f.raised, w)
    | none =>
      if bundle.isNone then (.error (.lifecycle .notStaged), w)
      else if existing then
        match faults .backup with
        | some f => handleUpdate faults existing false f.raised w
        | none => installBundle faults existing { w with target := none, backup := w.target }
      else installBundle faults existing w

/-- `TemporaryDirectory.__exit__` -/
def removeStageDir (outcome : Outcome D) : Outcome D :=
  match faults .removeStageDir with
  | none => (outcome.1, { outcome.2 with stageDir := false, staged := none })
  | some f =>
    (.error f.raised, { outcome.2 with stageDir := f.remains.isSome, staged := f.remains })

/-- `commit_managed_bundle_update`; `stage_bundle` leaves `bundle` when it returns. -/
def commitManagedBundleUpdate (bundle : Option (Entry D)) (force : Bool) (w : World D) :
    Outcome D :=
  match faults .probeTarget with
  | some f => (.error f.raised, w)
  | none =>
    let existing := w.target.isSome
    if existing && !force then (.error (.lifecycle .alreadyExists), w)
    else
      match faults .makeParent with
      | some f => (.error f.raised, w)
      | none =>
        match faults .makeStageDir with
        | some f => (.error f.raised, w)
        | none =>
          removeStageDir faults (stageAndInstall faults bundle existing { w with stageDir := true })

/-! ### Removing -/

/-- `except Exception` of `commit_managed_bundle_removal` -/
def handleRemoval (raised : Raised) (w : World D) : Outcome D :=
  match raised with
  | .interrupt => (.error .interrupt, w)
  | cause =>
    match restoreBackup faults "failed to restore backup: " w with
    | (.error raised, w) => (.error raised, w)
    | (.ok errors, w) =>
      if errors = [] then (.error cause, w)
      else (.error (.lifecycle (.removeRollbackFailed errors)), w)

def persistState : Outcome D :=
  match faults .persistState with
  | some f => (.error f.raised, w)
  | none => (.ok (), { w with persisted := true })

def commitManagedBundleRemoval : Outcome D :=
  match faults .probeTarget with
  | some f => (.error f.raised, w)
  | none =>
    if w.target.isNone then persistState faults w
    else
      match faults .backup with
      | some f => handleRemoval faults f.raised w
      | none =>
        match persistState faults { w with target := none, backup := w.target } with
        | (.error raised, w) => handleRemoval faults raised w
        | (.ok (), w) => bestEffortRemove faults w

end Transactions

end AlysisCode.Skills
