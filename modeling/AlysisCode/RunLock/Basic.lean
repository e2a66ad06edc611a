/-
The lock that keeps two Forge executions off one workspace: its files and its verdicts.

A lock file carries two liveness signals of its owner, a process id and a heartbeat.
`assessLockStaleness` weighs them: a dead process id or a heartbeat older than the owner
promised makes a lock stale, and only a stale lock may be taken over.

Times are whole microseconds, and so are the durations that the source has in seconds.
-/
import AlysisCode.Ide.Common

namespace AlysisCode.RunLock

/-! ### Owner tokens -/

/-- A digit of `uuid4().hex`. -/
def isHexDigit (c : Char) : Bool :=
  c.isDigit || ('a' ≤ c && c ≤ 'f')

/-- `uuid4().hex`: every call of `acquire_run_mutation_guard` draws its own. -/
structure OwnerToken where
  value : String
  hex : (value.length == 32 && value.toList.all isHexDigit) = true
  deriving DecidableEq

theorem isAlphanum_of_isHexDigit {c : Char} (h : isHexDigit c = true) : c.isAlphanum = true := by
  simp only [isHexDigit, Bool.or_eq_true, Bool.and_eq_true, decide_eq_true_eq] at h
  delta Char.isAlphanum Char.isAlpha Char.isLower
  simp only [Bool.or_eq_true, Bool.and_eq_true, decide_eq_true_eq]
  rcases h with h | ⟨h1, h2⟩
  · exact .inr h
  · refine .inl (.inr ⟨h1, ?_⟩)
    exact UInt32.le_trans h2 (by decide)

@[simp] theorem OwnerToken.strip_value (k : OwnerToken) : strip k.value = k.value := by
  have hall : ∀ c ∈ k.value.toList, isHexDigit c = true := by
    have h := k.hex
    rw [Bool.and_eq_true, List.all_eq_true] at h
    exact h.2
  apply strip_of_matches
  unfold matchesIdentifier
  split
  · rename_i hnil
    have h := k.hex
    rw [← String.length_toList, hnil] at h
    cases h
  · rename_i c rest heq
    rw [heq] at hall
    rw [Bool.and_eq_true, List.all_eq_true]
    refine ⟨isAlphanum_of_isHexDigit (hall c List.mem_cons_self), ?_⟩
    intro c' hc'
    simp [isIdentifierChar, isAlphanum_of_isHexDigit (hall c' (List.mem_cons_of_mem _ hc'))]

/-! ### Lock files -/

/-- The metadata that the lock file and the recovery claim carry. -/
structure Metadata where
  /-- `str(metadata.get("owner_token") or "")`. -/
  ownerToken : String
  pid : Option Nat
  (hostname ownerId mode : Option String)
  (acquiredAt lastHeartbeatAt heartbeatIntervalS heartbeatTtlS : Option Nat)
  deriving DecidableEq

/-- `str(metadata.get("owner_token") or "").strip() == owner_token`. -/
def Metadata.ownedBy (m : Metadata) (k : OwnerToken) : Bool :=
  strip m.ownerToken == k.value

/-- What an existing file holds.  Every writer renders metadata the same way, so two
texts are the same when their metadata is. -/
inductive Text
  /-- Created by this call's exclusive open, which has not written to it yet. -/
  | blank (opener : OwnerToken)
  /-- Not a JSON object. -/
  | unreadable
  | metadata (m : Metadata)
  deriving DecidableEq

/-- A path: a file, or none. -/
abbrev File := Option Text

def loadMetadata : File → Option Metadata
  | some (.metadata m) => some m
  | _ => none

theorem loadMetadata_eq_some {f : File} {m : Metadata} :
    loadMetadata f = some m ↔ f = some (.metadata m) := by
  unfold loadMetadata
  split
  · simp
  · rename_i h
    simp only [reduceCtorEq, false_iff]
    exact h m

theorem Metadata.ownedBy_unique {m : Metadata} {j k : OwnerToken} (hj : m.ownedBy j = true)
    (hk : m.ownedBy k = true) : j = k := by
  simp only [Metadata.ownedBy, beq_iff_eq] at hj hk
  cases j
  cases k
  simpa using hj.symm.trans hk

/-! ### Verdicts -/

def cleanStr (value : Option String) : Option String :=
  match value with
  | none => none
  | some text => if strip text = "" then none else some (strip text)

/-- `_coerce_pid` and `_coerce_positive_float`. -/
def coercePositive (raw : Option Nat) : Option Nat :=
  raw.filter (0 < ·)

/-- `_age_seconds`: clamped at zero. -/
def ageSeconds (raw : Option Nat) (reference : Nat) : Option Nat :=
  raw.map (reference - ·)

inductive Verdict
  | active
  | stale
  | ambiguous
  deriving DecidableEq

inductive StaleKind
  | deadPid
  | heartbeatExpired
  deriving DecidableEq

/-- Which of the texts a verdict's `reason` is, and what is printed in it. -/
inductive Reason
  | unreadable
  | otherHost (hostname : Option String)
  | notRunning
  | heartbeatExpired (age ttl : Nat)
  | noPid
  | notProbed (pid : Nat)
  | noContract (pid : Nat)
  | current (pid : Nat)
  deriving DecidableEq

/-- Why one lock file is (or is not) safe to take over. -/
structure LockStaleness where
  verdict : Verdict
  reason : Reason
  kind : Option StaleKind := none
  sameHost : Bool := false
  pid : Option Nat := none
  (hostname ownerId mode : Option String := none)
  (ageS heartbeatAgeS heartbeatTtlS : Option Nat := none)
  processRunning : Option Bool := none
  deriving DecidableEq

def LockStaleness.recoverable (v : LockStaleness) : Bool :=
  v.verdict == .stale

/-- The age past the declared ttl, if the heartbeat is that old. -/
def expiredBy (age ttl : Option Nat) : Option (Nat × Nat) :=
  match ttl, age with
  | some t, some a => if t < a then some (a, t) else none
  | _, _ => none

/-- `assess_lock_staleness` on the host `host`, at the time `reference`.  `isRunning` is
`_process_is_running`. -/
def assessLockStaleness (host : String) (isRunning : Nat → Option Bool) (reference : Nat) :
    Option Metadata → LockStaleness
  | none => { verdict := .ambiguous, reason := .unreadable }
  | some m =>
    let base : LockStaleness :=
      { verdict := .ambiguous
        reason := .otherHost (cleanStr m.hostname)
        sameHost := cleanStr m.hostname == some host
        pid := coercePositive m.pid
        hostname := cleanStr m.hostname
        ownerId := cleanStr m.ownerId
        mode := cleanStr m.mode
        ageS := ageSeconds m.acquiredAt reference
        heartbeatAgeS := ageSeconds m.lastHeartbeatAt reference
        heartbeatTtlS := coercePositive m.heartbeatTtlS }
    if base.sameHost = false then
      base
    else
      let base := { base with processRunning := base.pid.bind isRunning }
      if base.processRunning = some false then
        { base with verdict := .stale, reason := .notRunning, kind := some .deadPid }
      else
        match expiredBy base.heartbeatAgeS base.heartbeatTtlS with
        | some (age, ttl) =>
          { base with
            verdict := .stale
            reason := .heartbeatExpired age ttl
            kind := some .heartbeatExpired }
        | none =>
          match base.pid with
          | none => { base with reason := .noPid }
          | some pid =>
            if base.processRunning = none then
              { base with reason := .notProbed pid }
            else if base.heartbeatTtlS = none then
              { base with verdict := .active, reason := .noContract pid }
            else
              { base with verdict := .active, reason := .current pid }

theorem expiredBy_eq_some {age ttl : Option Nat} {a t : Nat} :
    expiredBy age ttl = some (a, t) ↔ ttl = some t ∧ age = some a ∧ t < a := by
  unfold expiredBy
  split
  · rename_i t' a'
    by_cases hlt : t' < a'
    · rw [if_pos hlt]
      simp only [Option.some.injEq, Prod.mk.injEq]
      constructor
      · rintro ⟨rfl, rfl⟩
        exact ⟨rfl, rfl, hlt⟩
      · rintro ⟨rfl, rfl, -⟩
        exact ⟨rfl, rfl⟩
    · rw [if_neg hlt]
      simp only [reduceCtorEq, Option.some.injEq, false_iff]
      rintro ⟨rfl, rfl, h⟩
      exact hlt h
  · rename_i hnone
    simp only [reduceCtorEq, false_iff]
    rintro ⟨rfl, rfl, -⟩
    exact hnone t a rfl rfl

theorem coercePositive_eq_some {raw : Option Nat} {n : Nat} :
    coercePositive raw = some n ↔ raw = some n ∧ 0 < n := by
  simp [coercePositive, Option.filter_eq_some_iff]

/-- The owner a lock names is gone: its process is dead, or it broke its promise to beat. -/
def Gone (isRunning : Nat → Option Bool) (now : Nat) (m : Metadata) : Prop :=
  (∃ pid, m.pid = some pid ∧ isRunning pid = some false) ∨
    ∃ ttl beat, m.heartbeatTtlS = some ttl ∧ m.lastHeartbeatAt = some beat ∧ ttl < now - beat

theorem gone_of_recoverable {host : String} {isRunning : Nat → Option Bool} {now : Nat}
    {m : Metadata} (h : (assessLockStaleness host isRunning now (some m)).recoverable = true) :
    Gone isRunning now m := by
  unfold assessLockStaleness at h
  dsimp only at h
  split at h
  · cases h
  · split at h
    · rename_i hdead
      obtain ⟨pid, hpid, hrun⟩ := Option.bind_eq_some_iff.mp hdead
      exact .inl ⟨pid, (coercePositive_eq_some.mp hpid).1, hrun⟩
    · split at h
      · rename_i age ttl hexp
        obtain ⟨httl, hage, hlt⟩ := expiredBy_eq_some.mp hexp
        obtain ⟨beat, hbeat, rfl⟩ := Option.map_eq_some_iff.mp hage
        exact .inr ⟨ttl, beat, (coercePositive_eq_some.mp httl).1, hbeat, hlt⟩
      · split at h
        · cases h
        · split at h
          · cases h
          · split at h
            · cases h
            · cases h

/-! ### Metadata of a call -/

def minHeartbeatIntervalS : Nat := 50000

def maxRecoveryGraceS : Nat := 5000000

/-- What a call of `acquire_run_mutation_guard` is made with: its process, its arguments
and its process's settings. -/
structure Config where
  pid : Nat
  mode : String
  ownerId : String
  wait : Bool
  /-- `heartbeat_interval_s()`. -/
  intervalS : Nat
  /-- `_env_positive_float(_HEARTBEAT_TTL_ENV, DEFAULT_HEARTBEAT_TTL_S)`. -/
  envTtlS : Nat
  deriving DecidableEq

def Config.heartbeatTtlS (config : Config) : Nat :=
  max config.envTtlS (config.intervalS * 2)

/-- `now_iso`: the clock, with its microseconds dropped. -/
def nowIso (now : Nat) : Nat :=
  now / 1000000 * 1000000

def buildMetadata (host : String) (config : Config) (k : OwnerToken) (now : Nat) : Metadata where
  ownerToken := k.value
  pid := some config.pid
  hostname := some host
  ownerId := some config.ownerId
  mode := some config.mode
  acquiredAt := some (nowIso now)
  lastHeartbeatAt := some (nowIso now)
  heartbeatIntervalS := some config.intervalS
  heartbeatTtlS := some config.heartbeatTtlS

/-- `_recovery_grace_s`, in the process with the given settings. -/
def recoveryGraceS (config : Config) (m : Metadata) : Nat :=
  max minHeartbeatIntervalS
    (min ((coercePositive m.heartbeatIntervalS).getD config.intervalS) maxRecoveryGraceS)

end AlysisCode.RunLock
