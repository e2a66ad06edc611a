/-
`ApprovalBroker` of the IDE bridge: a request waits until somebody resolves it, its
time is up, or its session is cleared.

`request` holds the lock three times, with an event wait in between, and `resolve` and
`clear_session` take it whenever they like.  A step is what one of them does while it
holds the lock, or the end of a wait, so a run is any interleaving.  A wait gives up at
any moment at which nobody has set the event.  The object a request waits on outlives
its entry in `_approvals`; approval ids are new when they are made.

The answers agree in every run but for two races.  A request whose wait has given up
answers no, also where it was resolved before it got the lock; and a request that was
allowed for the session records the allowance when it wakes, also where the session has
been cleared since.
-/
import AlysisCode.Ide.Common
import AlysisCode.Library.Runs
import Mathlib.Data.List.Sort
import Mathlib.Logic.Function.Basic

namespace AlysisCode.Approval.Broker

open Runs

variable {T : Type} [Clock T]

structure ApprovalDecision where
  allow : Bool
  allowForSession : Bool
  deriving DecidableEq

/-- `ApprovalDecision(allow=False)` -/
def deny : ApprovalDecision := ⟨false, false⟩

inductive ApprovalState
  | pending
  | resolved
  | expired
  deriving DecidableEq

structure PendingApproval (T : Type) where
  sessionId : String
  deadline : T
  allowForSessionSupported : Bool
  allowForSessionKey : Option String
  done : Bool
  decision : Option ApprovalDecision
  state : ApprovalState
  resolvedAt : Option T

/-- What a request that made its object is at. -/
inductive Phase
  | created
  | waiting
  | timedOut
  | woken
  | returned
  deriving DecidableEq

structure ApprovalBroker (T : Type) where
  /-- The objects the requests made, by approval id. -/
  objects : String → Option (PendingApproval T × Phase)
  /-- The keys of `_approvals`. -/
  approvals : List String
  sessionAllowances : List (String × String)

def start : ApprovalBroker T := ⟨fun _ => none, [], []⟩

structure Settings (T : Type) where
  timeoutSeconds : T
  resolvedRetentionSeconds : T
  maxResolvedApprovals : Nat

namespace PendingApproval

def expire (p : PendingApproval T) (now : T) : PendingApproval T :=
  { p with state := .expired, decision := some deny, resolvedAt := some now }

/-- The session allowance its decision grants. -/
def allowance (p : PendingApproval T) : Option (String × String) :=
  let decision := p.decision.getD deny
  if decision.allow && decision.allowForSession then
    p.allowForSessionKey.map fun key => (p.sessionId, key)
  else none

end PendingApproval

namespace ApprovalBroker

def put (b : ApprovalBroker T) (id : String) (x : PendingApproval T × Phase) : ApprovalBroker T :=
  { b with objects := Function.update b.objects id (some x) }

variable (c : Settings T)

/-- `_prune_locked` -/
def prune (now : T) (b : ApprovalBroker T) : ApprovalBroker T :=
  let outdated (id : String) : Bool := (b.objects id).any fun x =>
    x.1.state != .pending && x.1.resolvedAt.any (· < now - c.resolvedRetentionSeconds)
  let kept := if ((0 : Nat) : T) < c.resolvedRetentionSeconds then
      b.approvals.filter (!outdated ·) else b.approvals
  let resolved := kept.filterMap fun id => (b.objects id).bind fun x =>
    if x.1.state = .pending then none
    else some ((x.1.resolvedAt.filter (· ≠ ((0 : Nat) : T))).getD now, id)
  let sorted := resolved.mergeSort fun x y => x.1 < y.1 || (x.1 == y.1 && decide (x.2 ≤ y.2))
  let dropped := (sorted.take (resolved.length - c.maxResolvedApprovals)).map Prod.snd
  { b with approvals := kept.filter (!dropped.contains ·) }

@[simp] theorem prune_objects (now : T) (b : ApprovalBroker T) :
    (b.prune c now).objects = b.objects := rfl

@[simp] theorem prune_allowances (now : T) (b : ApprovalBroker T) :
    (b.prune c now).sessionAllowances = b.sessionAllowances := rfl

end ApprovalBroker

/-! ### The operations -/

inductive Answer
  | none
  | returned (decision : ApprovalDecision)
  | resolved (decision : ApprovalDecision)
  | error (code message : String)
  deriving DecidableEq

def allowanceKey (session : String) (supported : Bool) (key : Option String) :
    Option (String × String) :=
  if supported then key.map fun key => (session, key) else none

variable (c : Settings T) {b' : ApprovalBroker Nat} (b : ApprovalBroker T)

/-- `request` up to the object it makes, `started` being its second look at the clock. -/
def request (id session : String) (supported : Bool) (key : Option String) (now started : T)
    (b : ApprovalBroker T) : Answer × ApprovalBroker T :=
  let b := b.prune c now
  if (allowanceKey session supported key).any (b.sessionAllowances.contains ·) then
    (.returned ⟨true, true⟩, b)
  else (.none, b.put id (⟨session, started + c.timeoutSeconds, supported, key, false, none,
    .pending, none⟩, .created))

/-- The end of `request`, in the branch its wait came out of. -/
def finish (id : String) (p : PendingApproval T) (timedOut : Bool) (now : T) (b : ApprovalBroker T) :
    Answer × ApprovalBroker T :=
  if timedOut then
    if p.state = .pending then (.returned deny, (b.put id (p.expire now, .returned)).prune c now)
    else (.returned deny, b.put id (p, .returned))
  else
    let allowances := match p.allowance with
      | some a => b.sessionAllowances.insert a
      | none => b.sessionAllowances
    let q := { p with resolvedAt := some (p.resolvedAt.getD now) }
    (.returned (p.decision.getD deny),
      ({ b.put id (q, .returned) with sessionAllowances := allowances }).prune c
        (p.resolvedAt.getD now))

/-- The message of the error that `_validate_approval_id` raises, if it does. -/
def validateApprovalId (id : String) : Option String :=
  if id.isEmpty || 128 < id.length then some "approval_id length is invalid."
  else if id.toList.all fun ch => ch.isAlphanum || "_.:-".toList.contains ch then none
  else some "approval_id contains unsupported characters."

/-- `resolve`, which looks at the clock twice. -/
def resolve (session id : String) (allow allowForSession : Bool) (checked now : T)
    (b : ApprovalBroker T) : Answer × ApprovalBroker T :=
  match validateApprovalId id, if b.approvals.contains id then b.objects id else none with
  | some message, _ => (.error "invalid_approval_id" message, b)
  | none, none => (.error "approval_not_found" "Approval id is not pending.", b)
  | none, some (p, phase) =>
    if p.sessionId ≠ session then
      (.error "approval_not_found" "Approval id is not pending for this session.", b)
    else if p.state = .resolved then
      (.error "approval_already_resolved" "Approval id was already resolved.", b)
    else if p.state = .expired ∨ p.deadline < checked then
      (.error "approval_expired" "Approval id has expired.",
        b.put id ({ p.expire now with done := true }, phase))
    else
      let effective := allow && allowForSession && p.allowForSessionSupported &&
        p.allowForSessionKey.isSome
      let q := { p with state := .resolved, decision := some ⟨allow, effective⟩,
                        resolvedAt := some now, done := true }
      let allowances := if allow && effective then
          b.sessionAllowances.insert (session, p.allowForSessionKey.getD "")
        else b.sessionAllowances
      (.resolved ⟨allow, effective⟩,
        ({ b.put id (q, phase) with sessionAllowances := allowances }).prune c now)

def clearSession (session : String) (now : T) (b : ApprovalBroker T) : ApprovalBroker T :=
  let listed (id : String) : Bool :=
    b.approvals.contains id && (b.objects id).any (·.1.sessionId == session)
  { objects := fun id => (b.objects id).map fun x =>
      if listed id && x.1.state == .pending then ({ x.1.expire now with done := true }, x.2) else x
    approvals := b.approvals.filter (!listed ·)
    sessionAllowances := b.sessionAllowances.filter (·.1 != session) }

/-! ### The system -/

inductive Action (T : Type)
  | request (id session : String) (supported : Bool) (key : Option String) (now started : T)
  | register (id : String)
  | timeOut (id : String)
  | wake (id : String)
  | finish (id : String) (now : T)
  | resolve (session id : String) (allow allowForSession : Bool) (checked now : T)
  | clearSession (session : String) (now : T)

abbrev Label (T : Type) := Action T × Answer

def exec : Action T → Option (Answer × ApprovalBroker T)
  | .request id session supported key now started =>
    if (b.objects id).isSome then none
    else some (request c id session supported key now started b)
  | .register id => (b.objects id).bind fun x =>
    if x.2 = .created then
      some (.none, { b.put id (x.1, .waiting) with approvals := b.approvals ++ [id] })
    else none
  | .timeOut id => (b.objects id).bind fun x =>
    if x.2 = .waiting ∧ x.1.done = false then some (.none, b.put id (x.1, .timedOut)) else none
  | .wake id => (b.objects id).bind fun x =>
    if x.2 = .waiting ∧ x.1.done = true then some (.none, b.put id (x.1, .woken)) else none
  | .finish id now => (b.objects id).bind fun x =>
    if x.2 = .timedOut ∨ x.2 = .woken then some (finish c id x.1 (x.2 == .timedOut) now b)
    else none
  | .resolve session id allow allowForSession checked now =>
    some (resolve c session id allow allowForSession checked now b)
  | .clearSession session now => some (.none, clearSession session now b)

def Step (l : Label T) (b' : ApprovalBroker T) : Prop :=
  exec c b l.1 = some (l.2, b')

/-! ### What the answers promise -/

/-- The decision that the step reported for `id`. -/
def report (id : String) : Label T → Option ApprovalDecision
  | (.resolve _ i _ _ _ _, .resolved d) => if i = id then some d else none
  | _ => none

/-- The decision with which the step ended the wait of `id`. -/
def outcome (id : String) : Label T → Option ApprovalDecision
  | (.finish i _, .returned d) => if i = id then some d else none
  | _ => none

def reports (id : String) (trace : List (Label T)) : List ApprovalDecision :=
  trace.filterMap (report id)

def outcomes (id : String) (trace : List (Label T)) : List ApprovalDecision :=
  trace.filterMap (outcome id)

def clears (session : String) : Label T → Bool
  | (.clearSession s _, _) => s == session
  | _ => false

/-- A successful `resolve` that allows `key` for the session. -/
def Grants (session key : String) (b : ApprovalBroker T) (l : Label T) : Prop :=
  ∃ id allow forSession checked now x,
    l = (.resolve session id allow forSession checked now, .resolved ⟨true, true⟩) ∧
      b.objects id = some x ∧ x.1.allowForSessionKey = some key

/-- `key` was allowed for the session, which has not been cleared since. -/
def InForce (trace : List (Label T)) (session key : String) : Prop :=
  SomeSince (Step c) start (clears session) (Grants session key) trace

/-- A request that returns at once does so by an allowance in force. -/
def Passed (before : List (Label T)) (_ : ApprovalBroker T) (l : Label T) : Prop :=
  ∀ id session supported key now started d,
    l = (.request id session supported key now started, .returned d) →
      supported = true ∧ ∃ k, key = some k ∧ InForce c before session k

structure AnswersAgree (c : Settings T) (trace : List (Label T)) (b : ApprovalBroker T) : Prop where
  allowed : ∀ id, ∀ d ∈ outcomes id trace, d.allow = true → ∃ r ∈ reports id trace, r.allow = true
  passed : Throughout (Step c) start (Passed c) trace
  same : ∀ id, ∀ r ∈ reports id trace, ∀ d ∈ outcomes id trace, d = r
  /-- A request that was resolved while it waits can stop waiting. -/
  wakes : ∀ id x, b.objects id = some x → reports id trace ≠ [] → x.2 = .waiting → x.1.done = true
  once : ∀ id, (reports id trace).length ≤ 1

/-- The step is neither the end of a wait that gave up on a request resolved by now, nor one
that records an allowance that is not there any more. -/
def coherent : Label T → Bool
  | (.finish id _, _) => (b.objects id).all fun x =>
    (x.2 != .timedOut || x.1.state != .resolved) &&
      (x.2 != .woken || x.1.allowance.all (b.sessionAllowances.contains ·))
  | _ => true

/-! ### What a run keeps -/

/-- All that `resolve` can do: raise, where it may expire a request that was not resolved, or
resolve a pending one and grant at most what its scope allows. -/
theorem resolve_cases (session id : String) (allow allowForSession : Bool) (checked now : T)
    (b : ApprovalBroker T) {a : Answer} {b' : ApprovalBroker T}
    (h : resolve c session id allow allowForSession checked now b = (a, b')) :
    (∃ code message, a = .error code message ∧ (b' = b ∨ ∃ x, b.objects id = some x ∧
      x.1.state ≠ .resolved ∧ b' = b.put id ({ x.1.expire now with done := true }, x.2))) ∨
    ∃ x d, b.objects id = some x ∧ x.1.state = .pending ∧ a = .resolved d ∧
      b'.objects = Function.update b.objects id (some ({ x.1 with
        state := .resolved, decision := some d, resolvedAt := some now, done := true }, x.2)) ∧
      (b'.sessionAllowances = b.sessionAllowances ∨ d = ⟨true, true⟩ ∧
        ∃ k, x.1.allowForSessionKey = some k ∧
          b'.sessionAllowances = b.sessionAllowances.insert (session, k)) := by
  unfold resolve at h
  split at h
  · cases h
    exact .inl ⟨_, _, rfl, .inl rfl⟩
  · cases h
    exact .inl ⟨_, _, rfl, .inl rfl⟩
  · rename_i p phase _ hlookup
    have hobject : b.objects id = some (p, phase) := by
      split at hlookup
      · exact hlookup
      · cases hlookup
    by_cases hsession : p.sessionId = session
    · rw [if_neg (not_not.mpr hsession)] at h
      cases hstate : p.state with
      | resolved =>
        rw [if_pos hstate] at h
        cases h
        exact .inl ⟨_, _, rfl, .inl rfl⟩
      | expired =>
        rw [if_neg (by simp [hstate]), if_pos (.inl hstate)] at h
        cases h
        exact .inl ⟨_, _, rfl, .inr ⟨_, hobject, by simp [hstate], rfl⟩⟩
      | pending =>
        rw [if_neg (by simp [hstate])] at h
        by_cases hlate : p.deadline < checked
        · rw [if_pos (.inr hlate)] at h
          cases h
          exact .inl ⟨_, _, rfl, .inr ⟨_, hobject, by simp [hstate], rfl⟩⟩
        · rw [if_neg (by simp [hstate, hlate])] at h
          cases h
          refine .inr ⟨_, _, hobject, hstate, rfl, rfl, ?_⟩
          simp only [ApprovalBroker.prune_allowances]
          split
          · rename_i hgrant
            obtain ⟨hallow, heffective⟩ := Bool.and_eq_true_iff.mp hgrant
            obtain ⟨k, hk⟩ := Option.isSome_iff_exists.mp (Bool.and_eq_true_iff.mp heffective).2
            refine .inr ⟨?_, k, hk, by simp [hk]⟩
            rw [heffective, hallow]
          · exact .inl rfl
    · rw [if_pos hsession] at h
      cases h
      exact .inl ⟨_, _, rfl, .inl rfl⟩


/-- What an object has been through fits its state. -/
def Sound (x : PendingApproval T × Phase) : Prop :=
  match x.1.state with
  | .pending => x.1.done = false ∧ x.2 ≠ .woken ∧ x.2 ≠ .returned
  | .resolved => x.1.done = true ∧ x.1.decision.isSome = true
  | .expired => x.1.decision = some deny

theorem Sound.move {x : PendingApproval T × Phase} {phase : Phase} (h : Sound x)
    (hpending : x.1.state = .pending → phase ≠ .woken ∧ phase ≠ .returned) :
    Sound (x.1, phase) := by
  unfold Sound at h ⊢
  cases hs : x.1.state with
  | pending =>
    rw [hs] at h
    exact ⟨h.1, hpending hs⟩
  | resolved | expired => rwa [hs] at h

/-- What was reported of a request, and how it returned, is what its object says. -/
structure Fits (trace : List (Label T)) (id : String) (x : PendingApproval T × Phase) : Prop where
  sound : Sound x
  reported : reports id trace = if x.1.state = .resolved then x.1.decision.toList else []
  returned : outcomes id trace = if x.2 = .returned then x.1.decision.toList else []

structure Kept (c : Settings T) (trace : List (Label T)) (b : ApprovalBroker T) : Prop where
  fits : ∀ id x, b.objects id = some x → Fits trace id x
  quiet : ∀ id, b.objects id = none → reports id trace = [] ∧ outcomes id trace = []
  granted : ∀ a ∈ b.sessionAllowances, InForce c trace a.1 a.2
  passed : Throughout (Step c) start (Passed c) trace

section Kept

variable {c : Settings T} {trace : List (Label T)} {b b' : ApprovalBroker T} {l : Label T}
  {id : String} {x y : PendingApproval T × Phase}

theorem reports_snoc : reports id (trace ++ [l]) = reports id trace ++ (report id l).toList := by
  cases h : report id l <;> simp [reports, h]

theorem outcomes_snoc :
    outcomes id (trace ++ [l]) = outcomes id trace ++ (outcome id l).toList := by
  cases h : outcome id l <;> simp [outcomes, h]

theorem Fits.frame (h : Fits trace id x) (hreport : report id l = none)
    (houtcome : outcome id l = none) : Fits (trace ++ [l]) id x := by
  refine ⟨h.sound, ?_, ?_⟩
  · rw [reports_snoc, hreport, ← h.reported]
    simp
  · rw [outcomes_snoc, houtcome, ← h.returned]
    simp

variable {session : String} {now : T}

theorem Fits.expire (h : Fits trace id x) (hstate : x.1.state ≠ .resolved) :
    Fits trace id ({ x.1.expire now with done := true }, x.2) := by
  refine ⟨rfl, ?_, ?_⟩
  · rw [h.reported, if_neg hstate]
    rfl
  · have hsound := h.sound
    rw [h.returned]
    by_cases hreturned : x.2 = .returned
    · unfold Sound at hsound
      cases hs : x.1.state with
      | pending =>
        rw [hs] at hsound
        exact absurd hreturned hsound.2.2
      | resolved => exact absurd hs hstate
      | expired =>
        rw [hs] at hsound
        rw [hsound]
        rfl
    · simp only [if_neg hreturned]

/-- A step that leaves all objects but one alone, and no allowance it does not find or grant. -/
theorem Kept.put (h : Kept c trace b)
    (hobjects : b'.objects = Function.update b.objects id (some y))
    (hother : ∀ j, j ≠ id → report j l = none ∧ outcome j l = none)
    (hfits : Fits (trace ++ [l]) id y)
    (hgranted : ∀ a ∈ b'.sessionAllowances, InForce c (trace ++ [l]) a.1 a.2)
    (hpassed : Passed c trace b l) : Kept c (trace ++ [l]) b' := by
  refine ⟨fun j x hj => ?_, fun j hj => ?_, hgranted, h.passed.snoc fun m _ => hpassed⟩
  · rw [hobjects] at hj
    by_cases hid : j = id
    · subst hid
      rw [Function.update_self, Option.some.injEq] at hj
      exact hj ▸ hfits
    · rw [Function.update_of_ne hid] at hj
      exact (h.fits j x hj).frame (hother j hid).1 (hother j hid).2
  · rw [hobjects] at hj
    by_cases hid : j = id
    · subst hid
      simp at hj
    · rw [Function.update_of_ne hid] at hj
      obtain ⟨hr, ho⟩ := h.quiet j hj
      rw [reports_snoc, outcomes_snoc, hr, ho, (hother j hid).1, (hother j hid).2]
      exact ⟨rfl, rfl⟩

theorem Kept.same (h : Kept c trace b) (hobjects : b'.objects = b.objects)
    (hother : ∀ j, report j l = none ∧ outcome j l = none)
    (hgranted : ∀ a ∈ b'.sessionAllowances, InForce c (trace ++ [l]) a.1 a.2)
    (hpassed : Passed c trace b l) : Kept c (trace ++ [l]) b' := by
  refine ⟨fun j x hj => ?_, fun j hj => ?_, hgranted, h.passed.snoc fun m _ => hpassed⟩
  · exact (h.fits j x (hobjects ▸ hj)).frame (hother j).1 (hother j).2
  · obtain ⟨hr, ho⟩ := h.quiet j (hobjects ▸ hj)
    rw [reports_snoc, outcomes_snoc, hr, ho, (hother j).1, (hother j).2]
    exact ⟨rfl, rfl⟩

theorem Kept.still (h : Kept c trace b) (hl : ∀ s, clears s l = false) :
    ∀ a ∈ b.sessionAllowances, InForce c (trace ++ [l]) a.1 a.2 :=
  fun a ha => (h.granted a ha).snoc (hl a.1)

theorem Kept.request (h : Kept c trace b) {session : String} {supported : Bool}
    {key : Option String} {now started : T} {a : Answer} (hnew : b.objects id = none)
    (hstep : request c id session supported key now started b = (a, b')) :
    Kept c (trace ++ [(.request id session supported key now started, a)]) b' := by
  obtain ⟨hreports, houtcomes⟩ := h.quiet id hnew
  unfold Broker.request at hstep
  dsimp only at hstep
  split at hstep
  · rename_i hkey
    cases hstep
    refine h.same rfl (fun _ => ⟨rfl, rfl⟩) (h.still fun _ => rfl) ?_
    rintro _ _ _ _ _ _ d ⟨⟩
    cases supported with
    | false => simp [allowanceKey] at hkey
    | true =>
      cases key with
      | none => simp [allowanceKey] at hkey
      | some k =>
        have hmem : (session, k) ∈ b.sessionAllowances := by simpa [allowanceKey] using hkey
        exact ⟨rfl, k, rfl, h.granted _ hmem⟩
  · cases hstep
    refine h.put rfl (fun _ _ => ⟨rfl, rfl⟩) ⟨⟨rfl, by simp, by simp⟩, ?_, ?_⟩
      (h.still fun _ => rfl) (by rintro _ _ _ _ _ _ d ⟨⟩)
    · rw [reports_snoc, hreports]
      rfl
    · rw [outcomes_snoc, houtcomes]
      rfl

theorem Kept.move (h : Kept c trace b) {action : Action T} {phase : Phase}
    (hx : b.objects id = some x)
    (hobjects : b'.objects = Function.update b.objects id (some (x.1, phase)))
    (hallowances : b'.sessionAllowances = b.sessionAllowances)
    (hbefore : x.2 ≠ .returned) (hafter : phase ≠ .returned)
    (hpending : x.1.state = .pending → phase ≠ .woken)
    (hclears : ∀ s, clears s (action, .none) = false) :
    Kept c (trace ++ [(action, .none)]) b' := by
  have hl (j : String) : report j (action, .none) = none ∧ outcome j (action, .none) = none := by
    cases action <;> exact ⟨rfl, rfl⟩
  have hfits := (h.fits id x hx).frame (hl id).1 (hl id).2
  refine h.put hobjects (fun j _ => hl j) ⟨?_, hfits.reported, ?_⟩
    (hallowances ▸ h.still hclears) (by rintro _ _ _ _ _ _ d ⟨⟩)
  · exact hfits.sound.move fun hs => ⟨hpending hs, hafter⟩
  · rw [hfits.returned, if_neg hbefore, if_neg hafter]

theorem Fits.returns {p : PendingApproval T} {d : ApprovalDecision} (h : Fits trace id x)
    (hbefore : x.2 ≠ .returned) (hsound : Sound (p, .returned))
    (hsame : reports id trace = if p.state = .resolved then p.decision.toList else [])
    (hd : p.decision = some d) :
    Fits (trace ++ [(.finish id now, .returned d)]) id (p, .returned) := by
  refine ⟨hsound, ?_, ?_⟩
  · rw [reports_snoc, hsame]
    simp [report]
  · rw [outcomes_snoc, h.returned, if_neg hbefore, hd]
    simp [outcome]

theorem Kept.finish (h : Kept c trace b) {now : T} {a : Answer} (hx : b.objects id = some x)
    (hphase : x.2 = .timedOut ∨ x.2 = .woken) (hcoherent : coherent b (.finish id now, a) = true)
    (hstep : finish c id x.1 (x.2 == .timedOut) now b = (a, b')) :
    Kept c (trace ++ [(.finish id now, a)]) b' := by
  have hfits := h.fits id x hx
  have hsound := hfits.sound
  have hreported := hfits.reported
  have hbefore : x.2 ≠ .returned := by rcases hphase with h | h <;> simp [h]
  have hother (d : Answer) (j : String) (hj : j ≠ id) :
      report j (Action.finish id now, d) = none ∧ outcome j (Action.finish id now, d) = none := by
    cases d <;> simp [report, outcome, Ne.symm hj]
  have hpassed : Passed c trace b (.finish id now, a) := by rintro _ _ _ _ _ _ d ⟨⟩
  unfold Broker.finish at hstep
  rcases hphase with hphase | hphase
  · have hresolved : x.1.state ≠ .resolved := by simpa [coherent, hx, hphase] using hcoherent
    rw [if_neg hresolved] at hreported
    rw [if_pos (by simp [hphase])] at hstep
    by_cases hpending : x.1.state = .pending
    · rw [if_pos hpending] at hstep
      cases hstep
      exact h.put rfl (hother _) (hfits.returns hbefore rfl hreported rfl)
        (h.still fun _ => rfl) hpassed
    · rw [if_neg hpending] at hstep
      cases hstep
      have hexpired : x.1.state = .expired := by
        cases hs : x.1.state <;> simp_all
      rw [Sound, hexpired] at hsound
      refine h.put rfl (hother _) (hfits.returns hbefore ?_ ?_ hsound)
        (h.still fun _ => rfl) hpassed
      · rw [Sound, hexpired]
        exact hsound
      · rw [hreported, if_neg hresolved]
  · rw [if_neg (by simp [hphase])] at hstep
    cases hstep
    have hallowance : ∀ a, x.1.allowance = some a → a ∈ b.sessionAllowances := by
      intro a ha
      simpa [coherent, hx, hphase, ha] using hcoherent
    obtain ⟨d, hd⟩ : ∃ d, x.1.decision = some d := by
      unfold Sound at hsound
      cases hs : x.1.state with
      | pending =>
        rw [hs] at hsound
        exact absurd hphase hsound.2.1
      | resolved =>
        rw [hs] at hsound
        exact Option.isSome_iff_exists.mp hsound.2
      | expired =>
        rw [hs] at hsound
        exact ⟨deny, hsound⟩
    have hreturned : x.1.decision.getD deny = d := by simp [hd]
    rw [hreturned] at hpassed ⊢
    refine h.put rfl (hother _) (hfits.returns hbefore ?_ hreported hd) ?_ hpassed
    · unfold Sound at hsound ⊢
      cases hs : x.1.state <;> simp_all
    · intro a ha
      refine h.still (fun _ => rfl) a ?_
      cases hallows : x.1.allowance with
      | none => simpa [hallows] using ha
      | some e =>
        simp only [hallows, ApprovalBroker.prune_allowances, List.mem_insert_iff] at ha
        rcases ha with rfl | ha
        · exact hallowance _ hallows
        · exact ha

theorem Kept.resolve (h : Kept c trace b) (hrun : Run (Step c) start trace b)
    {allow allowForSession : Bool} {checked : T} {a : Answer}
    (hstep : resolve c session id allow allowForSession checked now b = (a, b')) :
    Kept c (trace ++ [(.resolve session id allow allowForSession checked now, a)]) b' := by
  have hpassed : Passed c trace b (.resolve session id allow allowForSession checked now, a) := by
    rintro _ _ _ _ _ _ d ⟨⟩
  rcases resolve_cases c session id allow allowForSession checked now b hstep with
    ⟨code, message, rfl, rfl | ⟨x, hx, hstate, rfl⟩⟩ |
    ⟨x, d, hx, hstate, rfl, hobjects, hallowances⟩
  · exact h.same rfl (fun _ => ⟨rfl, rfl⟩) (h.still fun _ => rfl) hpassed
  · refine h.put rfl (fun _ _ => ⟨rfl, rfl⟩) ?_ (h.still fun _ => rfl) hpassed
    exact ((h.fits id x hx).expire hstate).frame rfl rfl
  · have hfits := h.fits id x hx
    have hsound := hfits.sound
    rw [Sound, hstate] at hsound
    refine h.put hobjects (fun j hj => ?_) ⟨?_, ?_, ?_⟩ ?_ hpassed
    · simp [report, outcome, Ne.symm hj]
    · simp [Sound]
    · rw [reports_snoc, hfits.reported, hstate]
      simp [report]
    · rw [outcomes_snoc, hfits.returned, if_neg hsound.2.2, if_neg hsound.2.2]
      rfl
    · intro g hg
      rcases hallowances with hsame | ⟨rfl, k, hk, hinsert⟩
      · exact h.still (fun _ => rfl) g (hsame ▸ hg)
      · rw [hinsert, List.mem_insert_iff] at hg
        rcases hg with rfl | hg
        · exact .last hrun ⟨id, allow, allowForSession, checked, now, x, rfl, hx, hk⟩
        · exact h.still (fun _ => rfl) g hg

theorem Kept.clearSession (h : Kept c trace b) :
    Kept c (trace ++ [(.clearSession session now, .none)]) (clearSession session now b) := by
  refine ⟨fun j y hj => ?_, fun j hj => ?_, fun g hg => ?_, h.passed.snoc fun m _ => ?_⟩
  · obtain ⟨x, hx, rfl⟩ := Option.map_eq_some_iff.mp hj
    have hfits := h.fits j x hx
    split
    · rename_i hlisted
      have hpending : x.1.state = .pending := by
        simpa using (Bool.and_eq_true_iff.mp hlisted).2
      exact (hfits.expire (by simp [hpending])).frame rfl rfl
    · exact hfits.frame rfl rfl
  · obtain ⟨hr, ho⟩ := h.quiet j (Option.map_eq_none_iff.mp hj)
    rw [reports_snoc, outcomes_snoc, hr, ho]
    exact ⟨rfl, rfl⟩
  · obtain ⟨hg, hother⟩ := List.mem_filter.mp hg
    refine (h.granted g hg).snoc ?_
    show (session == g.1) = false
    simpa [Ne.symm] using (Ne.symm (by simpa using hother) : session ≠ g.1)
  · rintro _ _ _ _ _ _ d ⟨⟩

/-- **A step that meets the condition keeps it.** -/
theorem Kept.step (h : Kept c trace b) (hrun : Run (Step c) start trace b)
    (hcoherent : coherent b l = true) (hstep : Step c b l b') : Kept c (trace ++ [l]) b' := by
  obtain ⟨action, a⟩ := l
  unfold Step at hstep
  cases action with
  | request id session supported key now started =>
    cases hobject : b.objects id with
    | some x => simp [exec, hobject] at hstep
    | none =>
      rw [exec, if_neg (by simp [hobject]), Option.some.injEq] at hstep
      exact h.request hobject hstep
  | register id | timeOut id =>
    obtain ⟨x, hx, hmove⟩ := Option.bind_eq_some_iff.mp hstep
    split at hmove
    · rename_i hphase
      cases hmove
      exact h.move hx rfl rfl (by simp [hphase]) (by simp) (by simp) fun _ => rfl
    · cases hmove
  | wake id =>
    obtain ⟨x, hx, hmove⟩ := Option.bind_eq_some_iff.mp hstep
    split at hmove
    · rename_i hphase
      cases hmove
      refine h.move hx rfl rfl (by simp [hphase]) (by simp) (fun hpending => ?_) fun _ => rfl
      have hsound := (h.fits id x hx).sound
      rw [Sound, hpending] at hsound
      simp [hphase.2] at hsound
    · cases hmove
  | finish id now =>
    obtain ⟨x, hx, hfinish⟩ := Option.bind_eq_some_iff.mp hstep
    split at hfinish
    · rename_i hphase
      exact h.finish hx hphase hcoherent (Option.some.inj hfinish)
    · cases hfinish
  | resolve session id allow allowForSession checked now =>
    exact h.resolve hrun (Option.some.inj hstep)
  | clearSession session now =>
    cases hstep
    exact h.clearSession

end Kept

theorem kept {c : Settings T} {trace : List (Label T)} {b : ApprovalBroker T}
    (hrun : Run (Step c) start trace b)
    (hcoherent : Throughout (Step c) start (fun _ b l => coherent b l = true) trace) :
    Kept c trace b := by
  refine hrun.throughout ?_ (fun _ _ _ _ hrun h hl hstep => h.step hrun hl hstep) hcoherent
  exact ⟨by rintro id x ⟨⟩, fun _ _ => ⟨rfl, rfl⟩, by rintro a ⟨⟩, .nil⟩

/-- **Approval answers agree.**  In every run whose steps are all coherent, a request is allowed
only by a resolution or an allowance in force, and returns what was reported of it. -/
theorem answers_agree {c : Settings T} {trace : List (Label T)} {b : ApprovalBroker T}
    (hrun : Run (Step c) start trace b)
    (hcoherent : Throughout (Step c) start (fun _ b l => coherent b l = true) trace) :
    AnswersAgree c trace b := by
  have h := kept hrun hcoherent
  have hread (id : String) : (reports id trace = [] ∧ outcomes id trace = []) ∨
      ∃ x, Fits trace id x := by
    cases hobject : b.objects id with
    | none => exact .inl (h.quiet id hobject)
    | some x => exact .inr ⟨x, h.fits id x hobject⟩
  have hreported (id : String) {x} (hx : Fits trace id x) {r} (hr : r ∈ reports id trace) :
      x.1.state = .resolved ∧ x.1.decision = some r := by
    rw [hx.reported] at hr
    split at hr
    · exact ⟨by assumption, Option.mem_toList.mp hr⟩
    · simp at hr
  have hreturned (id : String) {x} (hx : Fits trace id x) {d} (hd : d ∈ outcomes id trace) :
      x.2 = .returned ∧ x.1.decision = some d := by
    rw [hx.returned] at hd
    split at hd
    · exact ⟨by assumption, Option.mem_toList.mp hd⟩
    · simp at hd
  refine ⟨fun id d hd hallow => ?_, h.passed, fun id r hr d hd => ?_, fun id x hx hr _ => ?_,
    fun id => ?_⟩
  · rcases hread id with ⟨-, hnone⟩ | ⟨x, hx⟩
    · simp [hnone] at hd
    · obtain ⟨hphase, hdecision⟩ := hreturned id hx hd
      have hsound := hx.sound
      refine ⟨d, ?_, hallow⟩
      unfold Sound at hsound
      cases hs : x.1.state with
      | pending => exact absurd hphase (hs ▸ hsound).2.2
      | resolved => simp [hx.reported, hs, hdecision]
      | expired =>
        rw [hs] at hsound
        rw [hsound, Option.some.injEq] at hdecision
        simp [← hdecision, deny] at hallow
  · rcases hread id with ⟨hnone, -⟩ | ⟨x, hx⟩
    · simp [hnone] at hr
    · exact Option.some.inj ((hreturned id hx hd).2.symm.trans (hreported id hx hr).2)
  · obtain ⟨r, hr⟩ := List.exists_mem_of_ne_nil _ hr
    have hsound := (h.fits id x hx).sound
    rw [Sound, (hreported id (h.fits id x hx) hr).1] at hsound
    exact hsound.1
  · rcases hread id with ⟨hnone, -⟩ | ⟨x, hx⟩
    · simp [hnone]
    · rw [hx.reported]
      split
      · cases x.1.decision <;> simp
      · simp

/-! ### Runs that meet the condition, and two that do not -/

def settings : Settings Nat := ⟨120, 300, 512⟩

/-- A request of session `s` with the scope `k`, up to its wait. -/
def asked (id : String) : List (Label Nat) :=
  [(.request id "s" true (some "k") 0 0, .none), (.register id, .none)]

def passes : Label Nat := (.request "b" "s" true (some "k") 4 4, .returned ⟨true, true⟩)

/-- It is allowed for the session, wakes and returns, and the next one passes. -/
def allowedRun : List (Label Nat) :=
  asked "a" ++ [(.resolve "s" "a" true true 1 1, .resolved ⟨true, true⟩), (.wake "a", .none),
    (.finish "a" 2, .returned ⟨true, true⟩), passes]

/-- It is allowed after its wait has given up. -/
def overtakenRun : List (Label Nat) :=
  asked "a" ++ [(.timeOut "a", .none), (.resolve "s" "a" true false 120 120,
    .resolved ⟨true, false⟩), (.finish "a" 121, .returned deny)]

/-- The session is cleared before it wakes. -/
def revivedRun : List (Label Nat) :=
  asked "a" ++ [(.resolve "s" "a" true true 1 1, .resolved ⟨true, true⟩),
    (.clearSession "s" 2, .none), (.wake "a", .none), (.finish "a" 3, .returned ⟨true, true⟩)]

def follow (b : ApprovalBroker Nat) (l : Label Nat) : Option (ApprovalBroker Nat) :=
  match exec settings b l.1 with
  | some (a, b') => if a = l.2 then some b' else none
  | none => none

theorem step_of_follow {b : ApprovalBroker Nat} {l : Label Nat} (h : follow b l = some b') :
    Step settings b l b' := by
  unfold follow at h
  split at h
  · rename_i a b'' hexec
    split at h
    · rename_i ha
      cases h
      rw [Step, hexec, ha]
    · cases h
  · cases h

theorem run_of_follow (labels : List (Label Nat)) (h : (play follow labels start).isSome = true) :
    ∃ b, Run (Step settings) start labels b := by
  obtain ⟨b, hb⟩ := Option.isSome_iff_exists.mp h
  exact ⟨b, run_of_play (fun _ _ _ => step_of_follow) hb⟩

theorem follow_of_step {b : ApprovalBroker Nat} {l : Label Nat} (h : Step settings b l b') :
    follow b l = some b' := by
  unfold Step at h
  simp [follow, h]

/-- The condition can be met, and then the answers agree. -/
theorem answers_agree_allowed : ∃ b, AnswersAgree settings allowedRun b := by
  obtain ⟨b, hb⟩ := run_of_follow allowedRun (by decide +kernel)
  exact ⟨b, answers_agree hb (throughout_of_allSteps (fun _ _ _ => follow_of_step)
    (by decide +kernel))⟩

/-- A request that was reported as allowed is denied, and a cleared allowance passes the next. -/
theorem answers_disagree :
    (∃ b, Run (Step settings) start overtakenRun b ∧ ¬ AnswersAgree settings overtakenRun b) ∧
    ∃ b, Run (Step settings) start (revivedRun ++ [passes]) b ∧
      ¬ AnswersAgree settings (revivedRun ++ [passes]) b := by
  constructor
  · obtain ⟨b, hb⟩ := run_of_follow overtakenRun (by decide +kernel)
    refine ⟨b, hb, fun h => ?_⟩
    have hsame := h.same "a" ⟨true, false⟩ (by decide +kernel) deny (by decide +kernel)
    cases hsame
  · obtain ⟨b, hb⟩ := run_of_follow (revivedRun ++ [passes]) (by decide +kernel)
    refine ⟨b, hb, fun h => ?_⟩
    obtain ⟨m, hm, -⟩ := hb.last
    obtain ⟨-, k, -, hforce⟩ := h.passed.last hm _ _ _ _ _ _ _ rfl
    obtain ⟨l, hl, m', hgrants⟩ := hforce.mem_since (by rintro m l ⟨_, _, _, _, _, _, rfl, -⟩; rfl)
    obtain ⟨id, allow, forSession, checked, now, x, rfl, -⟩ := hgrants
    revert hl
    simp [since, revivedRun, asked, clears]

end AlysisCode.Approval.Broker
