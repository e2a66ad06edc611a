/-
Idempotency keys.

The memory of a `(session, key)` pair is the row itself, and the row carries the session
it is filed under.  While the prompt a pair created stays filed under that session, every
further use of the pair finds it: `enqueue_once` follows the pair through any run whose
uses of it meet that condition.  `rebind_recoverable` refiles a prompt under another
session, and with it goes the memory: `enqueue_twice` is a run in which a pair creates a
second prompt.
-/
import AlysisCode.PromptQueue.Effects

namespace AlysisCode.PromptQueue

open Table Runs

variable {T P : Type}

/-- The prompt an `enqueue` with this pair created, and from which payload. -/
def creationOf (s k : String) (e : Event T P) : Option (String × P) :=
  match e with
  | (.enqueue s' k' payload _ _, .ok (.enqueued result)) =>
    if s' = s ∧ k' = k ∧ result.created = true then some (result.item.promptId, payload) else none
  | _ => none

theorem creationOf_some {s k prompt : String} {payload : P} {e : Event T P}
    (h : creationOf s k e = some (prompt, payload)) :
    ∃ i c result, e = (.enqueue s k payload i c, .ok (.enqueued result)) ∧
      result.created = true ∧ result.item.promptId = prompt := by
  unfold creationOf at h
  split at h
  · split_ifs at h with heq
    obtain ⟨rfl, rfl, hc⟩ := heq
    rw [Option.some.injEq, Prod.mk.injEq] at h
    obtain ⟨hid, rfl⟩ := h
    exact ⟨_, _, _, rfl, hc, hid⟩
  · cases h

/-- The prompt the pair created, if it did, is filed under the pair's session. -/
def Filed (s k : String) (trace : List (Event T P)) (q : Queue T) : Prop :=
  ∀ prompt payload, latest (creationOf s k) trace = some (prompt, payload) →
    ∃ r ∈ q.rows, r.promptId = prompt ∧ r.sessionId = s

/-- It is whenever the pair is used. -/
def FiledAtUse (s k : String) (trace : List (Event T P)) (q : Queue T) (e : Event T P) : Prop :=
  (∃ payload i c, e.1 = .enqueue s k payload i c) → Filed s k trace q

/-- The prompt the pair created has a row, with the pair's key and the payload's text. -/
def Remembered (format : PayloadFormat P) (s k : String) (trace : List (Event T P))
    (q : Queue T) : Prop :=
  ∀ prompt payload, latest (creationOf s k) trace = some (prompt, payload) →
    validateIdentifier s "session" 256 = .ok s ∧
    validateIdentifier k "idempotency" 256 = .ok k ∧
    ∃ text normalized r, format.serializePayload payload = .ok (text, normalized) ∧ r ∈ q.rows ∧
      r.promptId = prompt ∧ r.idempotencyKey = k ∧ r.payloadJson = text ∧
      r.payloadSha256 = format.sha256 text

theorem byKey_of_filed {s k prompt : String} {payload : P} {trace : List (Event T P)}
    {q : Queue T} (hq : Remembered format s k trace q) (hfiled : Filed s k trace q)
    (hlatest : latest (creationOf s k) trace = some (prompt, payload)) :
    ∃ text normalized row, format.serializePayload payload = .ok (text, normalized) ∧
      q.byKey s k = some row ∧ row.promptId = prompt ∧ row.payloadJson = text ∧
      row.payloadSha256 = format.sha256 text := by
  obtain ⟨-, -, text, normalized, row, hser, hr, hid, hkey, hjson, hsha⟩ := hq prompt payload hlatest
  obtain ⟨r, hmem, hrid, hrs⟩ := hfiled prompt payload hlatest
  have hsame : r = row := q.eq_of_promptId hmem hr (hrid.trans hid.symm)
  subst hsame
  refine ⟨text, normalized, r, hser, ?_, hid, hjson, hsha⟩
  rw [← hrs, ← hkey]
  exact byKey_of_mem hr

section Runs

variable [Clock T] {config : PromptQueueConfig} {format : PayloadFormat P}

variable {k s : String} {q : Queue T} {trace : List (Event T P)}

variable {call : Call T P} {text prompt : String} {answer : Answer T P} {q' : Queue T}
  {payload normalized : P} {c : Option T}

theorem Effect.creation (h : Effect config format q q' call answer)
    (hc : creationOf s k (call, .ok answer) = some (prompt, payload)) :
    validateIdentifier s "session" 256 = .ok s ∧
      validateIdentifier k "idempotency" 256 = .ok k ∧ q.byKey s k = none ∧
      ∃ text normalized r, format.serializePayload payload = .ok (text, normalized) ∧
        r ∈ q'.rows ∧ r.promptId = prompt ∧ r.idempotencyKey = k ∧ r.payloadJson = text ∧
        r.payloadSha256 = format.sha256 text := by
  obtain ⟨i, c, result, hev, hcreated, hid⟩ := creationOf_some hc
  obtain ⟨rfl, hans⟩ := Prod.mk.inj hev
  cases hans
  cases h with
  | idle _ _ hsilent => simp [Answer.silent, hcreated] at hsilent
  | @created _ _ _ text _ normalized _ now hs hk hser hfree _ hrows =>
    refine ⟨hs, hk, hfree, text, normalized,
      newRow (q.lastSequence + 1) i s k text (format.sha256 text) now, hser, ?_,
      hid, rfl, rfl, rfl⟩
    rw [hrows]
    exact List.mem_append_right _ (List.mem_singleton.mpr rfl)

theorem Effect.remembered (h : Effect config format q q' call answer)
    (hq : Remembered format s k trace q) :
    Remembered format s k (trace ++ [(call, .ok answer)]) q' := by
  intro prompt payload hlatest
  cases hc : creationOf s k (call, .ok answer) with
  | some created =>
    rw [latest_snoc_some hc, Option.some.injEq] at hlatest
    rw [hlatest] at hc
    obtain ⟨hs, hk, -, hrow⟩ := h.creation hc
    exact ⟨hs, hk, hrow⟩
  | none =>
    rw [latest_snoc_none hc] at hlatest
    obtain ⟨hs, hk, text, normalized, r, hser, hr, hid, hkey, hjson, hsha⟩ :=
      hq prompt payload hlatest
    obtain ⟨r', hr', heq⟩ := h.keeps hr
    simp only [Row.identity, Prod.mk.injEq] at heq
    obtain ⟨-, hid', hkey', hjson', hsha'⟩ := heq
    exact ⟨hs, hk, text, normalized, r', hser, hr', hid'.trans hid, hkey'.trans hkey,
      hjson'.trans hjson, hsha'.trans hsha⟩

theorem History.remembered (h : History config format trace q) (s k : String) :
    Remembered format s k trace q := by
  refine Run.history (I := Remembered format s k) ?_ ?_ h
  · intro prompt payload hlatest
    simp at hlatest
  · intro trace q l q' _ hq hstep
    cases hstep with
    | ok hexec => exact (exec_effect hexec).remembered hq
    | @error i e _ =>
      intro prompt payload hlatest
      have hnone : creationOf s k (i, (.error e : Except PromptQueueError (Answer T P))) =
          none := by
        cases i <;> rfl
      rw [latest_snoc_none hnone] at hlatest
      exact hq prompt payload hlatest

/-- **One prompt a pair.**  In every run in which a used pair's prompt is filed under the
pair's session, the pair creates at most one prompt. -/
theorem creations_le (h : History config format trace q)
    (hfiled : Throughout (Commit (exec config format)) Queue.empty (FiledAtUse s k) trace) :
    (trace.countP fun e => (creationOf s k e).isSome) ≤ 1 := by
  refine Run.throughout (I := fun trace _ => (trace.countP fun e => (creationOf s k e).isSome) ≤ 1)
    (by simp) ?_ h hfiled
  intro trace q l q' hrun hle hl hstep
  rw [List.countP_append, List.countP_singleton]
  split
  · rename_i hc
    obtain ⟨⟨prompt, payload⟩, hc⟩ := Option.isSome_iff_exists.mp hc
    obtain ⟨i, c, result, rfl, -, -⟩ := creationOf_some hc
    have hzero : (trace.countP fun e => (creationOf s k e).isSome) = 0 := by
      cases hstep with
      | ok hexec =>
        -- an earlier creation would still be found under the pair
        cases hlatest : latest (creationOf s k) trace with
        | none =>
          rw [List.countP_eq_zero]
          intro e he
          rw [latest_eq_none.mp hlatest e he]
          simp
        | some created =>
          obtain ⟨text, normalized, row, -, hfound, -⟩ :=
            byKey_of_filed (History.remembered hrun s k) (hl ⟨payload, i, c, rfl⟩) hlatest
          rw [((exec_effect hexec).creation hc).2.2.1] at hfound
          cases hfound
    omega
  · omega

/-! ### Using a pair again -/

theorem enqueue_existing {i : String} {row : Row T}
    (hs : validateIdentifier s "session" 256 = .ok s)
    (hk : validateIdentifier k "idempotency" 256 = .ok k) (hrow : q.byKey s k = some row)
    (hser : format.serializePayload payload = .ok (text, normalized)) :
    enqueue config format s k payload i c q =
      priorResult format row (format.sha256 text) >>= fun result => .ok (result, q) := by
  unfold enqueue
  simp only [hs, hk, hser, ok_bind, hrow]

/-- A use of a pair that created `prompt` from the payload with this text. -/
structure Retry (format : PayloadFormat P) (q : Queue T) (prompt text : String) (payload : P)
    (outcome : Except PromptQueueError (Answer T P)) (q' : Queue T) : Prop where
  unchanged : q' = q
  same : ∀ normalized, format.serializePayload payload = .ok (text, normalized) →
    ∃ item, outcome = .ok (.enqueued ⟨item, false⟩) ∧ item.promptId = prompt
  /-- For payloads whose digests tell them apart. -/
  different : ∀ text' normalized, format.serializePayload payload = .ok (text', normalized) →
    text' ≠ text → format.sha256 text' ≠ format.sha256 text →
    outcome = .error
      (.idempotencyConflict "Idempotency key was already used for a different prompt.")

theorem retry_of_found {i : String} {row : Row T} {outcome : Except PromptQueueError (Answer T P)}
    (hs : validateIdentifier s "session" 256 = .ok s)
    (hk : validateIdentifier k "idempotency" 256 = .ok k) (hrow : q.byKey s k = some row)
    (hid : row.promptId = prompt) (hload : format.loads row.payloadJson = some normalized)
    (hsha : row.payloadSha256 = format.sha256 text)
    (hstep : Commit (exec config format) q (.enqueue s k payload i c, outcome) q') :
    Retry format q prompt text payload outcome q' := by
  have hcall {text' : String} {n : P} (hser : format.serializePayload payload = .ok (text', n)) :
      exec config format (.enqueue s k payload i c) q =
        tag .enqueued (priorResult format row (format.sha256 text') >>= fun r => .ok (r, q)) := by
    rw [← enqueue_existing hs hk hrow hser]
    rfl
  refine ⟨?_, ?_, ?_⟩
  · cases hstep with
    | error _ => rfl
    | ok hexec =>
      cases hser : format.serializePayload payload with
      | error e =>
        have herr : exec config format (.enqueue s k payload i c) q = .error e := by
          simp only [exec, enqueue, hs, hk, hser, ok_bind, error_bind, tag]
        rw [herr] at hexec
        cases hexec
      | ok r =>
        rw [hcall hser] at hexec
        obtain ⟨a, -, hop⟩ := tag_ok hexec
        obtain ⟨result, -, hop⟩ := bind_eq_ok.mp hop
        simp only [Except.ok.injEq, Prod.mk.injEq] at hop
        exact hop.2.symm
  · intro n hser
    have hexec : exec config format (.enqueue s k payload i c) q =
        .ok (.enqueued ⟨row.item normalized, false⟩, q) := by
      rw [hcall hser, priorResult, if_neg (by simp [hsha])]
      simp only [itemFromRow, hload, ok_bind, tag]
    have hdet := (hstep.det (.ok hexec)).1
    exact ⟨row.item normalized, hdet, hid⟩
  · intro text' n hser _ hne
    have hexec : exec config format (.enqueue s k payload i c) q = .error
        (.idempotencyConflict "Idempotency key was already used for a different prompt.") := by
      rw [hcall hser, priorResult, if_pos (by rw [hsha]; exact fun h => hne h.symm)]
      rfl
    exact (hstep.det (.error hexec)).1

/--
**Exactly-once enqueue.**  In every run in which a pair's prompt is filed under the pair's
session whenever the pair is used, the pair creates at most one prompt, and every further
use returns that prompt for the same payload and raises for a different one, leaving the
table as it is.
-/
theorem enqueue_once {trace : List (Event T P)} {q : Queue T}
    (h : History config format trace q) {s k : String}
    (hfiled : Throughout (Commit (exec config format)) Queue.empty (FiledAtUse s k) trace) :
    (trace.countP fun e => (creationOf s k e).isSome) ≤ 1 ∧
      ∀ prompt payload, latest (creationOf s k) trace = some (prompt, payload) → Filed s k trace q →
        ∃ text normalized, format.serializePayload payload = .ok (text, normalized) ∧
          ∀ payload' i c outcome q',
            Commit (exec config format) q (.enqueue s k payload' i c, outcome) q' →
              Retry format q prompt text payload' outcome q' := by
  refine ⟨creations_le h hfiled, ?_⟩
  intro prompt payload hlatest hnow
  have hmem := h.remembered s k
  obtain ⟨hs, hk, -⟩ := hmem prompt payload hlatest
  obtain ⟨text, normalized, row, hser, hrow, hid, hjson, hsha⟩ :=
    byKey_of_filed hmem hnow hlatest
  refine ⟨text, normalized, hser, ?_⟩
  intro payload' i c outcome q' hstep
  have hload := format.loads_serialize payload text normalized hser
  rw [← hjson] at hload
  exact retry_of_found hs hk hrow hid hload hsha hstep

end Runs

/-! ### A pair that creates two prompts -/

def refilingCalls : List (Call Nat String) :=
  [.enqueue "a" "k1" (promptText "a") "p1" (some 0), .rebindRecoverable "a" "b" (some 1),
    .enqueue "a" "k1" (promptText "a") "p2" (some 2)]

/-- Session `a` is resumed as `b`; then the client that queued the prompt retries. -/
def refiling := replay (exec .standard promptFormat) refilingCalls Queue.empty

theorem enqueue_twice : History {} promptFormat refiling.1 refiling.2 ∧
      ¬ (refiling.1.countP fun e => (creationOf "a" "k1" e).isSome) ≤ 1 :=
  ⟨replay_run _ _ _, by decide +kernel⟩

def retryingCalls : List (Call Nat String) :=
  [.enqueue "a" "k1" (promptText "a") "p1" (some 0)]

/-- One prompt queued, ready to be retried. -/
def retrying := replay (exec .standard promptFormat) retryingCalls Queue.empty

/-- The retry after it returns the prompt again. -/
theorem enqueue_once_retrying : ∃ text, ∀ i c outcome q',
      Commit (exec {} promptFormat) retrying.2 (.enqueue "a" "k1" (promptText "a") i c, outcome) q' →
        Retry promptFormat retrying.2 "p1" text (promptText "a") outcome q' := by
  have hrun : History {} promptFormat retrying.1 retrying.2 := replay_run _ _ _
  have hfiled : Throughout (Commit (exec {} promptFormat)) Queue.empty (FiledAtUse "a" "k1")
      retrying.1 := by
    intro first l rest m heq _ _ prompt payload hlatest
    have hfirst : first = [] := by
      have hlen := congrArg List.length heq
      have hone : retrying.1.length = 1 := by decide +kernel
      rw [hone, List.length_append, List.length_cons] at hlen
      exact List.length_eq_zero_iff.mp (by omega)
    rw [hfirst] at hlatest
    simp at hlatest
  obtain ⟨-, hretry⟩ := enqueue_once hrun hfiled
  have hlatest : latest (creationOf "a" "k1") retrying.1 = some ("p1", promptText "a") := by
    decide +kernel
  have hnow : Filed "a" "k1" retrying.1 retrying.2 := by
    intro prompt payload h
    rw [hlatest, Option.some.injEq, Prod.mk.injEq] at h
    rw [← h.1]
    decide +kernel
  obtain ⟨text, normalized, -, hstep⟩ := hretry "p1" (promptText "a") hlatest hnow
  exact ⟨text, fun i c outcome q' h => hstep _ i c outcome q' h⟩

end AlysisCode.PromptQueue
