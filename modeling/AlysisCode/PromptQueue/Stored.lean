/-
A payload that `enqueue` took is the payload that `get` and `claim_next` return.

No operation rewrites the text of a row, and the text is read back as the dicts and lists it
was written from.  The promise has one more half: a payload that is not taken is refused with
an error of the module.  `enqueuePayload_iff` says for which payloads both halves hold: for all
but those whose text is written and then does not encode.
-/
import AlysisCode.PromptQueue.Effects
import AlysisCode.PromptQueue.Payload

namespace AlysisCode.PromptQueue

open Json Runs Table

variable {T P : Type} [Clock T]

/-! ### What the rows of a run hold -/

section Rows

variable {config : PromptQueueConfig} {format : PayloadFormat P}

/-- How an `enqueue` succeeds: the pair's row is there with the same text's digest, or a row
is added. -/
inductive Enqueued (format : PayloadFormat P) (s k i text : String) (normalized : P)
    (q q' : Queue T) (result : EnqueueResult T P) : Prop
  | prior {row : Row T} (hq : q' = q) (hrow : row ∈ q.rows) (hs : row.sessionId = s)
      (hsha : row.payloadSha256 = format.sha256 text)
      (hitem : itemFromRow format row = .ok result.item)
  | added {row : Row T} (hrows : q'.rows = q.rows ++ [row]) (hs : row.sessionId = s)
      (hid : validateIdentifier row.promptId "generated prompt" 256 = .ok row.promptId)
      (hjson : row.payloadJson = text) (hsha : row.payloadSha256 = format.sha256 text)
      (hitem : result.item = row.item normalized)

variable {q q' : Queue T} {promptId s text : String} {c : Option T} {result : EnqueueResult T P}

theorem enqueue_ok {k i : String} {p : P} (h : enqueue config format s k p i c q = .ok (result, q')) :
    validateIdentifier s "session" 256 = .ok s ∧
      ∃ text normalized, format.serializePayload p = .ok (text, normalized) ∧
        Enqueued format s k i text normalized q q' result := by
  obtain ⟨s', hs, h⟩ := bind_eq_ok.mp h
  obtain ⟨k', hk, h⟩ := bind_eq_ok.mp h
  obtain ⟨⟨text, normalized⟩, hser, h⟩ := bind_eq_ok.mp h
  have hs' : validateIdentifier s "session" 256 = .ok s := by rw [hs, validateIdentifier_ok hs]
  rw [validateIdentifier_ok hs, validateIdentifier_ok hk] at h
  refine ⟨hs', text, normalized, hser, ?_⟩
  simp only at h
  split at h
  · rename_i row hrow
    obtain ⟨r, hr, h⟩ := bind_eq_ok.mp h
    obtain ⟨rfl, rfl⟩ : r = result ∧ q = q' := by simpa using h
    obtain ⟨hsha, hr⟩ := guard_eq_ok.mp hr
    obtain ⟨item, hitem, hr⟩ := bind_eq_ok.mp hr
    cases hr
    exact .prior rfl (byKey_mem hrow).1 (byKey_mem hrow).2.1 (not_not.mp hsha) hitem
  · rename_i hfree
    obtain ⟨-, h⟩ := guard_eq_ok.mp h
    obtain ⟨i', hi, h⟩ := bind_eq_ok.mp h
    obtain ⟨now, -, h⟩ := bind_eq_ok.mp h
    have hi' : validateIdentifier i "generated prompt" 256 = .ok i := by
      rw [hi, validateIdentifier_ok hi]
    rw [validateIdentifier_ok hi] at h
    split at h
    · rename_i q₁ hw
      obtain ⟨rfl, rfl⟩ : _ = result ∧ q₁ = q' := by simpa using h
      exact .added (write_some hw).1 rfl hi' rfl rfl rfl
    · rw [hfree] at h
      cases h

theorem validateIdentifier_kind {value kind : String} {n : Nat} (other : String)
    (h : validateIdentifier value kind n = .ok value) :
    validateIdentifier value other n = .ok value :=
  guard_eq_ok.mpr (guard_eq_ok.mp h)

structure Kept (format : PayloadFormat P) (q : Queue T) : Prop where
  digest : ∀ r ∈ q.rows, r.payloadSha256 = format.sha256 r.payloadJson
  identifier : ∀ r ∈ q.rows, validateIdentifier r.promptId "generated prompt" 256 = .ok r.promptId

theorem Kept.enqueue {k i : String} {p : P} (hq : Kept format q)
    (h : enqueue config format s k p i c q = .ok (result, q')) :
    Kept format q' := by
  obtain ⟨-, text, normalized, -, heffect⟩ := enqueue_ok h
  cases heffect with
  | prior heq => exact heq ▸ hq
  | added hrows _ hid hjson hsha =>
    constructor
    · intro r hr
      rw [hrows, List.mem_append, List.mem_singleton] at hr
      rcases hr with hr | rfl
      · exact hq.digest r hr
      · rw [hsha, hjson]
    · intro r hr
      rw [hrows, List.mem_append, List.mem_singleton] at hr
      rcases hr with hr | rfl
      · exact hq.identifier r hr
      · exact hid

omit [Clock T] in
theorem Kept.identities {q q' : Queue T} (hq : Kept format q)
    (h : q'.rows.map Row.identity = q.rows.map Row.identity) : Kept format q' := by
  have horigin : ∀ r' ∈ q'.rows, ∃ r ∈ q.rows, r.identity = r'.identity := by
    intro r' hr'
    have hmem : r'.identity ∈ q.rows.map Row.identity := h ▸ List.mem_map_of_mem hr'
    exact List.mem_map.mp hmem
  constructor
  · intro r' hr'
    obtain ⟨r, hr, heq⟩ := horigin r' hr'
    simp only [Row.identity, Prod.mk.injEq] at heq
    rw [← heq.2.2.2.2, ← heq.2.2.2.1]
    exact hq.digest r hr
  · intro r' hr'
    obtain ⟨r, hr, heq⟩ := horigin r' hr'
    simp only [Row.identity, Prod.mk.injEq] at heq
    rw [← heq.2.1]
    exact hq.identifier r hr

theorem Kept.exec {call : Call T P} {answer : Answer T P} (hq : Kept format q)
    (h : exec config format call q = .ok (answer, q')) :
    Kept format q' := by
  cases call with
  | enqueue s k p i c =>
    obtain ⟨result, -, hop⟩ := tag_ok h
    exact hq.enqueue hop
  | get | list | isReclaimable =>
    obtain ⟨⟨r, rfl⟩, -⟩ := reading_ok h
    exact hq.identities ((exec_effect h).identities rfl)
  | _ =>
    obtain ⟨r, rfl, -⟩ := tag_ok h
    exact hq.identities ((exec_effect h).identities rfl)

theorem History.kept {trace : List (Event T P)} {q : Queue T}
    (h : History config format trace q) : Kept format q := by
  refine h.commit_invariant ?_ ?_
  · constructor <;> intro r hr <;> simp [Queue.empty] at hr
  · intro call q a q' hq hexec
    exact hq.exec hexec

def Holds (promptId text : String) (q : Queue T) : Prop :=
  ∃ r ∈ q.rows, r.promptId = promptId ∧ r.payloadJson = text

theorem Holds.run {trace : List (Event T P)} (h : Holds promptId text q)
    (hrun : Run (Commit (exec config format)) q trace q') :
    Holds promptId text q' := by
  refine hrun.commit_invariant h ?_
  intro call q a q' ⟨r, hr, hid, hjson⟩ hexec
  obtain ⟨r', hr', heq⟩ := (exec_effect hexec).keeps hr
  simp only [Row.identity, Prod.mk.injEq] at heq
  exact ⟨r', hr', heq.2.1.trans hid, heq.2.2.2.1.trans hjson⟩

omit [Clock T] in
theorem itemFromRow_loads {r : Row T} {item : PromptQueueItem T P}
    (h : itemFromRow format r = .ok item) :
    item.promptId = r.promptId ∧ format.loads r.payloadJson = some item.payload := by
  unfold itemFromRow at h
  split at h
  · cases h
  · rename_i payload hload
    cases h
    exact ⟨rfl, hload⟩

omit [Clock T] in
theorem Holds.item {r : Row T} {item : PromptQueueItem T P} (h : Holds promptId text q)
    (hr : r ∈ q.rows) (hitem : itemFromRow format r = .ok item) (hid : item.promptId = promptId) :
    format.loads text = some item.payload := by
  obtain ⟨r₀, hr₀, hid₀, hjson⟩ := h
  obtain ⟨hid', hload⟩ := itemFromRow_loads hitem
  obtain rfl := q.eq_of_promptId hr₀ hr (hid₀.trans (hid.symm.trans hid'))
  exact hjson ▸ hload

omit [Clock T] in
theorem get_some {s promptId : String} {q : Queue T} {item : PromptQueueItem T P}
    (h : get format s promptId q = .ok (some item)) :
    item.promptId = promptId ∧ ∃ r ∈ q.rows, itemFromRow format r = .ok item := by
  obtain ⟨s', -, h⟩ := bind_eq_ok.mp h
  obtain ⟨p', hp, h⟩ := bind_eq_ok.mp h
  rw [validateIdentifier_ok hp] at h
  split at h
  · cases h
  · rename_i row hfind
    obtain ⟨item', hitem, h⟩ := bind_eq_ok.mp h
    obtain rfl := Option.some.inj (Except.ok.inj h)
    have hsel := List.find?_some hfind
    simp only [Bool.and_eq_true, beq_iff_eq] at hsel
    exact ⟨(itemFromRow_loads hitem).1.trans hsel.2, row, List.mem_of_find?_eq_some hfind, hitem⟩

omit [Clock T] in
theorem get_of_mem {r : Row T} {payload : P} (hs : validateIdentifier s "session" 256 = .ok s)
    (hid : validateIdentifier r.promptId "prompt" 256 = .ok r.promptId) (hr : r ∈ q.rows)
    (hsession : r.sessionId = s) (hload : format.loads r.payloadJson = some payload) :
    get format s r.promptId q = .ok (some (r.item payload)) := by
  have hfind : q.rows.find? (fun r' => r'.sessionId == s && r'.promptId == r.promptId) =
      some r := by
    cases hfound : q.rows.find? (fun r' => r'.sessionId == s && r'.promptId == r.promptId) with
    | none => exact absurd hsession (by simpa using List.find?_eq_none.mp hfound r hr)
    | some r' =>
      have hsel := List.find?_some hfound
      simp only [Bool.and_eq_true, beq_iff_eq] at hsel
      rw [q.eq_of_promptId (List.mem_of_find?_eq_some hfound) hr hsel.2]
  simp only [get, hs, hid, ok_bind, hfind, itemFromRow, hload]

theorem claimNext_some {o t : String} {d : T} {lease : PromptLease T P}
    (h : claimNext format s o d t c q = .ok (some lease, q')) :
    ∃ r ∈ q'.rows, itemFromRow format r = .ok lease.item := by
  obtain ⟨s', -, h⟩ := bind_eq_ok.mp h
  obtain ⟨o', -, h⟩ := bind_eq_ok.mp h
  obtain ⟨d', -, h⟩ := bind_eq_ok.mp h
  obtain ⟨now, -, h⟩ := bind_eq_ok.mp h
  simp only at h
  split at h
  · cases h
  · split at h
    · cases h
    · obtain ⟨⟨item, q₁⟩, hx, h⟩ := bind_eq_ok.mp h
      obtain ⟨rfl, rfl⟩ : _ = lease ∧ q₁ = q' := by simpa using h
      obtain ⟨q₂, -, hx⟩ := bind_eq_ok.mp hx
      obtain ⟨r, hr, hx⟩ := bind_eq_ok.mp hx
      obtain ⟨item', hitem, hx⟩ := bind_eq_ok.mp hx
      obtain ⟨rfl, rfl⟩ := Prod.mk.inj (Except.ok.inj hx)
      unfold Queue.rowAt at hr
      split at hr
      · cases hr
      · rename_i r' hfound
        obtain rfl := Except.ok.inj hr
        exact ⟨r', List.mem_of_find?_eq_some hfound, hitem⟩

end Rows

/-! ### A Python value -/

section Payloads

variable {F : Type} [Floats F]

variable (config : PromptQueueConfig) {s : String}

/-- `enqueue` of a Python value: what is left to do after `_serialize_payload` is `enqueue` of
the dict it gives. -/
def enqueuePayload (limits : PayloadLimits) (sha256 : String → String)
    (sessionId idempotencyKey : String) (payload : PyValue F) (generatedId : String)
    (clock : Option T) (q : Queue T) :
    Except Raised (EnqueueResult T (Payload F) × Queue T) := do
  let sessionId ← (validateIdentifier sessionId "session" 256).mapError .queue
  let idempotencyKey ← (validateIdentifier idempotencyKey "idempotency" 256).mapError .queue
  let (_, normalized) ← serializePayload limits payload
  (enqueue config (payloadFormat sha256) sessionId idempotencyKey normalized generatedId clock
    q).mapError .queue

/-- From this table on, `get` and `claim_next` return the prompt with this payload. -/
def ReturnedAs (sha256 : String → String) (promptId : String) (p : Payload F) (q : Queue T) :
    Prop :=
  ∀ trace q', Run (Commit (exec config (payloadFormat (F := F) sha256))) q trace q' →
    (∀ s item, get (payloadFormat sha256) s promptId q' = .ok (some item) → item.payload = p) ∧
    ∀ s o d t c lease q'', claimNext (payloadFormat sha256) s o d t c q' = .ok (some lease, q'') →
        lease.item.promptId = promptId → lease.item.payload = p

/-- The promise of one call: an error of the module, or a prompt that is returned with the
payload's dicts and lists. -/
def Faithful (sha256 : String → String) (sessionId : String) (payload : PyValue F) :
    Except Raised (EnqueueResult T (Payload F) × Queue T) → Prop
  | .error raised => ∃ e, raised = .queue e
  | .ok (result, q') =>
    ∃ (v : JsonValue F) (p : Payload F), payload.plain = some v ∧
      v.encode = some (.obj p.members) ∧ result.item.payload = p.sorted ∧
      (∃ item, get (payloadFormat (F := F) sha256) sessionId result.item.promptId q' =
        .ok (some item)) ∧
      ReturnedAs config sha256 result.item.promptId p.sorted q'

variable {config : PromptQueueConfig} {limits : PayloadLimits} {sha256 : String → String}
  {p : Payload F} {q : Queue T}

theorem Holds.returned {promptId : String}
    (h : Holds promptId (dumps payloadStyle (.obj p.members)) q) :
    ReturnedAs config sha256 promptId p.sorted q := by
  have hload := (payloadFormat (F := F) sha256).loads_serialize p _ _ rfl
  intro trace q' hrun
  have hq' := h.run hrun
  constructor
  · intro s item hget
    obtain ⟨hid, r, hr, hitem⟩ := get_some hget
    exact Option.some.inj ((hq'.item hr hitem hid).symm.trans hload)
  · intro s o d t c lease q'' hclaim hid
    have hexec : exec config (payloadFormat (F := F) sha256) (.claimNext s o d t c) q' =
        .ok (.claimed (some lease), q'') := by
      simp only [exec, hclaim, tag, ok_bind]
    have hq'' := hq'.run (Run.nil.snoc (.ok hexec))
    obtain ⟨r, hr, hitem⟩ := claimNext_some hclaim
    exact Option.some.inj ((hq''.item hr hitem hid).symm.trans hload)

theorem faithful_of_mem {r : Row T} (hq : Kept (payloadFormat (F := F) sha256) q)
    (hs : validateIdentifier s "session" 256 = .ok s) (hr : r ∈ q.rows) (hsession : r.sessionId = s)
    (hjson : r.payloadJson = dumps payloadStyle (.obj p.members)) :
    (∃ item, get (payloadFormat (F := F) sha256) s r.promptId q = .ok (some item)) ∧
      ReturnedAs config sha256 r.promptId p.sorted q := by
  have hload := (payloadFormat (F := F) sha256).loads_serialize p _ _ rfl
  have hid := validateIdentifier_kind "prompt" (hq.identifier r hr)
  exact ⟨⟨_, get_of_mem hs hid hr hsession (hjson ▸ hload)⟩, Holds.returned ⟨r, hr, rfl, hjson⟩⟩

theorem Enqueued.faithful (hsha : Function.Injective sha256) {k i : String} {q' : Queue T}
    {result : EnqueueResult T (Payload F)} (hq : Kept (payloadFormat (F := F) sha256) q)
    (hq' : Kept (payloadFormat (F := F) sha256) q')
    (hs : validateIdentifier s "session" 256 = .ok s)
    (h : Enqueued (payloadFormat sha256) s k i (dumps payloadStyle (.obj p.members)) p.sorted q q'
      result) :
    result.item.payload = p.sorted ∧
      (∃ item, get (payloadFormat (F := F) sha256) s result.item.promptId q' = .ok (some item)) ∧
      ReturnedAs config sha256 result.item.promptId p.sorted q' := by
  cases h with
  | @prior row heq hrow hsession hdigest hitem =>
    subst heq
    have hjson : row.payloadJson = dumps payloadStyle (.obj p.members) :=
      hsha ((hq.digest row hrow).symm.trans hdigest)
    obtain ⟨hid, hload⟩ := itemFromRow_loads hitem
    have hback := (payloadFormat (F := F) sha256).loads_serialize p _ _ rfl
    rw [hjson] at hload
    rw [hid]
    exact ⟨Option.some.inj (hload.symm.trans hback), faithful_of_mem hq hs hrow hsession hjson⟩
  | @added row hrows hsession hid hjson hdigest hitem =>
    have hrow : row ∈ q'.rows := by simp [hrows]
    rw [hitem]
    exact ⟨rfl, faithful_of_mem hq' hs hrow hsession hjson⟩

theorem enqueue_faithful (hsha : Function.Injective sha256) {trace : List (Event T (Payload F))}
    (h : History config (payloadFormat sha256) trace q) {k i text : String} {payload : PyValue F}
    {c : Option T} (hser : serializePayload limits payload = .ok (text, p)) :
    Faithful config sha256 s payload
      ((enqueue config (payloadFormat sha256) s k p i c q).mapError .queue) := by
  cases hrun : enqueue config (payloadFormat sha256) s k p i c q with
  | error e => exact ⟨e, rfl⟩
  | ok r =>
    obtain ⟨result, q'⟩ := r
    obtain ⟨hs, text', normalized, hwrite, heffect⟩ := enqueue_ok hrun
    obtain ⟨rfl, rfl⟩ := Prod.mk.inj (Except.ok.inj hwrite)
    obtain ⟨v, hplain, hencode⟩ := serializePayload_ok hser
    have hkept := h.kept
    exact ⟨v, p, hplain, hencode, heffect.faithful hsha hkept (hkept.enqueue hrun) hs⟩

/-- **What `enqueue` takes is what comes back, and what it refuses is refused with its own
error, unless the text does not encode.** -/
theorem enqueuePayload_iff (hsha : Function.Injective sha256)
    {trace : List (Event T (Payload F))} {q : Queue T}
    (h : History config (payloadFormat sha256) trace q) (s k i : String) (payload : PyValue F)
    (c : Option T) :
    Faithful config sha256 s payload (enqueuePayload config limits sha256 s k payload i c q) ↔
      ¬ (validateIdentifier s "session" 256 = .ok s ∧
        validateIdentifier k "idempotency" 256 = .ok k ∧ Escapes limits payload) := by
  unfold enqueuePayload
  cases hs : validateIdentifier s "session" 256 with
  | error e => simp [Faithful, Except.mapError, bind, Except.bind]
  | ok s' =>
    obtain rfl := validateIdentifier_ok hs
    cases hk : validateIdentifier k "idempotency" 256 with
    | error e => simp [Faithful, Except.mapError, bind, Except.bind]
    | ok k' =>
      obtain rfl := validateIdentifier_ok hk
      rw [← serializePayload_escapes_iff]
      cases hser : serializePayload limits payload with
      | error raised =>
        show (∃ e, raised = .queue e) ↔ _
        cases raised with
        | queue e | unicodeEncodeError => simp
      | ok r =>
        constructor
        · intro _ ⟨_, _, hescapes⟩
          cases hescapes
        · intro _
          exact enqueue_faithful hsha h hser

end Payloads

/-! ### A list and a lone surrogate -/

/-- `\x7b"prompt": ("a",)\x7d` -/
def tuplePrompt : PyValue Unit :=
  .mapping [(.str (.ofString "prompt"), .tuple [.str (.ofString "a")])]

/-- `\x7b"prompt": "\ud800"\x7d`, as `json.loads` reads it. -/
def surrogatePrompt : PyValue Unit := .mapping [(.str (.ofString "prompt"), .str [.high])]

/-- The digest of the text of `tuplePrompt`; the other texts only need to be told apart. -/
def tupleSha256 (text : String) : String :=
  if text = "\x7b\"prompt\":[\"a\"]\x7d" then
    "5d51162edadbdc4ed1d8cbaabc934e07b85333a0971d191e91fc4e514d8b8696"
  else "sha256 of " ++ text

theorem tupleSha256_injective : Function.Injective tupleSha256 := by
  have hother : ∀ text : String,
      "5d51162edadbdc4ed1d8cbaabc934e07b85333a0971d191e91fc4e514d8b8696" ≠
        "sha256 of " ++ text := by
    intro text heq
    have hchars := congrArg (fun s => s.toList.head?) heq
    simp at hchars
  intro a b hab
  unfold tupleSha256 at hab
  split at hab
  · split at hab
    · simp_all
    · exact absurd hab (hother b)
  · split at hab
    · exact absurd hab.symm (hother a)
    · have hchars := congrArg String.toList hab
      simpa [String.toList_inj] using hchars

theorem enqueuePayload_tuple : Faithful {} tupleSha256 "a" tuplePrompt
      (enqueuePayload {} {} tupleSha256 "a" "k1" tuplePrompt "p1" (some 0)
        (Queue.empty : Queue Nat)) := by
  refine (enqueuePayload_iff tupleSha256_injective Run.nil "a" "k1" "p1" tuplePrompt
    (some 0)).mpr ?_
  intro ⟨_, _, hescapes⟩
  obtain ⟨v, hplain, -, hsurrogate⟩ := hescapes.surrogate
  cases hplain
  cases hsurrogate

theorem enqueuePayload_surrogate : ¬ Faithful {} tupleSha256 "a" surrogatePrompt
      (enqueuePayload {} {} tupleSha256 "a" "k1" surrogatePrompt "p1" (some 0)
        (Queue.empty : Queue Nat)) := by
  have hs : validateIdentifier "a" "session" 256 = .ok "a" := by decide +kernel
  have hk : validateIdentifier "k1" "idempotency" 256 = .ok "k1" := by decide +kernel
  have hser : serializePayload {} surrogatePrompt = .error .unicodeEncodeError :=
    serializePayload_escapes_iff.mpr ⟨rfl, by decide, by decide, _, rfl, by decide, by decide⟩
  unfold enqueuePayload
  rw [hs, hk, hser]
  intro ⟨e, he⟩
  cases he

end AlysisCode.PromptQueue
