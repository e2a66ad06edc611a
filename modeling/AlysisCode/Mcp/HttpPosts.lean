/-
How often the HTTP transport posts a request.

`_send_jsonrpc_message` posts its request again only after a 401 that a refreshed token may answer,
and never one of `tools/call`.  Answers to the requests that a server makes in an event stream are
posted by the same function.  Replies, tokens, the handler of those requests and the checks of
results are the environment's, which may answer otherwise every time.
-/
import Mathlib.Data.List.Count

namespace AlysisCode.Mcp.Http

/-- What is posted during a tool call; an answer is one to a request of the server. -/
inductive Method
  | initializeRequest
  | initialized
  | toolsCall
  | answer
  deriving DecidableEq

inductive Failure
  | sessionExpired
  | transport
  | oauth
  | client

inductive Message
  | notification
  | request
  | response (expected : Bool)
  | malformed

inductive Content
  | missing (empty : Bool)
  | json (message : Message)
  /-- the messages up to where the stream is left, and whether that is by an error -/
  | eventStream (hasLength : Bool) (messages : List Message) (fails : Bool)
  | other

structure Response where
  status : Nat
  insufficientScope : Bool
  sessionId : Bool
  content : Content

/-- What the environment answers, from a state of its own. -/
structure Env (σ : Type) where
  oauthEnabled : Bool
  /-- `none` is a timeout or an error of the connection. -/
  reply : Method → σ → Option Response × σ
  /-- `_resolve_oauth_token_record`: whether the record has a refresh token -/
  resolveToken : σ → Except Failure Bool × σ
  refreshToken : σ → Except Failure Unit × σ
  /-- whether the handler answers a request of the server, if it is supported at all -/
  handler : σ → Option Bool × σ
  /-- the checks of a result; of `initialize`, with whether the server has tools -/
  check : Method → σ → Except Failure Bool × σ

structure World (σ : Type) where
  closed : Bool
  session : Bool
  initialized : Bool
  supportsTools : Bool
  env : σ
  /-- how many requests were sent -/
  sends : Nat
  /-- every POST, with the number of its request -/
  posts : List (Nat × Method)

abbrev M (σ : Type) := ExceptT Failure (StateM (World σ))

variable {σ α β : Type} (env : Env σ)

def ask (f : σ → α × σ) : M σ α := fun w => (.ok (f w.env).1, { w with env := (f w.env).2 })

def askOr (f : σ → Except Failure α × σ) : M σ α := fun w =>
  ((f w.env).1, { w with env := (f w.env).2 })

/-! ### The transport -/

/-- `_handle_oauth_http_status` -/
def handleOauthHttpStatus (r : Response) (refreshable replay retried : Bool) : M σ Bool :=
  if r.status = 403 ∧ r.insufficientScope then throw .oauth
  else if r.status ≠ 401 then pure false
  else if !refreshable then throw .oauth
  else if replay then
    if retried then throw .oauth
    else do
      askOr env.refreshToken
      pure true
  else do
    askOr env.refreshToken
    throw .oauth

/-- `_raise_for_http_status` -/
def raiseForHttpStatus (status : Nat) (hadSession : Bool) : M σ Unit :=
  if 200 ≤ status ∧ status < 300 then pure ()
  else if status = 404 ∧ hadSession then throw .sessionExpired
  else throw .transport

/-- `_process_jsonrpc_message`, with whether the response has been received afterwards. -/
def processMessage (onRequest : M σ Unit) (expects received allow : Bool) : Message → M σ Bool
  | .notification => if received then throw .transport else pure received
  | .request => if allow then do onRequest; pure received else throw .transport
  | .response expected =>
    if !expects || received || !expected then throw .transport else pure true
  | .malformed => throw .transport

/-- The loop of `_handle_event_stream`. -/
def readEvents (onRequest : M σ Unit) (expects : Bool) : Bool → List Message → M σ Bool
  | received, [] => pure received
  | received, m :: rest => do
    let received ← processMessage onRequest expects received (expects && !received) m
    readEvents onRequest expects received rest

def handleOpenEndedFollowUpMessage : Message → M σ Unit
  | .notification => pure ()
  | _ => throw .transport

/-- The loop of `_handle_open_ended_request_event_stream`. -/
def readOpenEnded (onRequest : M σ Unit) : Bool → List Message → M σ Bool
  | received, [] => pure received
  | true, m :: rest => do
    handleOpenEndedFollowUpMessage m
    readOpenEnded onRequest true rest
  | false, m :: rest => do
    let received ← processMessage onRequest true false true m
    readOpenEnded onRequest received rest

def readStream (onRequest : M σ Unit) (expects hasLength : Bool) (messages : List Message) :
    M σ Bool :=
  if !hasLength && expects then readOpenEnded onRequest false messages
  else readEvents onRequest expects false messages

def handleContent (onRequest : M σ Unit) (r : Response) (expects : Bool) : M σ Unit :=
  match r.content with
  | .missing empty =>
    if !expects && (r.status == 202 || r.status == 204 || empty) then pure () else throw .transport
  | .json m => do
    let received ← processMessage onRequest expects false false m
    if expects && !received then throw .transport else pure ()
  | .eventStream hasLength messages fails => do
    let received ← readStream onRequest expects hasLength messages
    if fails || (expects && !received) then throw .transport else pure ()
  | .other => throw .transport

/-- One POST of request `n`. -/
def post (n : Nat) (method : Method) : M σ Response := do
  modify fun w => { w with posts := w.posts ++ [(n, method)] }
  askOr fun e => ((env.reply method e).1.elim (.error .transport) .ok, (env.reply method e).2)

def accessToken : M σ Bool :=
  if env.oauthEnabled then askOr env.resolveToken else pure false

def replays (r : Response) (method : Method) (refreshable retried : Bool) : M σ Bool :=
  if env.oauthEnabled then handleOauthHttpStatus env r refreshable (method ≠ .toolsCall) retried
  else pure false

/-- `_capture_session_headers` -/
def captureSessionHeaders (r : Response) (method : Method) : M σ Unit :=
  modify fun w => { w with session := w.session || (method = .initializeRequest && r.sessionId) }

/-- One round of the loop of `_send_jsonrpc_message`. -/
def attempt (onRequest : M σ Unit) (n : Nat) (method : Method) (expects hadSession retried : Bool)
    (again : M σ Unit) : M σ Unit := do
  let refreshable ← accessToken env
  let r ← post env n method
  let replay ← replays env r method refreshable retried
  if replay then again
  else do
    raiseForHttpStatus r.status hadSession
    captureSessionHeaders r method
    handleContent onRequest r expects

/-- `_send_jsonrpc_message`.  A third round is never asked for: see `replays_of_retried`. -/
def sendWith (onRequest : M σ Unit) (method : Method) (expects : Bool) : M σ Unit := do
  let w ← get
  if w.closed then throw .transport
  else do
    set { w with sends := w.sends + 1 }
    attempt env onRequest w.sends method expects w.session false
      (attempt env onRequest w.sends method expects w.session true (throw .oauth))

/-- `_handle_server_request_message`.  An answer expects no response, so its own stream may hold no
request. -/
def handleServerRequest : M σ Unit := do
  match ← ask env.handler with
  | none => throw .transport
  | some handled =>
    sendWith env (throw .transport) .answer false
    if handled then pure () else throw .transport

def send : Method → Bool → M σ Unit := sendWith env (handleServerRequest env)

/-! ### The client -/

def initializeOnce : M σ Unit := do
  send env .initializeRequest true
  let tools ← askOr (env.check .initializeRequest)
  modify fun w => { w with supportsTools := tools }
  send env .initialized false
  modify fun w => { w with initialized := true }

def ensureInitialized : M σ Unit := do
  if (← get).initialized then pure ()
  else tryCatch (initializeOnce env) fun e => do
    modify fun w => { w with closed := true }
    throw e

def callToolOnce : M σ Unit := do
  send env .toolsCall true
  let _ ← askOr (env.check .toolsCall)

def reinitializeAfterSessionExpiry : M σ Unit := do
  modify fun w => { w with session := false, initialized := false, supportsTools := false }
  ensureInitialized env

def callTool : M σ Unit := do
  ensureInitialized env
  if (← get).supportsTools then
    tryCatch (callToolOnce env) fun
      | .sessionExpired => do
        tryCatch (reinitializeAfterSessionExpiry env) fun _ => pure ()
        throw .client
      | e => throw e
  else throw .client

/-! ### What is posted -/

/-- The POSTs that are added: of an earlier request at most what `c` allows, of each new one at
most two, and of `tools/call` at most `k`. -/
def Added (c : Nat → Nat) (k : Nat) (w w' : World σ) : Prop :=
  w.sends ≤ w'.sends ∧ ∃ new, w'.posts = w.posts ++ new ∧
    (∀ i, new.countP (·.1 = i) ≤ c i + if w.sends ≤ i ∧ i < w'.sends then 2 else 0) ∧
    new.countP (·.2 = .toolsCall) ≤ k

def Adds (c : Nat → Nat) (k : Nat) (m : M σ α) : Prop := ∀ w, Added c k w (m w).2

/-- Nothing is added that is not a new request of another method. -/
def Quiet (m : M σ α) : Prop := Adds (fun _ => 0) 0 m

/-- The one post of request `n`. -/
def once (n i : Nat) : Nat := if i = n then 1 else 0

variable {env} {c d : Nat → Nat} {j k n : Nat} {m : M σ α} {f : α → M σ β} {w w' w'' : World σ}

theorem Added.same (hposts : w'.posts = w.posts) (hsends : w'.sends = w.sends) : Added c k w w' :=
  ⟨Nat.le_of_eq hsends.symm, [], by simp [hposts], by simp, by simp⟩

theorem Added.trans (h : Added c j w w') (h' : Added d k w' w'') :
    Added (fun i => c i + d i) (j + k) w w'' := by
  obtain ⟨hle, new, hnew, hcount, htools⟩ := h
  obtain ⟨hle', new', hnew', hcount', htools'⟩ := h'
  refine ⟨Nat.le_trans hle hle', new ++ new', by rw [hnew', hnew, List.append_assoc], ?_, ?_⟩
  · intro i
    have h := hcount i
    have h' := hcount' i
    rw [List.countP_append]
    show _ ≤ c i + d i + _
    -- a request is new in one of the two halves at most
    split at h <;> split at h' <;> split <;> omega
  · rw [List.countP_append]
    omega

theorem Added.mono (h : Added c j w w') (hc : ∀ i, c i ≤ d i) (hjk : j ≤ k) : Added d k w w' := by
  obtain ⟨hle, new, hnew, hcount, htools⟩ := h
  refine ⟨hle, new, hnew, fun i => ?_, Nat.le_trans htools hjk⟩
  exact Nat.le_trans (hcount i) (Nat.add_le_add_right (hc i) _)

/-- What follows a computation need only be looked at for what it can give. -/
theorem Adds.bind {P : α → Prop} (hm : Adds c j m) (hP : ∀ w a w', m w = (.ok a, w') → P a)
    (hf : ∀ a, P a → Adds d k (f a)) : Adds (fun i => c i + d i) (j + k) (m >>= f) := by
  intro w
  have h := hm w
  show Added _ _ w (ExceptT.bindCont f (m w).1 (m w).2).2
  cases hrun : m w with
  | mk r w' =>
    rw [hrun] at h
    cases r with
    | ok a => exact h.trans (hf a (hP w a w' hrun) w')
    | error e => exact h.mono (fun _ => Nat.le_add_right ..) (Nat.le_add_right ..)

theorem Quiet.adds (h : Quiet m) : Adds c k m :=
  fun w => (h w).mono (fun _ => Nat.zero_le _) (Nat.zero_le _)

theorem Adds.seq (hm : Adds c j m) (hf : ∀ a, Adds d k (f a)) :
    Adds (fun i => c i + d i) (j + k) (m >>= f) :=
  Adds.bind (P := fun _ => True) hm (fun _ _ _ _ => trivial) fun a _ => hf a

theorem Quiet.bind (hm : Quiet m) (hf : ∀ a, Quiet (f a)) : Quiet (m >>= f) := Adds.seq hm hf

theorem Quiet.andThen (hm : Quiet m) (hf : ∀ a, Adds c k (f a)) : Adds c k (m >>= f) := by
  simpa using Adds.seq hm hf

theorem Adds.tryCatch {handler : Failure → M σ α} (hm : Adds c k m)
    (hhandler : ∀ e, Quiet (handler e)) : Adds c k (tryCatch m handler) := by
  intro w
  have h := hm w
  show Added c k w ((ExceptT.tryCatch m handler : M σ α) w).2
  simp only [ExceptT.tryCatch, ExceptT.mk, Bind.bind, StateT.bind]
  cases hrun : m w with
  | mk r w' =>
    rw [hrun] at h
    cases r with
    | ok a => exact h
    | error e => exact h.trans (hhandler e w')

theorem quiet_pure (a : α) : Quiet (pure a : M σ α) := fun _ => .same rfl rfl

theorem quiet_throw (e : Failure) : Quiet (throw e : M σ α) := fun _ => .same rfl rfl

theorem quiet_ask (g : σ → α × σ) : Quiet (ask g) := fun _ => .same rfl rfl

theorem quiet_askOr (g : σ → Except Failure α × σ) : Quiet (askOr g) := fun _ => .same rfl rfl

theorem quiet_ite {p : Prop} [Decidable p] {x y : M σ α} (hx : Quiet x) (hy : Quiet y) :
    Quiet (if p then x else y) := by
  split
  · exact hx
  · exact hy

theorem quiet_modify (g : World σ → World σ) (hposts : ∀ w, (g w).posts = w.posts)
    (hsends : ∀ w, (g w).sends = w.sends) : Quiet (modify g : M σ Unit) :=
  fun w => .same (hposts w) (hsends w)

theorem bind_throw_ne (m : M σ α) {e : Failure} (b : β) :
    (m >>= fun _ => (throw e : M σ β)) w ≠ (.ok b, w') := by
  intro h
  have hrun : (ExceptT.bindCont (fun _ => (throw e : M σ β)) (m w).1 : StateM (World σ) _) (m w).2 =
      (.ok b, w') := h
  cases hm : (m w).1 with
  | ok a =>
    rw [hm] at hrun
    cases hrun
  | error e' =>
    rw [hm] at hrun
    cases hrun

theorem quiet_get : Quiet (get : M σ (World σ)) := fun _ => .same rfl rfl

section Transport

variable {onRequest : M σ Unit} {r : Response} {method : Method}

theorem quiet_processMessage (h : Quiet onRequest) (expects received allow : Bool)
    (message : Message) : Quiet (processMessage onRequest expects received allow message) := by
  unfold processMessage
  cases message with
  | notification => exact quiet_ite (quiet_throw _) (quiet_pure _)
  | request => exact quiet_ite (h.bind fun _ => quiet_pure _) (quiet_throw _)
  | response expected => exact quiet_ite (quiet_throw _) (quiet_pure _)
  | malformed => exact quiet_throw _

theorem quiet_readEvents (h : Quiet onRequest) (expects received : Bool) (messages : List Message) :
    Quiet (readEvents onRequest expects received messages) := by
  induction messages generalizing received with
  | nil => exact quiet_pure _
  | cons m rest ih => exact Quiet.bind (quiet_processMessage h _ _ _ _) fun received => ih received

theorem quiet_readOpenEnded (h : Quiet onRequest) (received : Bool) (messages : List Message) :
    Quiet (readOpenEnded onRequest received messages) := by
  induction messages generalizing received with
  | nil => cases received <;> exact quiet_pure _
  | cons m rest ih =>
    cases received with
    | false => exact Quiet.bind (quiet_processMessage h _ _ _ _) fun received => ih received
    | true =>
      refine Quiet.bind ?_ fun _ => ih true
      cases m with
      | notification => exact quiet_pure _
      | request | response | malformed => exact quiet_throw _

theorem quiet_handleContent (h : Quiet onRequest) (r : Response) (expects : Bool) :
    Quiet (handleContent onRequest r expects) := by
  unfold handleContent
  cases r.content with
  | missing empty => exact quiet_ite (quiet_pure _) (quiet_throw _)
  | json m =>
    exact Quiet.bind (quiet_processMessage h _ _ _ _) fun _ =>
      quiet_ite (quiet_throw _) (quiet_pure _)
  | eventStream hasLength messages fails =>
    refine Quiet.bind ?_ fun _ => quiet_ite (quiet_throw _) (quiet_pure _)
    exact quiet_ite (quiet_readOpenEnded h _ _) (quiet_readEvents h _ _ _)
  | other => exact quiet_throw _

theorem quiet_replays (refreshable retried : Bool) :
    Quiet (replays env r method refreshable retried) := by
  have hrefresh (m : M σ Bool) (hm : Quiet m) : Quiet (askOr env.refreshToken >>= fun _ => m) :=
    (quiet_askOr _).bind fun _ => hm
  refine quiet_ite (quiet_ite (quiet_throw _) (quiet_ite (quiet_pure _) (quiet_ite (quiet_throw _)
    (quiet_ite (quiet_ite (quiet_throw _) ?_) ?_)))) (quiet_pure _)
  · exact hrefresh _ (quiet_pure _)
  · exact hrefresh _ (quiet_throw _)

/-- A request is only repeated where that is allowed, and once. -/
theorem replays_of_retried {refreshable retried : Bool}
    (h : replays env r method refreshable retried w = (.ok true, w')) :
    method ≠ .toolsCall ∧ retried = false := by
  unfold replays handleOauthHttpStatus at h
  split at h
  · split at h
    · cases h
    split at h
    · cases h
    split at h
    · cases h
    split at h
    · next hreplay =>
      split at h
      · cases h
      · next hretried => exact ⟨of_decide_eq_true hreplay, Bool.eq_false_iff.mpr hretried⟩
    · exact absurd h (bind_throw_ne _ _)
  · cases h

/-- Whether a request is one of `tools/call`. -/
def tools (method : Method) : Nat := if method = .toolsCall then 1 else 0

theorem adds_post (n : Nat) (method : Method) :
    Adds (once n) (tools method) (post env n method) := by
  intro w
  refine ⟨Nat.le_refl _, [(n, method)], rfl, fun i => ?_, ?_⟩
  · rw [List.countP_singleton]
    simp only [once, decide_eq_true_eq, @eq_comm _ n i]
    exact Nat.le_add_right ..
  · rw [List.countP_singleton]
    simp [tools]

/-- One round posts the request once, and then what follows if it may be repeated. -/
theorem adds_attempt (h : Quiet onRequest) (n : Nat) (method : Method)
    (expects hadSession retried : Bool) {again : M σ Unit}
    (hagain : method ≠ .toolsCall → retried = false → Adds c 0 again) :
    Adds (fun i => once n i + c i) (tools method)
      (attempt env onRequest n method expects hadSession retried again) := by
  refine Quiet.andThen (quiet_ite (quiet_askOr _) (quiet_pure _)) fun refreshable => ?_
  refine Adds.seq (k := 0) (adds_post n method) fun r => ?_
  rw [← funext fun i => Nat.zero_add (c i), ← Nat.zero_add 0]
  refine Adds.bind (P := fun replay => replay = true → method ≠ .toolsCall ∧ retried = false)
    (quiet_replays _ _) ?_ fun replay hreplay => ?_
  · rintro w a w' hrun rfl
    exact replays_of_retried hrun
  · cases replay with
    | true => exact hagain (hreplay rfl).1 (hreplay rfl).2
    | false =>
      refine Quiet.adds (Quiet.bind ?_ fun _ => Quiet.bind ?_ fun _ => quiet_handleContent h _ _)
      · exact quiet_ite (quiet_pure _) (quiet_ite (quiet_throw _) (quiet_throw _))
      · exact quiet_modify _ (fun _ => rfl) fun _ => rfl

/-- A request is posted at most twice, and once if it is of `tools/call`. -/
theorem adds_sendWith (h : Quiet onRequest) (method : Method) (expects : Bool) :
    Adds (fun _ => 0) (tools method) (sendWith env onRequest method expects) := by
  intro w
  by_cases hclosed : w.closed = true
  · have hrun : sendWith env onRequest method expects w = (.error .transport, w) := by
      show (if w.closed = true then (throw .transport : M σ Unit) else _) w = _
      rw [if_pos hclosed]
      rfl
    rw [hrun]
    exact .same rfl rfl
  · have hrun : sendWith env onRequest method expects w =
        attempt env onRequest w.sends method expects w.session false
          (attempt env onRequest w.sends method expects w.session true (throw .oauth))
          { w with sends := w.sends + 1 } := by
      show (if w.closed = true then (throw .transport : M σ Unit) else _) w = _
      rw [if_neg hclosed]
      rfl
    have hsecond : method ≠ .toolsCall → false = false → Adds (once w.sends) 0
        (attempt env onRequest w.sends method expects w.session true (throw .oauth)) := by
      intro hmethod _
      have hadds : Adds (fun i => once w.sends i + 0) (tools method)
          (attempt env onRequest w.sends method expects w.session true (throw .oauth)) :=
        adds_attempt h w.sends method expects w.session true fun _ hretried => absurd hretried
          (by decide)
      rwa [tools, if_neg hmethod] at hadds
    obtain ⟨hle, new, hnew, hcount, htools⟩ :=
      adds_attempt h w.sends method expects w.session false hsecond { w with sends := w.sends + 1 }
    rw [← hrun] at hle hnew hcount
    have hlt : w.sends + 1 ≤ (sendWith env onRequest method expects w).2.sends := hle
    refine ⟨Nat.le_trans (Nat.le_succ _) hlt, new, hnew, fun i => ?_, htools⟩
    have hi := hcount i
    simp only [once] at hi ⊢
    split at hi <;> split at hi <;> split <;> omega

theorem quiet_handleServerRequest : Quiet (handleServerRequest env) := by
  refine Quiet.bind (quiet_ask _) fun handled => ?_
  cases handled with
  | none => exact quiet_throw _
  | some handled =>
    refine Quiet.bind (adds_sendWith (quiet_throw _) .answer false) fun _ => ?_
    exact quiet_ite (quiet_pure _) (quiet_throw _)

end Transport

theorem adds_send (method : Method) (expects : Bool) :
    Adds (fun _ => 0) (tools method) (send env method expects) :=
  adds_sendWith quiet_handleServerRequest method expects

theorem quiet_ensureInitialized : Quiet (ensureInitialized env) := by
  refine Quiet.bind quiet_get fun w => quiet_ite (quiet_pure _) ?_
  refine Adds.tryCatch ?_ fun e => Quiet.bind ?_ fun _ => quiet_throw e
  · refine Quiet.bind (adds_send .initializeRequest true) fun _ => ?_
    refine Quiet.bind (quiet_askOr _) fun tools => Quiet.bind ?_ fun _ => ?_
    · exact quiet_modify _ (fun _ => rfl) fun _ => rfl
    · refine Quiet.bind (adds_send .initialized false) fun _ => ?_
      exact quiet_modify _ (fun _ => rfl) fun _ => rfl
  · exact quiet_modify _ (fun _ => rfl) fun _ => rfl

theorem adds_callTool : Adds (fun _ => 0) 1 (callTool env) := by
  refine Quiet.andThen quiet_ensureInitialized fun _ => Quiet.andThen quiet_get fun w => ?_
  split
  · refine Adds.tryCatch ?_ fun e => ?_
    · exact Adds.seq (j := 1) (d := fun _ => 0) (adds_send .toolsCall true) fun _ =>
        (quiet_askOr _).bind fun _ => quiet_pure _
    · cases e with
      | sessionExpired =>
        refine Quiet.bind ?_ fun _ => quiet_throw _
        refine Adds.tryCatch (Quiet.bind ?_ fun _ => quiet_ensureInitialized) fun _ => quiet_pure _
        exact quiet_modify _ (fun _ => rfl) fun _ => rfl
      | transport | oauth | client => exact quiet_throw _
  · exact (quiet_throw _).adds

/-- **A tool call is posted at most once**, and any other request at most twice. -/
theorem callTool_posts (env : Env σ) (w : World σ) :
    ∃ new, (callTool env w).2.posts = w.posts ++ new ∧
      new.countP (·.2 = .toolsCall) ≤ 1 ∧ ∀ n, new.countP (·.1 = n) ≤ 2 := by
  obtain ⟨-, new, hnew, hcount, htools⟩ : Added (fun _ => 0) 1 w (callTool env w).2 :=
    adds_callTool w
  refine ⟨new, hnew, htools, fun n => Nat.le_trans (hcount n) ?_⟩
  rw [Nat.zero_add]
  split <;> omega

end AlysisCode.Mcp.Http
