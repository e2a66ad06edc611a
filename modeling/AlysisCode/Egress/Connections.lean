/-
The connections that the egress proxy serves, side by side.

Each connection is served by a worker of its own, which reads a request, checks its host, has the
name resolved, checks the members of the answer and dials them one after another.  Between any two
of these steps the other workers may act, an endpoint may be denied, and a deadline may pass; only
the set of denied endpoints and the slots of the resolver are shared.
-/
import AlysisCode.Egress.Policy

namespace AlysisCode.Egress

open Ip Runs

/-- What a proxy is made with.  A dialer may be injected; otherwise a socket is connected. -/
structure Config where
  limits : Limits
  policy : Policy
  ownedPreviewOriginAllowed : Bool
  injectedDialer : Bool

/-- Where the worker of a connection stands in `_serve_client`. -/
inductive Stage where
  | idle
  | reading (payload : List UInt8)
  | parsed (request : ParsedRequest)
  | cleared (request : ParsedRequest)
  | resolving (request : ParsedRequest)
  | resolved (request : ParsedRequest) (values : List (List Char))
  | judged (request : ParsedRequest) (values : List (List Char)) (denied : Bool)
  | admitted (request : ParsedRequest) (values rest : List (List Char))
  | dialing (request : ParsedRequest) (values rest : List (List Char))
  | connected (request : ParsedRequest)
  | closed (status : Nat)

/-- The proxy.  `lookups` are the connections whose resolver still runs; it may outlive them. -/
structure Proxy where
  denied : List (List Char × Nat)
  workers : List Nat
  lookups : List Nat
  stages : Nat → Stage

/-- `start`, on `port`: the listener itself is a denied endpoint. -/
def start (port : Nat) : Proxy where
  denied := [("127.0.0.1".toList, port)]
  workers := []
  lookups := []
  stages _ := .idle

/-- What happens, and to which connection. -/
inductive Event where
  | accept (c : Nat)
  | recv (c : Nat) (chunk : List UInt8)
  | parse (c : Nat)
  | checkHost (c : Nat)
  | lookUp (c : Nat) (name : List Char) (port : Nat)
  | answer (c : Nat) (outcome : Option (List (List Char)))
  | checkMembers (c : Nat)
  | decide (c : Nat) (ownedPreview : Option Bool)
  | dial (c : Nat) (address : List Char) (port : Nat)
  | refuse (c : Nat)
  | connect (c : Nat)
  | fail (c : Nat) (status : Nat)
  | deny (name : List Char) (port : Nat)

def Event.connection : Event → Option Nat
  | .accept c | .recv c _ | .parse c | .checkHost c | .lookUp c _ _ | .answer c _
  | .checkMembers c | .decide c _ | .dial c _ _ | .refuse c | .connect c | .fail c _ => some c
  | .deny _ _ => none

namespace Proxy

variable (s : Proxy)

def put (c : Nat) (stage : Stage) : Proxy :=
  { s with stages := Function.update s.stages c stage }

/-- The end of `_serve_client`. -/
def close (c : Nat) (status : Nat) : Proxy :=
  { s.put c (.closed status) with workers := s.workers.filter (· ≠ c) }

def failWith (c : Nat) : Failure → Proxy
  | .request status => s.close c status
  | .exception => s.close c 502

@[simp] theorem stages_put (c d : Nat) (stage : Stage) :
    (s.put c stage).stages d = if d = c then stage else s.stages d :=
  Function.update_apply s.stages c stage d

@[simp] theorem stages_close (c d : Nat) (status : Nat) :
    (s.close c status).stages d = if d = c then .closed status else s.stages d :=
  stages_put s c d _

end Proxy

/-- The addresses of an answer in their normal spelling, each once; `none` is the `ValueError` of
an answer that is no address. -/
def collect (values : List (List Char)) : Option (List (List Char)) :=
  values.foldlM (fun parsed value => (ipAddress value).map fun address =>
    if address.text ∈ parsed then parsed else parsed ++ [address.text]) []

/-- What `_resolve_public` makes of the outcome of the resolver. -/
def readOutcome (limits : Limits) (outcome : Option (List (List Char))) :
    Except Failure (List (List Char)) :=
  match outcome with
  | none => throw (.request 502)
  | some values =>
    let rawValues := values.take (limits.maxResolvedAddresses + 1)
    if limits.maxResolvedAddresses < rawValues.length then throw (.request 403)
    else
      match collect rawValues with
      | none => throw (.request 403)
      | some parsed => return parsed

/-- What is connected to: `_dial_numeric` reads the address once more. -/
def dialTarget (config : Config) (value : List Char) : Option (List Char) :=
  if config.injectedDialer then some value else (ipAddress value).map Address.text

variable (host : Host) (config : Config)

/-- One step.  The events `fail` are the deadlines, the stop of the proxy and the failures of
sockets, which may come at any time. -/
def step (s : Proxy) : Event → Option Proxy
  | .accept c =>
    match s.stages c with
    | .idle =>
      if s.workers.length < config.limits.maxConnections then
        some { s.put c (.reading []) with workers := c :: s.workers }
      else none
    | _ => none
  | .recv c chunk =>
    match s.stages c with
    | .reading payload =>
      match readHeader config.limits payload with
      | .more =>
        if chunk ≠ [] ∧ chunk.length ≤ min 4096 (config.limits.maxHeaderBytes - payload.length) then
          some (s.put c (.reading (payload ++ chunk)))
        else none
      | _ => none
    | _ => none
  | .parse c =>
    match s.stages c with
    | .reading payload =>
      match readHeader config.limits payload with
      | .header raw buffered =>
        match parseRequest host config.limits raw buffered with
        | .ok request => some (s.put c (.parsed request))
        | .error f => some (s.failWith c f)
      | .failed status => some (s.close c status)
      | .more => none
    | _ => none
  | .checkHost c =>
    match s.stages c with
    | .parsed request =>
      if (request.host, request.port) ∈ s.denied then some (s.close c 403)
      else
        match ipAddress request.host with
        | some literal => some (s.put c (.resolved request [literal.text]))
        | none => some (s.put c (.cleared request))
    | _ => none
  | .lookUp c name port =>
    match s.stages c with
    | .cleared request =>
      if (name, port) ≠ (request.host, request.port) then none
      else if s.lookups.length < config.limits.maxResolutions then
        some { s.put c (.resolving request) with lookups := c :: s.lookups }
      else some (s.close c 503)
    | _ => none
  | .answer c outcome =>
    if c ∈ s.lookups then
      let released := { s with lookups := s.lookups.filter (· ≠ c) }
      match s.stages c with
      | .resolving request =>
        match readOutcome config.limits outcome with
        | .ok values => some (released.put c (.resolved request values))
        | .error f => some (released.failWith c f)
      -- The worker has given up; what its resolver found is dropped.
      | _ => some released
    else none
  | .checkMembers c =>
    match s.stages c with
    | .resolved request values =>
      some (s.put c (.judged request values (values.any fun value =>
        decide ((value, request.port) ∈ s.denied))))
    | _ => none
  | .decide c ownedPreview =>
    match s.stages c with
    | .judged request values denied =>
      -- A callback that raises counts as a refusal, and so does having none.
      match checkDestination config.policy
          (config.ownedPreviewOriginAllowed && ownedPreview.getD false) denied values with
      | .ok _ => some (s.put c (.admitted request values values))
      | .error f => some (s.failWith c f)
    | _ => none
  | .dial c address port =>
    match s.stages c with
    | .admitted request values (value :: rest) =>
      if dialTarget config value = some address ∧ port = request.port then
        some (s.put c (.dialing request values rest))
      else none
    | _ => none
  | .refuse c =>
    match s.stages c with
    | .dialing request values rest =>
      if rest = [] then some (s.close c 502) else some (s.put c (.admitted request values rest))
    | _ => none
  | .connect c =>
    match s.stages c with
    | .dialing request _ _ => some (s.put c (.connected request))
    | _ => none
  | .fail c status =>
    match s.stages c with
    | .idle | .closed _ => none
    | _ => some (s.close c status)
  | .deny name port =>
    match normalizeHostPort host (some name) port with
    | .ok endpoint => some { s with denied := endpoint :: s.denied }
    | .error _ => some s

def Step (s : Proxy) (e : Event) (s' : Proxy) : Prop := step host config s e = some s'

end AlysisCode.Egress

/-! ### One step of one connection

What one step does to one connection.

An event moves the connection it is about from one stage to the next and leaves the stages of all
others alone; the denied endpoints only grow.  Everything that is said of whole runs rests on this
list of moves.
-/

namespace AlysisCode.Egress

open Ip Runs

variable {host : Host} {config : Config}

/-- The moves of connection `c` while `denied` are the denied endpoints. -/
inductive Moves (host : Host) (config : Config) (denied : List (List Char × Nat)) (c : Nat) :
    Event → Stage → Stage → Prop
  | accept : Moves host config denied c (.accept c) .idle (.reading [])
  | recv {payload chunk} : Moves host config denied c (.recv c chunk) (.reading payload)
      (.reading (payload ++ chunk))
  | parse {payload raw buffered request}
      (hread : readHeader config.limits payload = .header raw buffered)
      (hparse : parseRequest host config.limits raw buffered = .ok request) :
      Moves host config denied c (.parse c) (.reading payload) (.parsed request)
  | literal {request address} (hdenied : (request.host, request.port) ∉ denied)
      (haddress : ipAddress request.host = some address) :
      Moves host config denied c (.checkHost c) (.parsed request)
        (.resolved request [address.text])
  | clear {request} (hdenied : (request.host, request.port) ∉ denied)
      (hname : ipAddress request.host = none) :
      Moves host config denied c (.checkHost c) (.parsed request) (.cleared request)
  | lookUp {request} : Moves host config denied c (.lookUp c request.host request.port)
      (.cleared request) (.resolving request)
  | answer {request outcome values} (hread : readOutcome config.limits outcome = .ok values) :
      Moves host config denied c (.answer c outcome) (.resolving request)
        (.resolved request values)
  | late {stage outcome} (hstage : ∀ request, stage ≠ .resolving request) :
      Moves host config denied c (.answer c outcome) stage stage
  | checkMembers {request values} : Moves host config denied c (.checkMembers c)
      (.resolved request values)
      (.judged request values (values.any fun value => decide ((value, request.port) ∈ denied)))
  | decide {request values isDenied ownedPreview}
      (hcheck : checkDestination config.policy
        (config.ownedPreviewOriginAllowed && ownedPreview.getD false) isDenied values = .ok ()) :
      Moves host config denied c (.decide c ownedPreview) (.judged request values isDenied)
        (.admitted request values values)
  | dial {request values value rest address} (htarget : dialTarget config value = some address) :
      Moves host config denied c (.dial c address request.port)
        (.admitted request values (value :: rest)) (.dialing request values rest)
  | refuse {request values rest} : Moves host config denied c (.refuse c)
      (.dialing request values rest) (.admitted request values rest)
  | connect {request values rest} : Moves host config denied c (.connect c)
      (.dialing request values rest) (.connected request)
  | close {e stage status} (hstage : stage ≠ .idle) (hdial : ∀ address port, e ≠ .dial c address port) :
      Moves host config denied c e stage (.closed status)

variable (s : Proxy) {s' : Proxy} {e : Event} {c : Nat}

theorem stages_failWith (c d : Nat) (f : Failure) :
    ∃ status, (s.failWith c f).stages d = if d = c then .closed status else s.stages d := by
  cases f with
  | request status => exact ⟨status, Proxy.stages_close s c d status⟩
  | exception => exact ⟨502, Proxy.stages_close s c d 502⟩

theorem moves_failWith {denied : List (List Char × Nat)} {stage : Stage} (f : Failure)
    (hstage : stage ≠ .idle) (hdial : ∀ address port, e ≠ .dial c address port) :
    Moves host config denied c e stage ((s.failWith c f).stages c) := by
  obtain ⟨status, hclosed⟩ := stages_failWith s c c f
  rw [hclosed, if_pos rfl]
  exact .close hstage hdial

@[simp] theorem lookups_failWith (c : Nat) (f : Failure) :
    (s.failWith c f).lookups = s.lookups := by
  cases f <;> rfl

/-- **The moves of the connection that a step is about.** -/
theorem step_moves {s : Proxy} (h : step host config s e = some s') (hc : e.connection = some c) :
    Moves host config s.denied c e (s.stages c) (s'.stages c) := by
  cases e with
  | deny name port => cases hc
  | accept d =>
    cases hc
    simp only [step] at h
    split at h
    · next hstage =>
      split at h
      · cases h
        rw [hstage, Proxy.stages_put, if_pos rfl]
        exact .accept
      · cases h
    · cases h
  | recv d chunk =>
    cases hc
    simp only [step] at h
    split at h
    · next payload hstage =>
      split at h
      · split at h
        · cases h
          rw [hstage, Proxy.stages_put, if_pos rfl]
          exact .recv
        · cases h
      · cases h
    · cases h
  | parse d =>
    cases hc
    simp only [step] at h
    split at h
    · next payload hstage =>
      rw [hstage]
      split at h
      · next raw buffered hread =>
        split at h
        · next request hparse =>
          cases h
          rw [Proxy.stages_put, if_pos rfl]
          exact .parse hread hparse
        · next f _ =>
          cases h
          exact moves_failWith s f (by simp) (by simp)
      · cases h
        rw [Proxy.stages_close, if_pos rfl]
        exact .close (by simp) (by simp)
      · cases h
    · cases h
  | checkHost d =>
    cases hc
    simp only [step] at h
    split at h
    · next request hstage =>
      rw [hstage]
      split at h
      · cases h
        rw [Proxy.stages_close, if_pos rfl]
        exact .close (by simp) (by simp)
      · next hdenied =>
        split at h
        · next literal haddress =>
          cases h
          rw [Proxy.stages_put, if_pos rfl]
          exact .literal hdenied haddress
        · next hname =>
          cases h
          rw [Proxy.stages_put, if_pos rfl]
          exact .clear hdenied hname
    · cases h
  | lookUp d name port =>
    cases hc
    simp only [step] at h
    split at h
    · next request hstage =>
      rw [hstage]
      split at h
      · cases h
      · next hname =>
        obtain ⟨rfl, rfl⟩ := Prod.mk.inj (not_ne_iff.mp hname)
        split at h
        · cases h
          rw [Proxy.stages_put, if_pos rfl]
          exact .lookUp
        · cases h
          rw [Proxy.stages_close, if_pos rfl]
          exact .close (by simp) (by simp)
    · cases h
  | answer d outcome =>
    cases hc
    simp only [step] at h
    split at h
    · split at h
      · next request hstage =>
        rw [hstage]
        split at h
        · next values hread =>
          cases h
          rw [Proxy.stages_put, if_pos rfl]
          exact .answer hread
        · next f _ =>
          cases h
          exact moves_failWith _ f (by simp) (by simp)
      · next hstage =>
        cases h
        exact .late hstage
    · cases h
  | checkMembers d =>
    cases hc
    simp only [step] at h
    split at h
    · next request values hstage =>
      cases h
      rw [hstage, Proxy.stages_put, if_pos rfl]
      exact .checkMembers
    · cases h
  | decide d ownedPreview =>
    cases hc
    simp only [step] at h
    split at h
    · next request values isDenied hstage =>
      rw [hstage]
      split at h
      · next hcheck =>
        cases h
        rw [Proxy.stages_put, if_pos rfl]
        exact .decide hcheck
      · next f _ =>
        cases h
        exact moves_failWith s f (by simp) (by simp)
    · cases h
  | dial d address port =>
    cases hc
    simp only [step] at h
    split at h
    · next request values value rest hstage =>
      split at h
      · next htarget =>
        obtain ⟨htarget, rfl⟩ := htarget
        cases h
        rw [hstage, Proxy.stages_put, if_pos rfl]
        exact .dial htarget
      · cases h
    · cases h
  | refuse d =>
    cases hc
    simp only [step] at h
    split at h
    · next request values rest hstage =>
      rw [hstage]
      split at h
      · cases h
        rw [Proxy.stages_close, if_pos rfl]
        exact .close (by simp) (by simp)
      · cases h
        rw [Proxy.stages_put, if_pos rfl]
        exact .refuse
    · cases h
  | connect d =>
    cases hc
    simp only [step] at h
    split at h
    · next request values rest hstage =>
      cases h
      rw [hstage, Proxy.stages_put, if_pos rfl]
      exact .connect
    · cases h
  | fail d status =>
    cases hc
    simp only [step] at h
    split at h
    · cases h
    · cases h
    · next hidle hclosed =>
      cases h
      rw [Proxy.stages_close, if_pos rfl]
      exact .close hidle (by simp)

/-- **A step leaves the stages of the other connections alone.** -/
theorem stages_of_ne {s : Proxy} (h : step host config s e = some s') (hc : e.connection ≠ some c) :
    s'.stages c = s.stages c := by
  have hfail : ∀ (t : Proxy) (d : Nat) (f : Failure), c ≠ d →
      (t.failWith d f).stages c = t.stages c := by
    intro t d f hne
    obtain ⟨status, hstage⟩ := stages_failWith t d c f
    rw [hstage, if_neg hne]
  cases e with
  | deny name port =>
    simp only [step] at h
    split at h <;> cases h <;> rfl
  | accept d | recv d chunk | parse d | checkHost d | lookUp d name port | answer d outcome
  | checkMembers d | decide d ownedPreview | dial d address port | refuse d | connect d
  | fail d status =>
    have hne : c ≠ d := fun heq => hc (congrArg some heq.symm)
    simp only [step] at h
    repeat' split at h
    all_goals first
      | cases h
        first
          | exact hfail _ _ _ hne
          | rw [Proxy.stages_put, if_neg hne]
          | rw [Proxy.stages_close, if_neg hne]
          | rfl
      | cases h

theorem lookups_step {s : Proxy} (h : step host config s e = some s') (hc : c ∈ s'.lookups) :
    (c ∈ s.lookups ∧ ∀ outcome, e ≠ .answer c outcome) ∨
      ∃ request, s'.stages c = .resolving request := by
  cases e with
  | answer d outcome =>
    have hkept : c ∈ s.lookups.filter (· ≠ d) := by
      simp only [step] at h
      repeat' split at h
      all_goals first
        | cases h
          first
            | exact hc
            | rwa [lookups_failWith] at hc
        | cases h
    obtain ⟨hmem, hne⟩ := List.mem_filter.mp hkept
    refine Or.inl ⟨hmem, fun outcome' heq => ?_⟩
    cases heq
    simp at hne
  | lookUp d name port =>
    simp only [step] at h
    split at h
    · next request hstage =>
      split at h
      · cases h
      · split at h
        · cases h
          rcases List.mem_cons.mp hc with rfl | hc
          · refine Or.inr ⟨request, ?_⟩
            rw [Proxy.stages_put, if_pos rfl]
          · exact Or.inl ⟨hc, fun outcome heq => by cases heq⟩
        · cases h
          exact Or.inl ⟨hc, fun outcome heq => by cases heq⟩
    · cases h
  | deny name port =>
    simp only [step] at h
    split at h <;> cases h <;> exact Or.inl ⟨hc, fun outcome heq => by cases heq⟩
  | accept d | recv d chunk | parse d | checkHost d | checkMembers d | decide d ownedPreview
  | dial d address port | refuse d | connect d | fail d status =>
    refine Or.inl ⟨?_, fun outcome heq => by cases heq⟩
    simp only [step] at h
    repeat' split at h
    all_goals first
      | cases h
        first
          | exact hc
          | rwa [lookups_failWith] at hc
      | cases h

/-- Whoever waits for the resolver is resolving, or has given up. -/
def Waits : Prop :=
  ∀ c ∈ s.lookups, (∃ request, s.stages c = .resolving request) ∨
    ∃ status, s.stages c = .closed status

theorem waits_start (port : Nat) : Waits (start port) := by
  intro c hc
  cases hc

theorem waits_step {s : Proxy} (h : step host config s e = some s') (hs : Waits s) : Waits s' := by
  intro c hc
  rcases lookups_step h hc with ⟨hold, hanswer⟩ | hnew
  · by_cases habout : e.connection = some c
    · have hmove := step_moves h habout
      rcases hs c hold with ⟨request, hstage⟩ | ⟨status, hstage⟩
      · rw [hstage] at hmove
        generalize s'.stages c = stage at hmove
        cases hmove with
        | answer hread => exact absurd rfl (hanswer _)
        | late hlate => exact absurd rfl (hlate request)
        | close hne hdial => exact Or.inr ⟨_, rfl⟩
      · rw [hstage] at hmove
        generalize s'.stages c = stage at hmove
        cases hmove with
        | late hlate => exact Or.inr ⟨status, rfl⟩
        | close hne hdial => exact Or.inr ⟨_, rfl⟩
    · rw [stages_of_ne h habout]
      exact hs c hold
  · exact Or.inl hnew

end AlysisCode.Egress
