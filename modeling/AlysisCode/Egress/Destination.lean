/-
What the egress proxy connects to.

Whatever bytes the clients send and whatever the resolver answers, an address that is dialled
belongs to the one set of addresses of its own request, and the whole of that set has been judged.
The policies that judge it are nested but for loopback of version 6.
-/
import AlysisCode.Egress.Connections

namespace AlysisCode.Egress

open Ip Runs

variable {host : Host} {config : Config}

/-! ### What a connection has seen -/

/-- The bytes that came over a connection. -/
def received (c : Nat) (trace : List Event) : List UInt8 :=
  trace.flatMap fun
    | .recv d chunk => if d = c then chunk else []
    | _ => []

/-- The outcomes of the resolver for a connection. -/
def answers (c : Nat) (trace : List Event) : List (Option (List (List Char))) :=
  trace.filterMap fun
    | .answer d outcome => if d = c then some outcome else none
    | _ => none

/-- The request that the bytes of a connection hold. -/
def Requested (host : Host) (config : Config) (trace : List Event) (c : Nat)
    (request : ParsedRequest) : Prop :=
  ∃ raw buffered, readHeader config.limits (received c trace) = .header raw buffered ∧
    parseRequest host config.limits raw buffered = .ok request

/-- The addresses of the request: the literal that the host is, or those of the one answer to the
one lookup of its name. -/
def Resolves (trace : List Event) (c : Nat) (request : ParsedRequest)
    (addresses : List Address) : Prop :=
  (∃ literal, ipAddress request.host = some literal ∧ addresses = [literal] ∧
    answers c trace = []) ∨
  (ipAddress request.host = none ∧ .lookUp c request.host request.port ∈ trace ∧
    ∃ values, answers c trace = [some values] ∧ (∀ v ∈ values, (ipAddress v).isSome = true) ∧
      ∀ a, a ∈ addresses ↔ ∃ v ∈ values, ipAddress v = some a)

/-- An event of the trace met a proxy whose denied endpoints satisfy `C`. -/
def Met (host : Host) (config : Config) (port : Nat) (e : Event)
    (C : List (List Char × Nat) → Prop) (trace : List Event) : Prop :=
  SomeSince (Step host config) (start port) (fun _ => false) (fun m l => l = e ∧ C m.denied) trace

/-- The policy has let the set of addresses through. -/
def Admitted (config : Config) (trace : List Event) (c : Nat) (addresses : List Address) : Prop :=
  ∃ ownedPreview, .decide c ownedPreview ∈ trace ∧
    config.policy.Admits (config.ownedPreviewOriginAllowed && ownedPreview.getD false) addresses

/-- What is known of a connection by where it stands. -/
def Known (host : Host) (config : Config) (port : Nat) (trace : List Event) (c : Nat) : Stage → Prop
  | .idle => received c trace = [] ∧ answers c trace = []
  | .reading payload => payload = received c trace ∧ answers c trace = []
  | .parsed request => Requested host config trace c request ∧ answers c trace = []
  | .cleared request =>
    Requested host config trace c request ∧ answers c trace = [] ∧ ipAddress request.host = none ∧
      Met host config port (.checkHost c) (fun denied => (request.host, request.port) ∉ denied) trace
  | .resolving request =>
    Requested host config trace c request ∧ answers c trace = [] ∧ ipAddress request.host = none ∧
      Met host config port (.checkHost c) (fun denied => (request.host, request.port) ∉ denied)
        trace ∧ .lookUp c request.host request.port ∈ trace
  | .resolved request values =>
    Requested host config trace c request ∧
      Met host config port (.checkHost c) (fun denied => (request.host, request.port) ∉ denied)
        trace ∧
      ∃ addresses, values = addresses.map Address.text ∧ Resolves trace c request addresses
  | .judged request values isDenied =>
    Requested host config trace c request ∧
      Met host config port (.checkHost c) (fun denied => (request.host, request.port) ∉ denied)
        trace ∧
      (isDenied = false → Met host config port (.checkMembers c)
        (fun denied => ∀ v ∈ values, (v, request.port) ∉ denied) trace) ∧
      ∃ addresses, values = addresses.map Address.text ∧ Resolves trace c request addresses
  | .admitted request values rest | .dialing request values rest =>
    Requested host config trace c request ∧
      Met host config port (.checkHost c) (fun denied => (request.host, request.port) ∉ denied)
        trace ∧
      Met host config port (.checkMembers c)
        (fun denied => ∀ v ∈ values, (v, request.port) ∉ denied) trace ∧
      rest ⊆ values ∧
      ∃ addresses, values = addresses.map Address.text ∧ Resolves trace c request addresses ∧
        Admitted config trace c addresses
  | .connected _ | .closed _ => True

/-! ### The answer of the resolver -/

variable {c : Nat} {parsed : List (List Char)} {outcome : Option (List (List Char))}

theorem collect_spec {values : List (List Char)} (h : collect values = some parsed) :
    (∀ v ∈ values, (ipAddress v).isSome = true) ∧
      ∃ addresses : List Address, parsed = addresses.map Address.text ∧
        ∀ a, a ∈ addresses ↔ ∃ v ∈ values, ipAddress v = some a := by
  induction values using List.reverseRecOn generalizing parsed with
  | nil =>
    cases h
    exact ⟨(fun v hv => by cases hv), [], rfl, by simp⟩
  | append_singleton values value ih =>
    unfold collect at h
    rw [List.foldlM_append] at h
    obtain ⟨before, hbefore, hlast⟩ := Option.bind_eq_some_iff.mp h
    obtain ⟨hall, addresses, rfl, hmem⟩ := ih hbefore
    rw [List.foldlM_cons] at hlast
    obtain ⟨after, hafter, hnil⟩ := Option.bind_eq_some_iff.mp hlast
    cases hnil
    obtain ⟨address, haddress, rfl⟩ := Option.map_eq_some_iff.mp hafter
    refine ⟨?_, ?_⟩
    · intro v hv
      rcases List.mem_append.mp hv with hv | hv
      · exact hall v hv
      · rw [List.mem_singleton.mp hv, haddress]
        rfl
    · have hsplit : ∀ a, (∃ v ∈ values ++ [value], ipAddress v = some a) ↔
          a ∈ addresses ∨ a = address := by
        intro a
        rw [hmem]
        constructor
        · rintro ⟨v, hv, ha⟩
          rcases List.mem_append.mp hv with hv | hv
          · exact .inl ⟨v, hv, ha⟩
          · rw [List.mem_singleton.mp hv, haddress] at ha
            exact .inr (Option.some.inj ha).symm
        · rintro (⟨v, hv, ha⟩ | rfl)
          · exact ⟨v, List.mem_append_left _ hv, ha⟩
          · exact ⟨value, List.mem_append_right _ List.mem_cons_self, haddress⟩
      split
      · next hseen =>
        obtain ⟨same, hsame, htext⟩ := List.mem_map.mp hseen
        cases text_injective htext
        refine ⟨addresses, rfl, fun a => ?_⟩
        rw [hsplit]
        exact ⟨.inl, fun ha => ha.elim id fun heq => heq ▸ hsame⟩
      · refine ⟨addresses ++ [address], by simp, fun a => ?_⟩
        rw [hsplit, List.mem_append, List.mem_singleton]

theorem readOutcome_spec {limits : Limits} (h : readOutcome limits outcome = .ok parsed) :
    ∃ values, outcome = some values ∧ collect values = some parsed := by
  cases outcome with
  | none => cases h
  | some values =>
    simp only [readOutcome] at h
    split at h
    · cases h
    · next hlen =>
      have htake : values.take (limits.maxResolvedAddresses + 1) = values := by
        refine List.take_of_length_le ?_
        rw [List.length_take] at hlen
        omega
      rw [htake] at h
      split at h
      · cases h
      · next hcollect =>
        cases h
        exact ⟨values, rfl, hcollect⟩

/-! ### One more event -/

theorem received_recv (c : Nat) (trace : List Event) (chunk : List UInt8) :
    received c (trace ++ [.recv c chunk]) = received c trace ++ chunk := by
  simp [received]

theorem received_snoc {c : Nat} {e : Event} (trace : List Event)
    (h : ∀ chunk, e ≠ .recv c chunk) : received c (trace ++ [e]) = received c trace := by
  rw [received, List.flatMap_append]
  cases e with
  | recv d chunk =>
    have hne : d ≠ c := fun heq => h chunk (heq ▸ rfl)
    simp [received, hne]
  | accept | parse | checkHost | lookUp | answer | checkMembers | decide | dial | refuse | connect
  | fail | deny => exact List.append_nil _

theorem answers_answer (c : Nat) (trace : List Event) (outcome : Option (List (List Char))) :
    answers c (trace ++ [.answer c outcome]) = answers c trace ++ [outcome] := by
  simp [answers]

theorem answers_snoc {e : Event} (trace : List Event) (h : ∀ outcome, e ≠ .answer c outcome) :
    answers c (trace ++ [e]) = answers c trace := by
  rw [answers, List.filterMap_append]
  cases e with
  | answer d outcome =>
    have hne : d ≠ c := fun heq => h outcome (heq ▸ rfl)
    simp [answers, hne]
  | accept | recv | parse | checkHost | lookUp | checkMembers | decide | dial | refuse | connect
  | fail | deny => exact List.append_nil _

theorem mem_lookups_of_answer {s s' : Proxy} (h : step host config s (.answer c outcome) = some s') :
    c ∈ s.lookups := by
  simp only [step] at h
  split at h
  · next hmem => exact hmem
  · cases h

section

variable {port c : Nat} {trace : List Event} {e : Event} {request : ParsedRequest}
  {addresses : List Address} {C : List (List Char × Nat) → Prop} {s s' : Proxy}

theorem Requested.snoc (h : Requested host config trace c request)
    (he : ∀ chunk, e ≠ .recv c chunk) : Requested host config (trace ++ [e]) c request := by
  rw [Requested, received_snoc trace he]
  exact h

theorem Resolves.snoc (h : Resolves trace c request addresses)
    (he : ∀ outcome, e ≠ .answer c outcome) : Resolves (trace ++ [e]) c request addresses := by
  rw [Resolves, answers_snoc trace he]
  rcases h with h | ⟨hname, hlookup, h⟩
  · exact .inl h
  · exact .inr ⟨hname, List.mem_append_left _ hlookup, h⟩

theorem Met.snoc {l : Event} (h : Met host config port l C trace) :
    Met host config port l C (trace ++ [e]) :=
  SomeSince.snoc h rfl

theorem Met.last (hrun : Run (Step host config) (start port) trace s) (h : C s.denied) :
    Met host config port e C (trace ++ [e]) :=
  SomeSince.last hrun ⟨rfl, h⟩

theorem Admitted.snoc (h : Admitted config trace c addresses) :
    Admitted config (trace ++ [e]) c addresses := by
  obtain ⟨ownedPreview, hmem, hadmits⟩ := h
  exact ⟨ownedPreview, List.mem_append_left _ hmem, hadmits⟩

/-- What is known stays known through every event that brings nothing to the connection. -/
theorem Known.snoc {stage : Stage} (h : Known host config port trace c stage)
    (hrecv : ∀ chunk, e ≠ .recv c chunk) (hanswer : ∀ outcome, e ≠ .answer c outcome) :
    Known host config port (trace ++ [e]) c stage := by
  cases stage with
  | idle | reading payload =>
    simp only [Known, received_snoc trace hrecv, answers_snoc trace hanswer] at h ⊢
    exact h
  | parsed request =>
    simp only [Known, answers_snoc trace hanswer] at h ⊢
    exact ⟨h.1.snoc hrecv, h.2⟩
  | cleared request =>
    simp only [Known, answers_snoc trace hanswer] at h ⊢
    exact ⟨h.1.snoc hrecv, h.2.1, h.2.2.1, h.2.2.2.snoc⟩
  | resolving request =>
    simp only [Known, answers_snoc trace hanswer] at h ⊢
    exact ⟨h.1.snoc hrecv, h.2.1, h.2.2.1, h.2.2.2.1.snoc, List.mem_append_left _ h.2.2.2.2⟩
  | resolved request values =>
    obtain ⟨hrequest, hhost, addresses, hvalues, hresolves⟩ := h
    exact ⟨hrequest.snoc hrecv, hhost.snoc, addresses, hvalues, hresolves.snoc hanswer⟩
  | judged request values isDenied =>
    obtain ⟨hrequest, hhost, hmembers, addresses, hvalues, hresolves⟩ := h
    exact ⟨hrequest.snoc hrecv, hhost.snoc, fun hnot => (hmembers hnot).snoc, addresses, hvalues,
      hresolves.snoc hanswer⟩
  | admitted request values rest | dialing request values rest =>
    obtain ⟨hrequest, hhost, hmembers, hrest, addresses, hvalues, hresolves, hadmitted⟩ := h
    exact ⟨hrequest.snoc hrecv, hhost.snoc, hmembers.snoc, hrest, addresses, hvalues,
      hresolves.snoc hanswer, hadmitted.snoc⟩
  | connected request | closed status => trivial

theorem Known.move {stage stage' : Stage} (hrun : Run (Step host config) (start port) trace s)
    (h : Known host config port trace c stage)
    (hlate : (∃ outcome, e = .answer c outcome) → (∃ request, stage = .resolving request) ∨
      ∃ status, stage = .closed status)
    (hmove : Moves host config s.denied c e stage stage') :
    Known host config port (trace ++ [e]) c stage' := by
  cases hmove with
  | accept =>
    have h' := h.snoc (e := .accept c) (by simp) (by simp)
    exact ⟨h'.1.symm, h'.2⟩
  | @recv payload chunk =>
    obtain ⟨hpayload, hanswers⟩ := h
    refine ⟨?_, by rw [answers_snoc trace (by simp), hanswers]⟩
    rw [received_recv, hpayload]
  | @parse payload raw buffered request hread hparse =>
    have h' := h.snoc (e := .parse c) (by simp) (by simp)
    exact ⟨⟨raw, buffered, h'.1 ▸ hread, hparse⟩, h'.2⟩
  | @literal request address hdenied haddress =>
    have h' := h.snoc (e := .checkHost c) (by simp) (by simp)
    exact ⟨h'.1, Met.last hrun hdenied, [address], rfl, Or.inl ⟨address, haddress, rfl, h'.2⟩⟩
  | clear hdenied hname =>
    have h' := h.snoc (e := .checkHost c) (by simp) (by simp)
    exact ⟨h'.1, h'.2, hname, Met.last hrun hdenied⟩
  | @lookUp request =>
    have h' := h.snoc (e := .lookUp c request.host request.port) (by simp) (by simp)
    exact ⟨h'.1, h'.2.1, h'.2.2.1, h'.2.2.2, List.mem_append_right _ List.mem_cons_self⟩
  | @answer request outcome values hread =>
    obtain ⟨hrequest, hanswers, hname, hhost, hlookup⟩ := h
    obtain ⟨raw, rfl, hcollect⟩ := readOutcome_spec hread
    obtain ⟨hall, addresses, hvalues, hmem⟩ := collect_spec hcollect
    refine ⟨hrequest.snoc (by simp), hhost.snoc, addresses, hvalues, .inr ⟨hname, ?_, raw, ?_,
      hall, hmem⟩⟩
    · exact List.mem_append_left _ hlookup
    · rw [answers_answer, hanswers, List.nil_append]
  | late hstage =>
    rcases hlate ⟨_, rfl⟩ with ⟨request, rfl⟩ | ⟨status, rfl⟩
    · exact absurd rfl (hstage request)
    · trivial
  | @checkMembers request values =>
    have h' := h.snoc (e := .checkMembers c) (by simp) (by simp)
    refine ⟨h'.1, h'.2.1, fun hnot => Met.last hrun ?_, h'.2.2⟩
    intro v hv
    have := List.any_eq_false.mp hnot v hv
    simpa using this
  | @decide request values isDenied ownedPreview hcheck =>
    have h' := h.snoc (e := .decide c ownedPreview) (by simp) (by simp)
    obtain ⟨hrequest, hhost, hmembers, addresses, rfl, hresolves⟩ := h'
    obtain ⟨-, hnot, hadmits⟩ := checkDestination_ok_iff.mp hcheck
    exact ⟨hrequest, hhost, hmembers hnot, List.Subset.refl _, addresses, rfl, hresolves,
      ownedPreview, List.mem_append_right _ List.mem_cons_self, hadmits⟩
  | @dial request values value rest address htarget =>
    have h' := h.snoc (e := .dial c address request.port) (by simp) (by simp)
    obtain ⟨hrequest, hhost, hmembers, hrest, hrem⟩ := h'
    exact ⟨hrequest, hhost, hmembers, fun v hv => hrest (List.mem_cons_of_mem _ hv), hrem⟩
  | refuse => exact h.snoc (e := .refuse c) (by simp) (by simp)
  | connect | close => trivial

theorem known_of_run (hrun : Run (Step host config) (start port) trace s) (c : Nat) :
    Known host config port trace c (s.stages c) ∧ Waits s := by
  have h0 : Known host config port [] c ((start port).stages c) ∧ Waits (start port) :=
    ⟨⟨rfl, rfl⟩, waits_start port⟩
  refine Run.history (I := fun trace s => Known host config port trace c (s.stages c) ∧ Waits s)
    h0 ?_ hrun
  intro trace s e s' hrun ⟨hknown, hwaits⟩ hstep
  refine ⟨?_, waits_step hstep hwaits⟩
  by_cases habout : e.connection = some c
  · refine hknown.move hrun ?_ (step_moves hstep habout)
    rintro ⟨outcome, rfl⟩
    exact hwaits c (mem_lookups_of_answer hstep)
  · rw [stages_of_ne hstep habout]
    refine hknown.snoc ?_ ?_
    · rintro chunk rfl
      exact habout rfl
    · rintro outcome rfl
      exact habout rfl

end

/-! ### What is dialled -/

/-- The address is one of the set of the connection's own request; the whole set satisfies the
policy; and neither the host nor a member was a denied endpoint when it was checked. -/
def Checked (host : Host) (config : Config) (listener : Nat) (trace : List Event) (c : Nat)
    (address : List Char) (port : Nat) : Prop :=
  ∃ request addresses, Requested host config trace c request ∧ port = request.port ∧
    Resolves trace c request addresses ∧ (∃ a ∈ addresses, address = a.text) ∧
    Admitted config trace c addresses ∧
    Met host config listener (.checkHost c) (fun denied => (request.host, port) ∉ denied) trace ∧
    Met host config listener (.checkMembers c)
      (fun denied => ∀ a ∈ addresses, (a.text, port) ∉ denied) trace

theorem dialTarget_text (config : Config) (a : Address) :
    dialTarget config a.text = some a.text := by
  unfold dialTarget
  split
  · rfl
  · rw [ipAddress_text]
    rfl

theorem checked_of_dial {listener port : Nat} {trace : List Event} {address : List Char} {s : Proxy}
    (h : Run (Step host config) (start listener) (trace ++ [.dial c address port]) s) :
    Checked host config listener trace c address port := by
  obtain ⟨m, hrun, hstep⟩ := h.last
  have hknown := (known_of_run hrun c).1
  have hmove := step_moves hstep rfl
  generalize m.stages c = stage at hknown hmove
  generalize s.stages c = stage' at hmove
  cases hmove with
  | @dial request values value rest address htarget =>
    obtain ⟨hrequest, hhost, hmembers, hrest, addresses, rfl, hresolves, hadmitted⟩ := hknown
    obtain ⟨a, ha, rfl⟩ := List.mem_map.mp (hrest List.mem_cons_self)
    rw [dialTarget_text] at htarget
    refine ⟨request, addresses, hrequest, rfl, hresolves, ⟨a, ha, (Option.some.inj htarget).symm⟩,
      hadmitted, hhost, ?_⟩
    obtain ⟨first, l, post, n, heq, hlast, hfirst, hl, hnot⟩ := hmembers
    exact ⟨first, l, post, n, heq, hlast, hfirst, hl,
      fun b hb => hnot b.text (List.mem_map.mpr ⟨b, hb, rfl⟩)⟩
  | close hstage hdial => exact absurd rfl (hdial address port)

/-- **What the egress proxy dials has been checked, and its policies are nested but for loopback of
version 6.**  Widening the policy blocks a destination only where that address is among its members,
or where the destination was let in as an owned preview beyond loopback. -/
theorem egress_destinations (host : Host) (config : Config) (listener : Nat) :
    (∀ trace s c address port,
      Run (Step host config) (start listener) (trace ++ [.dial c address port]) s →
      Checked host config listener trace c address port) ∧
    (∀ a : Address, Nested a ↔ ¬ IsLoopback6 a) ∧
    ∀ ownedPreviewAllowed addresses, NeverBlocks ownedPreviewAllowed addresses ↔
      ¬ HoldsLoopback6 addresses ∧ ¬ OwedToPreview ownedPreviewAllowed addresses :=
  ⟨fun _ _ _ _ _ h => checked_of_dial h, nested_iff_not_loopback6, fun _ _ => neverBlocks_iff⟩

/-! ### One connection, and the address that is not nested -/

/-- A host that knows ASCII names only, and a proxy for public addresses. -/
def plainHost : Host where
  lower t := t.map Char.toLower
  idna := some
  urlsplit _ := none

def publicConfig : Config where
  limits := .standard
  policy := .publicOnly
  ownedPreviewOriginAllowed := false
  injectedDialer := false

/-- A tunnel to a name that resolves to one public address. -/
def tunnelTrace : List Event := [.accept 0,
  .recv 0 (ascii "CONNECT a.example:443 HTTP/1.1\r\nHost: a.example:443\r\n\r\n"),
  .parse 0,
  .checkHost 0,
  .lookUp 0 "a.example".toList 443,
  .answer 0 (some ["93.184.216.34".toList]),
  .checkMembers 0,
  .decide 0 none]

theorem tunnel_checked : (∃ s, Run (Step plainHost publicConfig) (start 8080)
      (tunnelTrace ++ [.dial 0 "93.184.216.34".toList 443]) s) ∧
    Checked plainHost publicConfig 8080 tunnelTrace 0 "93.184.216.34".toList 443 := by
  have hplay : (play (step plainHost publicConfig)
      (tunnelTrace ++ [.dial 0 "93.184.216.34".toList 443]) (start 8080)).isSome = true := by
    decide +kernel
  obtain ⟨s, hs⟩ := Option.isSome_iff_exists.mp hplay
  have hrun : Run (Step plainHost publicConfig) (start 8080)
      (tunnelTrace ++ [.dial 0 "93.184.216.34".toList 443]) s :=
    run_of_play (fun _ _ _ h => h) hs
  exact ⟨⟨s, hrun⟩, (egress_destinations plainHost publicConfig 8080).1 _ _ _ _ _ hrun⟩

theorem loopback6_not_nested : (¬ ∀ a : Address, Nested a) ∧
    checkDestination .loopbackOnly false false ["::1".toList] = .ok () ∧
    checkDestination .anyLocal false false ["::1".toList] = .error (.request 403) := by
  refine ⟨fun h => ?_, by decide +kernel, by decide +kernel⟩
  have hlocal := (h (.v6 1#128 none)).2 (by decide +kernel)
  revert hlocal
  decide +kernel

end AlysisCode.Egress
