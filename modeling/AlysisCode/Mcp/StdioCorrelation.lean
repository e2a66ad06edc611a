/-
Which response a request gets.

The tables say of every id whether a response to it is awaited, would come late, or is
not to come at all, and along every run this agrees with what has been registered and what
has arrived.  The one response that is neither delivered nor an error is one to a request
that has been given up and is still remembered; there the tables do not tell a first late
response from a second.
-/
import AlysisCode.Mcp.StdioReader

namespace AlysisCode.Mcp.Stdio

open Runs Requests

variable {β : Type} {s s' : Transport β} {c : Nat} {trace : List (Event β)}

/-! ### What has happened -/

def received (trace : List (Event β)) : List (JsonRpcResponse β) :=
  trace.filterMap fun
    | .receive message => some message
    | _ => none

/-- The event registers a request under `id`. -/
def registers (id : JsonRpcId) : Event β → Bool
  | .register _ n => id == .int n
  | _ => false

/-- A request has been registered under `id`. -/
def Registered (trace : List (Event β)) (id : JsonRpcId) : Prop :=
  ∃ e ∈ trace, registers id e = true

/-- A response to `id` has come since a request was last registered under it. -/
def Answered (trace : List (Event β)) (id : JsonRpcId) : Prop :=
  ∃ message, .receive message ∈ since (registers id) trace ∧ message.id = id

/-- The call that takes the step, if it is not the reader. -/
def Event.caller : Event β → Option Nat
  | .register c _ | .move c _ => some c
  | _ => none

variable {e : Event β} {message : JsonRpcResponse β}

theorem registered_snoc {id : JsonRpcId} (h : Registered trace id) :
    Registered (trace ++ [e]) id := by
  obtain ⟨e', he', hid⟩ := h
  exact ⟨e', List.mem_append_left _ he', hid⟩

theorem received_snoc (trace : List (Event β)) {e : Event β} (he : ∀ m, e ≠ .receive m) :
    received (trace ++ [e]) = received trace := by
  unfold received
  rw [List.filterMap_append]
  cases e with
  | receive message => exact absurd rfl (he message)
  | register | move | flush | fail | declare | notify => exact List.append_nil _

theorem received_receive (trace : List (Event β)) (message : JsonRpcResponse β) :
    received (trace ++ [.receive message]) = received trace ++ [message] := by
  unfold received
  rw [List.filterMap_append]
  rfl

theorem answered_of_snoc {id : JsonRpcId} (h : Answered (trace ++ [e]) id) :
    registers id e = false ∧
      (Answered trace id ∨ ∃ message, e = .receive message ∧ message.id = id) := by
  obtain ⟨message, hmem, hid⟩ := h
  cases hreg : registers id e with
  | true =>
    rw [since_snoc_of_pos hreg] at hmem
    cases hmem
  | false =>
    rw [since_snoc_of_neg hreg] at hmem
    refine ⟨rfl, ?_⟩
    rcases List.mem_append.mp hmem with hmem | hmem
    · exact .inl ⟨message, hmem, hid⟩
    · exact .inr ⟨message, (List.mem_singleton.mp hmem).symm, hid⟩

/-! ### What the steps do to what is held back -/

theorem step_receive (h : Step s (.receive message) s') :
    s.reader = .idle ∧ s' = s.handleResponseMessage message := by
  unfold Step exec at h
  dsimp only at h
  split at h
  · rename_i hidle
    exact ⟨hidle, (Option.some.inj h).symm⟩
  · cases h

theorem receive_deferred (hs : Sound s) (h : Step s (.receive message) s') :
    s'.arrived = s.arrived + 1 ∧
      (∀ e ∈ s'.deferred.entries, e ∈ s.deferred.entries ∨ e.2 = ⟨s.arrived, message⟩) ∧
      ∀ c, (s'.calls c).phase = (s.calls c).phase := by
  obtain ⟨-, rfl⟩ := step_receive h
  rcases handle_spec hs.core message with ⟨-, -, heq⟩ | ⟨-, why, heq⟩ | ⟨hnew, -, c, -, heq⟩
  · rw [heq]
    exact ⟨rfl, fun e he => .inl he, fun _ => rfl⟩
  · rw [heq]
    exact ⟨rfl, fun e he => .inl he, fun _ => rfl⟩
  · rw [heq]
    refine ⟨rfl, fun e he => ?_, fun d => phase_enqueue s c d .observed⟩
    rw [show _ = _ from AList.entries_insert_of_notMem hnew] at he
    rcases List.mem_cons.mp he with rfl | he
    · exact .inr rfl
    · exact .inl he

/-- Every other step holds nothing more back, and what the reader does moves no call. -/
theorem step_deferred (hs : Sound s) (h : Step s e s') (he : ∀ m, e ≠ .receive m) :
    s'.arrived = s.arrived ∧ (∀ x ∈ s'.deferred.entries, x ∈ s.deferred.entries) ∧
      (e.caller = none → ∀ c, (s'.calls c).phase = (s.calls c).phase) := by
  cases e with
  | register c id =>
    obtain ⟨-, -, -, rfl, -⟩ := step_register hs h
    exact ⟨rfl, fun _ hx => hx, fun hc => by cases hc⟩
  | receive message => exact absurd rfl (he message)
  | move c m =>
    unfold Step exec at h
    dsimp only at h
    split at h
    · cases h
    · rename_i hm
      obtain ⟨hdeferred, -, -, harrived⟩ := (move_spec h hm hs.core).same
      exact ⟨harrived, fun x hx => hdeferred ▸ hx, fun hc => by cases hc⟩
  | flush late quiet =>
    unfold Step exec at h
    dsimp only at h
    split at h
    · rename_i hidle
      cases h
      have hflush := flush_spec hs hidle late quiet
      exact ⟨hflush.arrived, fun x hx => hflush.deferred.subset hx, fun _ => hflush.phase⟩
    · cases h
  | fail message =>
    unfold Step exec at h
    dsimp only at h
    split at h
    · cases h
      exact ⟨rfl, fun _ hx => hx, fun _ _ => rfl⟩
    · cases h
  | declare =>
    unfold Step exec at h
    dsimp only at h
    split at h
    · cases h
      unfold Transport.setFatalError
      split
      · exact ⟨rfl, fun _ hx => hx, fun _ _ => rfl⟩
      · exact ⟨rfl, fun _ hx => hx, fun _ _ => rfl⟩
    · cases h
  | notify =>
    unfold Step exec at h
    dsimp only at h
    split at h
    · cases h
      exact ⟨rfl, fun _ hx => hx, fun _ d => phase_enqueue s _ d .fatal⟩
    · cases h
      exact ⟨rfl, fun _ hx => hx, fun _ _ => rfl⟩
    · cases h

/-! ### Histories -/

/-- What has happened, as the transport has it. -/
structure History (trace : List (Event β)) (s : Transport β) : Prop where
  sound : Sound s
  arrived : s.arrived = (received trace).length
  came : ∀ c a, (s.calls c).Has a → (received trace)[a.serial]? = some a.response
  heldBack : ∀ e ∈ s.deferred.entries, (received trace)[e.2.serial]? = some e.2.response
  known : ∀ i ∈ s.requests.states, Registered trace i
  active : ∀ c, (s.calls c).phase.active = true → Registered trace (.int (s.calls c).requestId)
  answered : ∀ i, Answered trace i → s.requests.states.lookup i ≠ some .awaitingResponse ∨ Doomed s

theorem received_grows {n : Nat} {m : JsonRpcResponse β} (h : (received trace)[n]? = some m) :
    (received (trace ++ [e]))[n]? = some m := by
  unfold received at h ⊢
  rw [List.filterMap_append, List.getElem?_append_left (List.getElem?_eq_some_iff.mp h).1]
  exact h

theorem history_register {id : Int} (hh : History trace s) (h : Step s (.register c id) s') :
    History (trace ++ [.register c id]) s' := by
  obtain ⟨hsound, -, hid, heq, hhas⟩ := step_register hh.sound h
  have hreceived := @received_snoc β trace (.register c id) (fun m hm => by cases hm)
  have hregistered : Registered (trace ++ [Event.register c id]) (.int id) := by
    refine ⟨.register c id, List.mem_append_right _ (List.mem_singleton.mpr rfl), ?_⟩
    exact beq_self_eq_true _
  refine ⟨hsound, ?_, fun d a ha => ?_, fun x hx => ?_, fun i hi => ?_, fun d hd => ?_,
    fun i hi => ?_⟩
  · rw [hreceived, heq]
    exact hh.arrived
  · rw [hreceived]
    exact hh.came d a (hhas d a ha)
  · rw [hreceived]
    rw [heq] at hx
    exact hh.heldBack x hx
  · rw [heq] at hi
    rcases (AList.mem_insert _).mp hi with rfl | hi
    · exact hregistered
    · exact registered_snoc (hh.known i hi)
  · rw [heq, calls_put] at hd ⊢
    by_cases hdc : d = c
    · rw [if_pos hdc]
      exact hid ▸ hregistered
    · rw [if_neg hdc] at hd ⊢
      exact registered_snoc (hh.active d hd)
  · obtain ⟨hreg, hold | ⟨m, hm, -⟩⟩ := answered_of_snoc hi
    · have hne : i ≠ .int id := by
        rintro rfl
        rw [show registers _ _ = true from beq_self_eq_true _] at hreg
        cases hreg
      rw [heq]
      refine (hh.answered i hold).imp_left fun hst hnew => hst ?_
      rcases lookup_insert_cases hnew with ⟨hid', -⟩ | ⟨-, hnew⟩
      · exact absurd hid' hne
      · exact hnew
    · cases hm

theorem history_step (hh : History trace s) (h : Step s e s') : History (trace ++ [e]) s' := by
  by_cases hreg : ∃ c id, e = .register c id
  · obtain ⟨c, id, rfl⟩ := hreg
    exact history_register hh h
  have hgoes := step_goes hh.sound h fun c id he => hreg ⟨c, id, he⟩
  have hold : ∀ c a, (s'.calls c).Has a →
      (received (trace ++ [e]))[a.serial]? = some a.response := by
    intro c a ha
    rcases hgoes.has c a ha with ha | ⟨x, hx, rfl⟩
    · exact received_grows (hh.came c a ha)
    · exact received_grows (hh.heldBack x hx)
  have hactive : ∀ c, (s'.calls c).phase.active = true →
      Registered (trace ++ [e]) (.int (s'.calls c).requestId) := by
    intro c hc
    obtain ⟨hc', hid⟩ := hgoes.frame.active c hc
    rw [hid]
    exact registered_snoc (hh.active c hc')
  have hknown : ∀ i ∈ s'.requests.states, Registered (trace ++ [e]) i := by
    intro i hi
    rcases hgoes.frame.known i hi with hi | ⟨c, hc, rfl⟩
    · exact registered_snoc (hh.known i hi)
    · exact registered_snoc (hh.active c hc)
  have hanswered : ∀ i, Answered trace i →
      s'.requests.states.lookup i ≠ some .awaitingResponse ∨ Doomed s' := by
    intro i hi
    rcases hh.answered i hi with hst | hd
    · exact .inl fun hnew => hst (hgoes.frame.awaiting i hnew)
    · exact .inr (hgoes.doomed hd)
  by_cases hrec : ∃ m, e = .receive m
  · obtain ⟨message, rfl⟩ := hrec
    obtain ⟨harrived, hdeferred, -⟩ := receive_deferred hh.sound h
    refine ⟨hgoes.sound, ?_, hold, fun x hx => ?_, hknown, hactive, fun i hi => ?_⟩
    · rw [harrived, received_receive, List.length_append, hh.arrived]
      rfl
    · rcases hdeferred x hx with hx | hx
      · exact received_grows (hh.heldBack x hx)
      · rw [hx, received_receive, hh.arrived]
        exact List.getElem?_concat_length
    · rcases (answered_of_snoc hi).2 with hprev | ⟨m, hm, hid⟩
      · exact hanswered i hprev
      · cases hm
        subst hid
        obtain ⟨-, rfl⟩ := step_receive h
        rcases handle_spec hh.sound.core message with ⟨-, hdis, heq⟩ | ⟨-, why, heq⟩ |
            ⟨-, -, c, -, heq⟩
        · rw [heq]
          refine .inl fun hst => ?_
          rw [Awaits.not_discards (.inl hst)] at hdis
          cases hdis
        · rw [heq]
          exact .inr (.inr ⟨why, rfl⟩)
        · rw [heq]
          refine .inl fun hst => ?_
          rw [show _ = _ from AList.lookup_insert _] at hst
          cases hst
  · have hother : ∀ m, e ≠ .receive m := fun m hm => hrec ⟨m, hm⟩
    obtain ⟨harrived, hdeferred, -⟩ := step_deferred hh.sound h hother
    refine ⟨hgoes.sound, ?_, hold, fun x hx => ?_, hknown, hactive, fun i hi => ?_⟩
    · rw [harrived, received_snoc trace hother, hh.arrived]
    · exact received_grows (hh.heldBack x (hdeferred x hx))
    · rcases (answered_of_snoc hi).2 with hprev | ⟨m, hm, -⟩
      · exact hanswered i hprev
      · exact absurd hm (hother m)

theorem history_of_run (h : Run Step Transport.start trace s) : History trace s := by
  refine h.history ⟨sound_start, rfl, fun c a ha => ?_, fun e he => ?_, fun i hi => ?_,
    fun c hc => ?_, fun i hi => ?_⟩ fun trace s e s' _ hh hstep => history_step hh hstep
  · rcases ha with ha | ha | ha
    · cases ha
    · cases ha
    · cases ha
  · cases he
  · exact absurd hi (AList.notMem_empty i)
  · cases hc
  · obtain ⟨m, hm, -⟩ := hi
    cases hm


/-! ### After a failure -/

theorem step_returned (hs : Sound s) (h : Step s e s') {a : Arrival β}
    (ha : (s'.calls c).phase = .done (.returned a)) :
    (s.calls c).phase = .done (.returned a) ∨ s.fatalState = none := by
  by_cases hreader : e.caller = none
  · by_cases hrec : ∃ m, e = .receive m
    · obtain ⟨m, rfl⟩ := hrec
      exact .inl ((receive_deferred hs h).2.2 c ▸ ha)
    · have hphase := (step_deferred hs h fun m hm => hrec ⟨m, hm⟩).2.2 hreader c
      exact .inl (hphase ▸ ha)
  cases e with
  | receive | flush | fail | declare | notify => exact absurd rfl hreader
  | register d id =>
    obtain ⟨-, -, -, rfl, -⟩ := step_register hs h
    rw [calls_put] at ha
    by_cases hd : c = d
    · rw [if_pos hd] at ha
      cases ha
    · rw [if_neg hd] at ha
      exact .inl ha
  | move d m =>
    unfold Step exec at h
    dsimp only at h
    split at h
    · cases h
    · rename_i hm
      obtain ⟨n, r, call', rfl, -, -, -, hreturned⟩ := move_spec h hm hs.core
      rw [calls_put] at ha
      by_cases hd : c = d
      · rw [if_pos hd] at ha
        exact .inr (hreturned a ha)
      · rw [if_neg hd] at ha
        exact .inl ha

theorem run_fatal (hs : Sound s) (hfatal : s.fatalState.isSome = true) {rest : List (Event β)}
    (h : Run Step s rest s') : Sound s' ∧ s'.fatalState.isSome = true ∧
      ∀ c a, (s'.calls c).phase = .done (.returned a) → (s.calls c).phase = .done (.returned a) := by
  induction h with
  | nil => exact ⟨hs, hfatal, fun _ _ ha => ha⟩
  | @snoc _ m s' e _ hstep ih =>
    obtain ⟨hm, hmfatal, hback⟩ := ih
    have hkeeps : Sound s' ∧ s'.fatalState.isSome = true := by
      by_cases hreg : ∃ c id, e = .register c id
      · obtain ⟨c, id, rfl⟩ := hreg
        obtain ⟨hsound, -, -, heq, -⟩ := step_register hm hstep
        refine ⟨hsound, ?_⟩
        rw [heq]
        exact hmfatal
      · have hgoes := step_goes hm hstep fun c id he => hreg ⟨c, id, he⟩
        obtain ⟨why, hwhy⟩ := Option.isSome_iff_exists.mp hmfatal
        exact ⟨hgoes.sound, Option.isSome_iff_exists.mpr ⟨why, hgoes.fatal why hwhy⟩⟩
    refine ⟨hkeeps.1, hkeeps.2, fun c a ha => ?_⟩
    rcases step_returned hm hstep ha with ha | hnone
    · exact hback c a ha
    · rw [hnone] at hmfatal
      cases hmfatal

/-- By steps of its own the call comes to an end without a result. -/
def Fails (s : Transport β) (c : Nat) : Prop :=
  ∃ rest s', Run Step s rest s' ∧ (∀ e ∈ rest, e.caller = some c) ∧
    ∃ outcome, (s'.calls c).phase = .done outcome ∧ ∀ a, outcome ≠ .returned a

theorem Fails.of_done {outcome : Outcome β} (h : (s.calls c).phase = .done outcome)
    (hout : ∀ a, outcome ≠ .returned a) : Fails s c :=
  ⟨[], s, .nil, by simp, outcome, h, hout⟩

theorem Fails.step {e : Event β} (h : Step s e s') (he : e.caller = some c) (hf : Fails s' c) :
    Fails s c := by
  obtain ⟨rest, s'', hrun, hown, hend⟩ := hf
  refine ⟨e :: rest, s'', (Run.nil.snoc h).append hrun, fun x hx => ?_, hend⟩
  rcases List.mem_cons.mp hx with rfl | hx
  · exact he
  · exact hown x hx

theorem Fails.move {m : Transport.Move} (h : s.move c m = some s') (hm : m ≠ .register)
    (hf : Fails s' c) : Fails s c := by
  refine Fails.step (e := .move c m) ?_ rfl hf
  unfold Step exec
  exact (if_neg hm).trans h

theorem calls_put_self (s : Transport β) (c : Nat) (call : Call β) :
    (s.put c call).calls c = call := by
  rw [calls_put, if_pos rfl]

theorem fails_of_expiring {b : Bool} (h : (s.calls c).phase = .expiring b) : Fails s c := by
  have hmove : s.move c .retire = some
      ({ s with requests := s.requests.retireOnTimeout (.int (s.calls c).requestId) b }.put c
        { s.calls c with phase := .done .timedOut }) := by
    unfold Transport.move
    dsimp only
    rw [h]
  refine Fails.move hmove (by simp) (Fails.of_done (by rw [calls_put_self]) ?_)
  exact fun a ha => by cases ha

theorem fails_of_holding {a : Arrival β} (hfatal : s.fatalState.isSome = true)
    (h : (s.calls c).phase = .holding a) : Fails s c := by
  have hmove : s.move c .finish = some (s.put c { s.calls c with phase := .done .fatal }) := by
    unfold Transport.move
    dsimp only
    rw [h]
    exact if_pos hfatal
  refine Fails.move hmove (by simp) (Fails.of_done (by rw [calls_put_self]) ?_)
  exact fun a ha => by cases ha

theorem fails_of_waiting (n : Nat) : ∀ (s : Transport β) (b : Bool),
    s.fatalState.isSome = true → (s.calls c).phase = .waiting b → (s.calls c).queue.length = n →
    Fails s c := by
  induction n with
  | zero =>
    intro s b _ h hlen
    have hmove : s.move c .expire = some (s.put c { s.calls c with phase := .expiring b }) := by
      unfold Transport.move
      dsimp only
      rw [h]
      exact if_pos (List.length_eq_zero_iff.mp hlen)
    refine Fails.move hmove (by simp) (fails_of_expiring (b := b) ?_)
    rw [calls_put_self]
  | succ n ih =>
    intro s b hfatal h hlen
    obtain ⟨item, rest, hqueue⟩ := List.exists_cons_of_length_eq_add_one hlen
    have hmove : s.move c .take = some (s.put c (Transport.takeItem (s.calls c) rest item)) := by
      unfold Transport.move
      dsimp only
      rw [h]
      rw [hqueue]
    have hself := calls_put_self s c (Transport.takeItem (s.calls c) rest item)
    refine Fails.move hmove (by simp) ?_
    cases item with
    | observed =>
      refine ih _ true hfatal (by rw [hself]; rfl) ?_
      rw [hself]
      rw [hqueue, List.length_cons] at hlen
      exact Nat.succ_injective hlen
    | followUpTimeout | fatal => exact Fails.of_done (by rw [hself]; rfl) (by simp)
    | response a => exact fails_of_holding hfatal (by rw [hself]; rfl)

theorem fails_of_sending (hfatal : s.fatalState.isSome = true)
    (h : (s.calls c).phase = .sending) : Fails s c := by
  have hmove : s.move c .send = some (s.put c { s.calls c with phase := .waiting false }) := by
    unfold Transport.move
    dsimp only
    rw [h]
  refine Fails.move hmove (by simp) (fails_of_waiting _ _ false hfatal ?_ rfl)
  rw [calls_put_self]

theorem fails_of_named (hfatal : s.fatalState.isSome = true)
    (h : (s.calls c).phase = .named) : Fails s c := by
  obtain ⟨s', hmove, hphase, hsame⟩ : ∃ s', s.move c .register = some s' ∧
      (s'.calls c).phase = .sending ∧ s'.fatalState = s.fatalState := by
    unfold Transport.move
    dsimp only
    rw [h]
    exact ⟨_, rfl, by rw [calls_put_self], rfl⟩
  have hstep : Step s (.register c (s.calls c).requestId) s' := (if_pos rfl).trans hmove
  exact Fails.step hstep rfl (fails_of_sending (hsame ▸ hfatal) hphase)

theorem fails_of_loaded {tmp : Int} (hfatal : s.fatalState.isSome = true)
    (h : (s.calls c).phase = .loaded tmp) : Fails s c := by
  have hmove : s.move c .store = some ({ s with nextId := tmp + 1 }.put c
      { s.calls c with phase := .named }) := by
    unfold Transport.move
    dsimp only
    rw [h]
  refine Fails.move hmove (by simp) (fails_of_named hfatal ?_)
  rw [calls_put_self]

theorem fails_of_fetched (hfatal : s.fatalState.isSome = true)
    (h : (s.calls c).phase = .fetched) : Fails s c := by
  have hmove : s.move c .load = some (s.put c { s.calls c with phase := .loaded s.nextId }) := by
    unfold Transport.move
    dsimp only
    rw [h]
  exact Fails.move hmove (by simp) (fails_of_loaded hfatal (by rw [calls_put_self]))

/-- **After a failure no call is stuck**: each one that has not ended ends without a result. -/
theorem fails_of_fatal (hfatal : s.fatalState.isSome = true)
    (hlive : ∀ o, (s.calls c).phase ≠ .done o) : Fails s c := by
  cases h : (s.calls c).phase with
  | idle =>
    have hmove : s.move c .check = some (s.put c { s.calls c with phase := .done .fatal }) := by
      unfold Transport.move
      dsimp only
      rw [h]
      exact if_pos hfatal
    refine Fails.move hmove (by simp) (Fails.of_done (by rw [calls_put_self]) ?_)
    exact fun a ha => by cases ha
  | checked =>
    have hmove : s.move c .fetch = some (s.put c { s.calls c with
        requestId := s.nextId, phase := .fetched }) := by
      unfold Transport.move
      dsimp only
      rw [h]
    refine Fails.move hmove (by simp) (fails_of_fetched hfatal ?_)
    rw [calls_put_self]
  | fetched => exact fails_of_fetched hfatal h
  | loaded tmp => exact fails_of_loaded hfatal h
  | named => exact fails_of_named hfatal h
  | sending => exact fails_of_sending hfatal h
  | waiting b => exact fails_of_waiting _ s b hfatal h rfl
  | expiring b => exact fails_of_expiring h
  | holding a => exact fails_of_holding hfatal h
  | done o => exact absurd h (hlive o)

/-! ### Correlation -/

structure Correlated (trace : List (Event β)) (s : Transport β) : Prop where
  /-- a result is a response that came, under the id of the call -/
  own : ∀ c a, (s.calls c).phase = .done (.returned a) →
    a.response.id = .int (s.calls c).requestId ∧ (received trace)[a.serial]? = some a.response
  /-- no response is in the hands of two calls -/
  once : ∀ c c' a a', (s.calls c).Has a → (s.calls c').Has a' → a.serial = a'.serial → c = c'
  ended : ∀ e s' c outcome, Step s e s' → (s.calls c).phase = .done outcome →
    (s'.calls c).phase = .done outcome ∧
      ∀ a, .response a ∈ (s'.calls c).queue → .response a ∈ (s.calls c).queue
  /-- a response to a retired request that is remembered changes nothing -/
  late : ∀ message s', s.requests.discards message.id = true → message.id ∉ s.deferred →
    Step s (.receive message) s' → s' = { s with arrived := s.arrived + 1 }
  /-- one to an id that was never registered makes the transport fatal -/
  unknown : ∀ message s', ¬ Registered trace message.id → Step s (.receive message) s' → Doomed s'
  /-- and so does one that follows another, unless the request is retired and remembered -/
  second : ∀ message s', Answered trace message.id → Step s (.receive message) s' →
    Doomed s' ∨ (s.requests.discards message.id = true ∧ message.id ∉ s.deferred)
  /-- what is about to be fatal is made so by the next step of the reader -/
  doomed : ∀ why e s', s.reader = .declaring why → Step s e s' →
    Doomed s' ∧ (e.caller = none → s'.fatalState.isSome = true)
  /-- once the transport is fatal nothing is returned any more -/
  fatal : s.fatalState.isSome = true → ∀ rest s', Run Step s rest s' → s'.fatalState.isSome = true ∧
      ∀ c a, (s'.calls c).phase = .done (.returned a) → (s.calls c).phase = .done (.returned a)
  /-- and every call that has not ended comes to an end -/
  fails : s.fatalState.isSome = true → ∀ c, (∀ outcome, (s.calls c).phase ≠ .done outcome) →
    Fails s c
  /-- what is remembered of requests stays within the pending ones and the limit -/
  bounded : s.fatalState = none →
    s.requests.states.keys.length ≤ s.requests.pending.keys.length + retentionLimit

theorem doomed_of_handle (hs : Sound s) (h : Step s (.receive message) s')
    (hst : s.requests.states.lookup message.id ≠ some .awaitingResponse) :
    Doomed s' ∨ (s.requests.discards message.id = true ∧ message.id ∉ s.deferred) := by
  obtain ⟨-, rfl⟩ := step_receive h
  rcases handle_spec hs.core message with ⟨hnew, hdis, -⟩ | ⟨-, why, heq⟩ | ⟨-, hawaits, -⟩
  · exact .inr ⟨hdis, hnew⟩
  · rw [heq]
    exact .inl (.inr ⟨why, rfl⟩)
  · exact absurd hawaits hst

theorem doomed_of_declaring (hs : Sound s) {why : FatalState} (hreader : s.reader = .declaring why)
    (h : Step s e s') :
    Doomed s' ∧ (e.caller = none → s'.fatalState.isSome = true) := by
  have hdoomed : Doomed s := Or.inr ⟨why, hreader⟩
  refine ⟨?_, fun hcaller => ?_⟩
  · by_cases hreg : ∃ c id, e = .register c id
    · obtain ⟨c, id, rfl⟩ := hreg
      obtain ⟨-, -, -, rfl, -⟩ := step_register hs h
      exact hdoomed
    · exact (step_goes hs h fun c id he => hreg ⟨c, id, he⟩).doomed hdoomed
  · unfold Step exec at h
    cases e with
    | register | move => cases hcaller
    | receive | flush | fail | notify =>
      rw [hreader] at h
      cases h
    | declare =>
      rw [hreader] at h
      cases h
      unfold Transport.setFatalError
      split
      · assumption
      · rfl

/-- **Requests and responses are correlated along every run.** -/
theorem request_correlated (h : Run Step Transport.start trace s) : Correlated trace s := by
  have hh := history_of_run h
  have hs := hh.sound
  refine ⟨fun c a ha => ?_, hs.core.once, fun e s' c outcome hstep hc => ?_,
    fun message s' hdis hnew hstep => ?_, fun message s' hnot hstep => ?_,
    fun message s' hans hstep => ?_, fun why e s' hreader hstep => ?_,
    fun hfatal rest s' hrun => (run_fatal hs hfatal hrun).2, fun hfatal c hc => ?_,
    fun hnone => hs.core.kept.bounded (hs.core.covered hnone)⟩
  · have hhas : (s.calls c).Has a := Or.inr (.inr ha)
    exact ⟨(hs.core.own c a hhas).2, hh.came c a hhas⟩
  · by_cases hreg : ∃ d id, e = .register d id
    · obtain ⟨d, id, rfl⟩ := hreg
      obtain ⟨-, hphase, -, rfl, -⟩ := step_register hs hstep
      have hne : c ≠ d := by
        rintro rfl
        rw [hphase] at hc
        cases hc
      rw [calls_put, if_neg hne]
      exact ⟨hc, fun _ ha => ha⟩
    · have hframe := (step_goes hs hstep fun d id he => hreg ⟨d, id, he⟩).frame
      obtain ⟨hdone, -, hqueue⟩ := hframe.ended c outcome hc
      exact ⟨hdone, hqueue⟩
  · obtain ⟨-, rfl⟩ := step_receive hstep
    rcases handle_spec hs.core message with ⟨-, -, heq⟩ | ⟨hor, -⟩ | ⟨-, hawaits, -⟩
    · exact heq
    · rcases hor with hin | hout
      · exact absurd hin hnew
      · rw [hdis] at hout
        cases hout
    · rw [Awaits.not_discards (.inl hawaits)] at hdis
      cases hdis
  · have hnone : s.requests.states.lookup message.id = none :=
      AList.lookup_eq_none.mpr fun hin => hnot (hh.known message.id hin)
    rcases doomed_of_handle hs hstep (by rw [hnone]; simp) with hd | ⟨hdis, -⟩
    · exact hd
    · obtain ⟨st, hst, -⟩ := discards_iff.mp hdis
      rw [hnone] at hst
      cases hst
  · rcases hh.answered message.id hans with hst | hd
    · exact doomed_of_handle hs hstep hst
    · exact .inl ((step_goes hs hstep fun c id he => by cases he).doomed hd)
  · exact doomed_of_declaring hs hreader hstep
  · exact fails_of_fatal hfatal hc

/-- The first call draws an id, registers and sends its message. -/
def firstCall : List (Event Unit) :=
  [.move 0 .check, .move 0 .fetch, .move 0 .load, .move 0 .store, .register 0 1, .move 0 .send]

/-- A response that is released to it and returned. -/
theorem request_correlated_returned : ∃ s, Run Step Transport.start
    (firstCall ++ [.receive ⟨.int 1, ()⟩, .flush [] true, .move 0 .take, .move 0 .take,
      .move 0 .finish]) s ∧
    (s.calls 0).phase = .done (.returned ⟨0, .int 1, ()⟩) ∧
    Correlated (firstCall ++ [.receive ⟨.int 1, ()⟩, .flush [] true, .move 0 .take,
      .move 0 .take, .move 0 .finish]) s := by
  have hplay : ((play exec (firstCall ++ [.receive ⟨.int 1, ()⟩, .flush [] true, .move 0 .take,
      .move 0 .take, .move 0 .finish]) Transport.start).map fun s => (s.calls 0).phase) =
        some (.done (.returned ⟨0, .int 1, ()⟩)) := by decide +kernel
  obtain ⟨s, hs, hphase⟩ := Option.map_eq_some_iff.mp hplay
  have hrun := run_of_play (fun _ _ _ h => h) hs
  exact ⟨s, hrun, hphase, request_correlated hrun⟩

/-- A second response to a request that was given up is discarded like the first. -/
theorem second_late_response_discarded :
    ¬ ∀ (trace : List (Event Unit)) (s s' : Transport Unit) (message : JsonRpcResponse Unit),
      Run Step Transport.start trace s → Answered trace message.id →
      Step s (.receive message) s' → Doomed s' := by
  intro h
  have hplay : ((play exec (firstCall ++ [.move 0 .expire, .move 0 .retire,
      .receive ⟨.int 1, ()⟩]) Transport.start).bind fun s =>
        (exec s (.receive ⟨.int 1, ()⟩)).map fun s' => (s'.fatalState, s'.reader)) =
          some (none, .idle) := by decide +kernel
  obtain ⟨s, hs, hnext⟩ := Option.bind_eq_some_iff.mp hplay
  obtain ⟨s', hs', heq⟩ := Option.map_eq_some_iff.mp hnext
  have hfatal : s'.fatalState = none := congrArg Prod.fst heq
  have hreader : s'.reader = .idle := congrArg Prod.snd heq
  have hrun := run_of_play (fun _ _ _ h => h) hs
  have hanswered : Answered (firstCall ++ [.move 0 .expire, .move 0 .retire,
      .receive ⟨.int 1, ()⟩]) (.int 1) := ⟨⟨.int 1, ()⟩, by decide, rfl⟩
  rcases h _ s s' ⟨.int 1, ()⟩ hrun hanswered hs' with hd | ⟨why, hwhy⟩
  · rw [hfatal] at hd
    cases hd
  · rw [hreader] at hwhy
    cases hwhy

end AlysisCode.Mcp.Stdio
