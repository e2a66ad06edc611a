/-
What a step of a call or of the reader can do to a stdio transport.

A call that holds a response came by it in one way: the reader took it from the deferred
responses of a pending request and put it into the call's queue, and the request was
pending no longer.  So the responses, wherever they are, stay apart, and a request's end
is the end of what it can be sent.  `Core` is what every step keeps, and `Frame` says what
a step leaves alone; only a registration does more.
-/
import AlysisCode.Mcp.StdioTable

namespace AlysisCode.Mcp.Stdio

open Requests

variable {β : Type} {s s' s'' : Transport β} {c : Nat}

/-! ### Calls -/

/-- The call has a response: in its queue, in its hands, or returned. -/
def Call.Has (call : Call β) (a : Arrival β) : Prop :=
  .response a ∈ call.queue ∨ call.phase = .holding a ∨ call.phase = .done (.returned a)

/-- The call has registered. -/
def Phase.entered : Phase β → Bool
  | .sending | .waiting _ | .expiring _ | .holding _ | .done _ => true
  | _ => false

theorem Phase.entered_of_active {p : Phase β} (h : p.active = true) : p.entered = true := by
  cases p with
  | sending | waiting | expiring => rfl
  | idle | checked | fetched | loaded | named | holding | done => cases h

def Reader.notified : Reader → List Nat
  | .notifying calls => calls
  | _ => []

/-! ### The invariant -/

/-- What holds of a transport at all times. -/
structure Core (s : Transport β) : Prop where
  kept : s.requests.Kept
  covered : s.fatalState = none → s.requests.Covered
  /-- a call that has not registered has been sent nothing, and will not be -/
  fresh : ∀ c, (s.calls c).phase.entered = false → (s.calls c).queue = [] ∧ c ∉ s.reader.notified
  /-- a pending request is its call's, and the call has been told of nothing but a response -/
  owner : ∀ i c, s.requests.pending.lookup i = some c →
    (s.calls c).phase.active = true ∧ i = .int (s.calls c).requestId ∧
      (∀ item ∈ (s.calls c).queue, item = .observed) ∧ c ∉ s.reader.notified
  own : ∀ c a, (s.calls c).Has a →
    (s.calls c).phase.entered = true ∧ a.response.id = .int (s.calls c).requestId
  before : ∀ c a, (s.calls c).Has a → a.serial < s.arrived
  once : ∀ c c' a a', (s.calls c).Has a → (s.calls c').Has a' → a.serial = a'.serial → c = c'

/-- What holds of the responses the reader holds back. -/
structure HeldBack (s : Transport β) : Prop where
  own : ∀ e ∈ s.deferred.entries, e.2.response.id = e.1
  before : ∀ e ∈ s.deferred.entries, e.2.serial < s.arrived
  once : s.deferred.entries.Pairwise fun e e' => e.2.serial ≠ e'.2.serial

/-- No call has one of them. -/
def Apart (s : Transport β) : Prop :=
  ∀ e ∈ s.deferred.entries, ∀ c a, (s.calls c).Has a → a.serial ≠ e.2.serial

/-- The transport is fatal, or the reader is about to say so. -/
def Doomed (s : Transport β) : Prop :=
  s.fatalState.isSome = true ∨ ∃ why, s.reader = .declaring why

/-- What every step other than a registration leaves alone. -/
structure Frame (s s' : Transport β) : Prop where
  pending : ∀ i c, s'.requests.pending.lookup i = some c → s.requests.pending.lookup i = some c
  known : ∀ i, i ∈ s'.requests.states → i ∈ s.requests.states ∨
    ∃ c, (s.calls c).phase.active = true ∧ i = .int (s.calls c).requestId
  awaiting : ∀ i, s'.requests.states.lookup i = some .awaitingResponse →
    s.requests.states.lookup i = some .awaitingResponse
  active : ∀ c, (s'.calls c).phase.active = true →
    (s.calls c).phase.active = true ∧ (s'.calls c).requestId = (s.calls c).requestId
  ended : ∀ c o, (s.calls c).phase = .done o → (s'.calls c).phase = .done o ∧
    (s'.calls c).requestId = (s.calls c).requestId ∧
      ∀ a, .response a ∈ (s'.calls c).queue → .response a ∈ (s.calls c).queue

theorem Frame.of_same (hcalls : s'.calls = s.calls) (hrequests : s'.requests = s.requests) :
    Frame s s' := by
  refine ⟨fun i c hi => ?_, fun i hi => .inl ?_, fun i hi => ?_, fun c hc => ?_, fun c o hc => ?_⟩
  · exact hrequests ▸ hi
  · exact hrequests ▸ hi
  · exact hrequests ▸ hi
  · exact ⟨hcalls ▸ hc, by rw [hcalls]⟩
  · rw [hcalls]
    exact ⟨hc, rfl, fun _ ha => ha⟩

theorem Frame.trans (h : Frame s s') (h' : Frame s' s'') : Frame s s'' where
  pending := fun i c hi => h.pending i c (h'.pending i c hi)
  known := fun i hi => by
    rcases h'.known i hi with hi | ⟨c, hc, hid⟩
    · exact h.known i hi
    · obtain ⟨hactive, hsame⟩ := h.active c hc
      exact .inr ⟨c, hactive, hsame ▸ hid⟩
  awaiting := fun i hi => h.awaiting i (h'.awaiting i hi)
  active := fun c hc => by
    obtain ⟨hc', hsame'⟩ := h'.active c hc
    obtain ⟨hc'', hsame⟩ := h.active c hc'
    exact ⟨hc'', hsame'.trans hsame⟩
  ended := fun c o hc => by
    obtain ⟨hc', hid, hq⟩ := h.ended c o hc
    obtain ⟨hc'', hid', hq'⟩ := h'.ended c o hc'
    exact ⟨hc'', hid'.trans hid, fun a ha => hq a (hq' a ha)⟩

/-! ### Lookups after an update of one call -/

theorem calls_put (s : Transport β) (c d : Nat) (call : Call β) :
    (s.put c call).calls d = if d = c then call else s.calls d := by
  unfold Transport.put
  exact Function.update_apply ..

theorem calls_enqueue (s : Transport β) (c d : Nat) (item : Item β) : (s.enqueue c item).calls d =
      if d = c then { s.calls c with queue := (s.calls c).queue ++ [item] } else s.calls d :=
  calls_put ..

@[simp] theorem phase_enqueue (s : Transport β) (c d : Nat) (item : Item β) :
    ((s.enqueue c item).calls d).phase = (s.calls d).phase := by
  rw [calls_enqueue]
  by_cases hd : d = c
  · rw [if_pos hd, hd]
  · rw [if_neg hd]

@[simp] theorem requestId_enqueue (s : Transport β) (c d : Nat) (item : Item β) :
    ((s.enqueue c item).calls d).requestId = (s.calls d).requestId := by
  rw [calls_enqueue]
  by_cases hd : d = c
  · rw [if_pos hd, hd]
  · rw [if_neg hd]

variable {r : Requests} {id : JsonRpcId} {item : Item β} {i : JsonRpcId} {state : RequestState}

theorem mem_queue_enqueue {item' : Item β} {d : Nat} : item' ∈ ((s.enqueue c item).calls d).queue ↔
      item' ∈ (s.calls d).queue ∨ (d = c ∧ item' = item) := by
  rw [calls_enqueue]
  by_cases hd : d = c
  · subst hd
    rw [if_pos rfl]
    simp
  · rw [if_neg hd]
    simp [hd]

theorem has_enqueue {d : Nat} {a : Arrival β} : ((s.enqueue c item).calls d).Has a ↔
      (s.calls d).Has a ∨ (d = c ∧ item = .response a) := by
  unfold Call.Has
  rw [mem_queue_enqueue, phase_enqueue]
  constructor
  · rintro ((h | ⟨hd, h⟩) | h)
    · exact .inl (.inl h)
    · exact .inr ⟨hd, h.symm⟩
    · exact .inl (.inr h)
  · rintro ((h | h) | ⟨hd, h⟩)
    · exact .inl (.inl h)
    · exact .inr h
    · exact .inl (.inr ⟨hd, h.symm⟩)

/-! ### Steps of a call -/

/-- What a step of a call does to it. -/
structure Advances (call call' : Call β) : Prop where
  live : ∀ o, call.phase ≠ .done o
  has : ∀ a, call'.Has a → call.Has a
  queue : ∀ item ∈ call'.queue, item ∈ call.queue
  active : call'.phase.active = true → call.phase.active = true
  entered : call.phase.entered = true →
    call'.phase.entered = true ∧ call'.requestId = call.requestId

variable {call : Call β} {observed : Bool} {rest : List (Item β)}

theorem advances_phase {phase : Phase β} (hlive : ∀ o, call.phase ≠ .done o)
    (hhas : ∀ a, phase = .holding a ∨ phase = .done (.returned a) → call.phase = .holding a)
    (hactive : phase.active = true → call.phase.active = true)
    (hentered : call.phase.entered = true → phase.entered = true) :
    Advances call { call with phase := phase } where
  live := hlive
  has := fun a ha => by
    rcases ha with ha | ha
    · exact .inl ha
    · exact .inr (.inl (hhas a ha))
  queue := fun _ h => h
  active := hactive
  entered := fun h => ⟨hentered h, rfl⟩

theorem advances_take (hphase : call.phase = .waiting observed) (hqueue : call.queue = item :: rest) :
    Advances call (Transport.takeItem call rest item) where
  live := fun o ho => by
    rw [hphase] at ho
    cases ho
  has := fun a ha => by
    have hrest : .response a ∈ rest → call.Has a := by
      intro hmem
      refine .inl ?_
      rw [hqueue]
      exact List.mem_cons_of_mem _ hmem
    cases item with
    | response b =>
      rcases ha with ha | ha | ha
      · exact hrest ha
      · cases ha
        refine .inl ?_
        rw [hqueue]
        exact List.mem_cons_self
      · cases ha
    | observed | followUpTimeout | fatal =>
      rcases ha with ha | ha | ha
      · exact hrest ha
      · cases ha
      · cases ha
  queue := fun other hmem => by
    rw [hqueue]
    refine List.mem_cons_of_mem _ ?_
    cases item with
    | observed | followUpTimeout | fatal | response => exact hmem
  active := fun _ => by
    rw [hphase]
    rfl
  entered := fun _ => by
    cases item with
    | observed | followUpTimeout | fatal | response => exact ⟨rfl, rfl⟩

/-- A step of a call other than its registration: the call goes on, and at most ends the
request in the tables. -/
def Moved (s : Transport β) (c : Nat) (s' : Transport β) : Prop :=
  ∃ n r call', s' = { s with nextId := n, requests := r }.put c call' ∧ Advances (s.calls c) call' ∧
    (r = s.requests ∨ ∃ st, st.discardsLateResponses = true ∧ (s.calls c).phase.active = true ∧
      r = s.requests.withdraw (.int (s.calls c).requestId) st) ∧
    (∀ i, r.pending.lookup i = some c → call'.phase.active = true) ∧
    ∀ a, call'.phase = .done (.returned a) → s.fatalState = none

theorem moved_idle (hs : Core s) (hphase : (s.calls c).phase.active = false) {n : Int}
    {call' : Call β} (hadv : Advances (s.calls c) call')
    (hreturned : ∀ a, call'.phase = .done (.returned a) → s.fatalState = none) :
    Moved s c ({ s with nextId := n }.put c call') := by
  refine ⟨n, s.requests, call', rfl, hadv, .inl rfl, fun i hi => ?_, hreturned⟩
  rw [(hs.owner i c hi).1] at hphase
  cases hphase

theorem moved_ended (hs : Core s) (hphase : (s.calls c).phase.active = true) {st : RequestState}
    (hst : st.discardsLateResponses = true) {outcome : Outcome β}
    (houtcome : ∀ a, outcome ≠ .returned a) :
    Moved s c ({ s with requests := s.requests.withdraw (.int (s.calls c).requestId) st }.put c
      { s.calls c with phase := .done outcome }) := by
  have hlive : ∀ o, (s.calls c).phase ≠ .done o := by
    intro o ho
    rw [ho] at hphase
    cases hphase
  refine ⟨s.nextId, _, _, rfl, ?_, .inr ⟨st, hst, hphase, rfl⟩, fun i hi => ?_, fun a ha => ?_⟩
  · refine advances_phase hlive (fun a ha => ?_) (fun h => by cases h) (fun _ => rfl)
    rcases ha with ha | ha
    · cases ha
    · exact absurd (Phase.done.inj ha) (houtcome a)
  · rw [pending_withdraw] at hi
    by_cases heq : i = .int (s.calls c).requestId
    · subst heq
      rw [AList.lookup_erase] at hi
      cases hi
    · rw [AList.lookup_erase_ne heq] at hi
      exact absurd (hs.owner i c hi).2.1 heq
  · exact absurd (Phase.done.inj ha) (houtcome a)

theorem moved_take (hs : Core s) (hphase : (s.calls c).phase = .waiting observed)
    (hqueue : (s.calls c).queue = item :: rest) :
    Moved s c (s.put c (Transport.takeItem (s.calls c) rest item)) := by
  refine ⟨s.nextId, s.requests, _, rfl, advances_take hphase hqueue, .inl rfl, fun i hi => ?_,
    fun a ha => ?_⟩
  · have hitem := (hs.owner i c hi).2.2.1 item (by rw [hqueue]; exact List.mem_cons_self)
    subst hitem
    rfl
  · cases item with
    | observed | followUpTimeout | fatal | response => cases ha

/-- **What a step of a call can do.** -/
theorem move_spec {m : Transport.Move} (h : s.move c m = some s') (hm : m ≠ .register)
    (hs : Core s) : Moved s c s' := by
  unfold Transport.move at h
  dsimp only at h
  split at h
  · rename_i hphase
    cases h
    refine moved_idle hs (by rw [hphase]; rfl) ?_ (fun a ha => by cases ha)
    exact advances_phase (by simp [hphase]) (by simp) (by simp [Phase.active]) (fun _ => rfl)
  · rename_i hphase
    split at h
    · cases h
      refine moved_idle hs (by rw [hphase]; rfl) ?_ (fun a ha => by cases ha)
      exact advances_phase (by simp [hphase]) (by simp) (by simp [Phase.active]) (fun _ => rfl)
    · cases h
      refine moved_idle hs (by rw [hphase]; rfl) ?_ (fun a ha => by cases ha)
      exact advances_phase (by simp [hphase]) (by simp) (by simp [Phase.active])
        (by simp [hphase, Phase.entered])
  · rename_i hphase
    cases h
    refine moved_idle hs (by rw [hphase]; rfl) ?_ (fun a ha => by cases ha)
    refine ⟨by simp [hphase], fun a ha => ?_, fun _ h => h, by simp [Phase.active],
      by simp [hphase, Phase.entered]⟩
    rcases ha with ha | ha | ha
    · exact .inl ha
    · cases ha
    · cases ha
  · rename_i hphase
    cases h
    refine moved_idle hs (by rw [hphase]; rfl) ?_ (fun a ha => by cases ha)
    exact advances_phase (by simp [hphase]) (by simp) (by simp [Phase.active])
      (by simp [hphase, Phase.entered])
  · rename_i tmp hphase
    cases h
    refine moved_idle hs (by rw [hphase]; rfl) ?_ (fun a ha => by cases ha)
    exact advances_phase (by simp [hphase]) (by simp) (by simp [Phase.active])
      (by simp [hphase, Phase.entered])
  · exact absurd rfl hm
  · rename_i hphase
    cases h
    refine ⟨s.nextId, s.requests, _, rfl, ?_, .inl rfl, fun _ _ => rfl, fun a ha => by cases ha⟩
    exact advances_phase (by simp [hphase]) (by simp) (by simp [hphase, Phase.active])
      (fun _ => rfl)
  · rename_i hphase
    cases h
    exact moved_ended hs (by rw [hphase]; rfl) rfl (fun a ha => by cases ha)
  · rename_i observed hphase
    split at h
    · cases h
    · rename_i item rest hqueue
      cases h
      exact moved_take hs hphase hqueue
  · rename_i observed hphase
    split at h
    · cases h
      refine ⟨s.nextId, s.requests, _, rfl, ?_, .inl rfl, fun _ _ => rfl, fun a ha => by cases ha⟩
      exact advances_phase (by simp [hphase]) (by simp) (by simp [hphase, Phase.active])
        (fun _ => rfl)
    · cases h
  · rename_i observed hphase
    obtain ⟨st, hst, heq⟩ := @Kept.retireOnTimeout _ (.int (s.calls c).requestId) hs.kept observed
    rw [heq] at h
    cases h
    exact moved_ended hs (by rw [hphase]; rfl) hst (fun a ha => by cases ha)
  · rename_i a hphase
    split at h
    · cases h
      refine moved_idle hs (by rw [hphase]; rfl) ?_ (fun a ha => by cases ha)
      exact advances_phase (by simp [hphase]) (by simp) (by simp [Phase.active]) (fun _ => rfl)
    · rename_i hfatal
      cases h
      refine moved_idle hs (by rw [hphase]; rfl) ?_ (fun _ _ => Option.not_isSome_iff_eq_none.mp hfatal)
      refine advances_phase (by simp [hphase]) ?_ (by simp [Phase.active]) (fun _ => rfl)
      rintro b (hb | hb)
      · cases hb
      · cases hb
        exact hphase
  · cases h

theorem Moved.same (h : Moved s c s') : s'.deferred = s.deferred ∧ s'.fatalState = s.fatalState ∧
    s'.reader = s.reader ∧ s'.arrived = s.arrived := by
  obtain ⟨n, r, call', rfl, -⟩ := h
  exact ⟨rfl, rfl, rfl, rfl⟩

theorem Moved.has (h : Moved s c s') {d : Nat} {a : Arrival β} (ha : (s'.calls d).Has a) :
    (s.calls d).Has a := by
  obtain ⟨n, r, call', rfl, hadv, -⟩ := h
  rw [calls_put] at ha
  by_cases hd : d = c
  · rw [if_pos hd] at ha
    exact hd ▸ hadv.has a ha
  · rwa [if_neg hd] at ha

theorem awaiting_of_withdraw (hstate : state = .completed ∨ state.discardsLateResponses = true)
    (h : (r.withdraw id state).states.lookup i = some .awaitingResponse) :
    r.states.lookup i = some .awaitingResponse := by
  rcases lookup_of_ended hstate h with ⟨-, hold⟩ | ⟨-, hdis⟩
  · exact hold
  · cases hdis

theorem known_of_withdraw (hstate : state = .completed ∨ state.discardsLateResponses = true)
    (h : i ∈ (r.withdraw id state).states) : i = id ∨ i ∈ r.states := by
  obtain ⟨st, hst⟩ := Option.isSome_iff_exists.mp (AList.lookup_isSome.mpr h)
  rcases lookup_of_ended hstate hst with ⟨-, hold⟩ | ⟨heq, -⟩
  · exact .inr (AList.lookup_isSome.mp (by
      rw [show r.states.lookup i = some st from hold]
      rfl))
  · exact .inl heq

theorem pending_of_withdraw {d : Nat} (h : (r.withdraw id state).pending.lookup i = some d) :
    i ≠ id ∧ r.pending.lookup i = some d := by
  rw [pending_withdraw] at h
  by_cases heq : i = id
  · subst heq
    rw [AList.lookup_erase] at h
    cases h
  · rw [AList.lookup_erase_ne heq] at h
    exact ⟨heq, h⟩

theorem Moved.frame (h : Moved s c s') : Frame s s' := by
  obtain ⟨n, r, call', rfl, hadv, hr, -⟩ := h
  refine ⟨fun i d hi => ?_, fun i hi => ?_, fun i hi => ?_, fun d hd => ?_, fun d o hd => ?_⟩
  · rcases hr with rfl | ⟨st, -, -, rfl⟩
    · exact hi
    · exact (pending_of_withdraw hi).2
  · rcases hr with rfl | ⟨st, hst, hactive, rfl⟩
    · exact .inl hi
    · rcases known_of_withdraw (.inr hst) hi with heq | hi
      · exact .inr ⟨c, hactive, heq⟩
      · exact .inl hi
  · rcases hr with rfl | ⟨st, hst, -, rfl⟩
    · exact hi
    · exact awaiting_of_withdraw (.inr hst) hi
  · rw [calls_put] at hd ⊢
    by_cases heq : d = c
    · subst heq
      rw [if_pos rfl] at hd ⊢
      have hactive := hadv.active hd
      exact ⟨hactive, (hadv.entered (Phase.entered_of_active hactive)).2⟩
    · rw [if_neg heq] at hd ⊢
      exact ⟨hd, rfl⟩
  · rw [calls_put]
    by_cases heq : d = c
    · exact absurd hd (heq ▸ hadv.live o)
    · rw [if_neg heq]
      exact ⟨hd, rfl, fun _ ha => ha⟩

theorem Moved.core (h : Moved s c s') (hs : Core s) : Core s' := by
  have hhas := fun d a => @Moved.has β s s' c h d a
  obtain ⟨n, r, call', rfl, hadv, hr, hpending, -⟩ := h
  refine ⟨?_, fun hfatal => ?_, fun d hd => ?_, fun i d hi => ?_, fun d a ha => ?_,
    fun d a ha => ?_, fun d d' a a' ha ha' => ?_⟩
  · rcases hr with rfl | ⟨st, hst, -, rfl⟩
    · exact hs.kept
    · exact hs.kept.withdraw (.inr hst)
  · rcases hr with rfl | ⟨st, hst, -, rfl⟩
    · exact hs.covered hfatal
    · exact (hs.covered hfatal).withdraw (.inr hst)
  · rw [calls_put] at hd ⊢
    by_cases heq : d = c
    · subst heq
      rw [if_pos rfl] at hd ⊢
      have hnot : (s.calls d).phase.entered = false := by
        refine Bool.eq_false_iff.mpr fun hentered => ?_
        rw [(hadv.entered hentered).1] at hd
        cases hd
      obtain ⟨hqueue, hnotified⟩ := hs.fresh d hnot
      refine ⟨List.eq_nil_iff_forall_not_mem.mpr fun item hitem => ?_, hnotified⟩
      have hmem := hadv.queue item hitem
      rw [hqueue] at hmem
      cases hmem
    · rw [if_neg heq] at hd ⊢
      exact hs.fresh d hd
  · have hold : s.requests.pending.lookup i = some d := by
      rcases hr with rfl | ⟨st, -, -, rfl⟩
      · exact hi
      · exact (pending_of_withdraw hi).2
    obtain ⟨hactive, hid, hqueue, hnotified⟩ := hs.owner i d hold
    rw [calls_put]
    by_cases heq : d = c
    · subst heq
      rw [if_pos rfl, (hadv.entered (Phase.entered_of_active hactive)).2]
      exact ⟨hpending i hi, hid, fun item hitem => hqueue item (hadv.queue item hitem), hnotified⟩
    · rw [if_neg heq]
      exact ⟨hactive, hid, hqueue, hnotified⟩
  · obtain ⟨hentered, hown⟩ := hs.own d a (hhas d a ha)
    rw [calls_put]
    by_cases heq : d = c
    · subst heq
      rw [if_pos rfl]
      obtain ⟨hentered', hid⟩ := hadv.entered hentered
      exact ⟨hentered', hid ▸ hown⟩
    · rw [if_neg heq]
      exact ⟨hentered, hown⟩
  · exact hs.before d a (hhas d a ha)
  · exact hs.once d d' a a' (hhas d a ha) (hhas d' a' ha')

/-! ### Registration -/

theorem register_spec (h : s.move c .register = some s') : (s.calls c).phase = .named ∧
      s' = { s with requests :=
        { s.requests with
          pending := s.requests.pending.insert (.int (s.calls c).requestId) c
          states := s.requests.states.insert (.int (s.calls c).requestId) .awaitingResponse } }.put c
        { s.calls c with phase := .sending } := by
  unfold Transport.move at h
  dsimp only at h
  cases hphase : (s.calls c).phase with
  | named =>
    rw [hphase, setRequestState_awaiting (.inl rfl)] at h
    exact ⟨rfl, (Option.some.inj h).symm⟩
  | idle | checked | fetched | loaded | sending | waiting | expiring | holding | done =>
    rw [hphase] at h
    cases h

theorem core_register (h : s.move c .register = some s') (hs : Core s) : Core s' := by
  obtain ⟨hphase, rfl⟩ := register_spec h
  obtain ⟨hqueue, hnotified⟩ := hs.fresh c (by rw [hphase]; rfl)
  have hnone : ∀ a, ¬ (s.calls c).Has a := by
    intro a ha
    have hentered := (hs.own c a ha).1
    rw [hphase] at hentered
    cases hentered
  have hhas : ∀ d a, ((s.put c { s.calls c with phase := .sending }).calls d).Has a →
      d ≠ c ∧ (s.calls d).Has a := by
    intro d a ha
    rw [calls_put] at ha
    by_cases heq : d = c
    · subst heq
      rw [if_pos rfl] at ha
      rcases ha with ha | ha | ha
      · exact absurd (.inl ha) (hnone a)
      · cases ha
      · cases ha
    · rw [if_neg heq] at ha
      exact ⟨heq, ha⟩
  refine ⟨?_, fun hfatal => ?_, fun d hd => ?_, fun i d hi => ?_, fun d a ha => ?_,
    fun d a ha => ?_, fun d d' a a' ha ha' => ?_⟩
  · refine hs.kept.setAwaiting _ (fun i hi => ?_) (.inl rfl)
    exact (AList.mem_insert _).mp hi
  · refine (hs.covered hfatal).setAwaiting _ ((AList.mem_insert _).mpr (.inl rfl)) fun i hi => ?_
    exact (AList.mem_insert _).mpr (.inr hi)
  · rw [calls_put] at hd ⊢
    by_cases heq : d = c
    · rw [if_pos heq] at hd
      cases hd
    · rw [if_neg heq] at hd ⊢
      exact hs.fresh d hd
  · rw [calls_put]
    rcases lookup_insert_cases hi with ⟨rfl, rfl⟩ | ⟨-, hold⟩
    · rw [if_pos rfl]
      refine ⟨rfl, rfl, fun item hitem => ?_, hnotified⟩
      rw [show (s.calls d).queue = [] from hqueue] at hitem
      cases hitem
    · have howner := hs.owner i d hold
      by_cases heq : d = c
      · rw [heq, hphase] at howner
        cases howner.1
      · rw [if_neg heq]
        exact howner
  · obtain ⟨hne, hold⟩ := hhas d a ha
    rw [calls_put, if_neg hne]
    exact hs.own d a hold
  · exact hs.before d a (hhas d a ha).2
  · exact hs.once d d' a a' (hhas d a ha).2 (hhas d' a' ha').2

end AlysisCode.Mcp.Stdio
