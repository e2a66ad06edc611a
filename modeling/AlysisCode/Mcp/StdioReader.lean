/-
What a step of the reader can do to a stdio transport, and what a step of either does.

The reader handles a response in one of three ways, and later releases what it held back
in one of two.  Either ends a request at most once, since it takes the request from the
pending ones in the same use of the lock.
-/
import AlysisCode.Mcp.StdioSteps

namespace AlysisCode.Mcp.Stdio

open Requests

variable {β : Type} {s s' s'' : Transport β} {c : Nat}

/-! ### Steps of the reader -/

variable {id : JsonRpcId} {item : Item β} {sent : List (Arrival β)} {st : RequestState}

theorem core_enqueue {r : Requests} {d : Dict JsonRpcId (Arrival β)} {reader : Reader} (hs : Core s)
    (hentered : (s.calls c).phase.entered = true) (hkept : r.Kept)
    (hcovered : s.fatalState = none → r.Covered) (hpending : ∀ i e, r.pending.lookup i = some e →
      s.requests.pending.lookup i = some e ∧ (e = c → item = .observed))
    (hreader : ∀ e ∈ reader.notified, e ∈ s.reader.notified)
    (hresponse : ∀ a, item = .response a → a.response.id = .int (s.calls c).requestId ∧
      a.serial < s.arrived ∧ ∀ e b, (s.calls e).Has b → b.serial ≠ a.serial) :
    Core { s.enqueue c item with requests := r, deferred := d, reader := reader } where
  kept := hkept
  covered := hcovered
  fresh := fun e hnew => by
    have he : (s.calls e).phase.entered = false := by
      rw [← phase_enqueue s c e item]
      exact hnew
    obtain ⟨hqueue, hnotified⟩ := hs.fresh e he
    refine ⟨?_, fun hmem => hnotified (hreader e hmem)⟩
    change ((s.enqueue c item).calls e).queue = []
    rw [calls_enqueue, if_neg ?_]
    · exact hqueue
    · rintro rfl
      rw [hentered] at he
      cases he
  owner := fun i e hi => by
    obtain ⟨hold, hitem⟩ := hpending i e hi
    obtain ⟨hactive, hid, hqueue, hnotified⟩ := hs.owner i e hold
    refine ⟨(phase_enqueue s c e item).symm ▸ hactive, (requestId_enqueue s c e item).symm ▸ hid,
      fun other hother => ?_, fun hmem => hnotified (hreader e hmem)⟩
    rcases mem_queue_enqueue.mp hother with hother | ⟨heq, rfl⟩
    · exact hqueue other hother
    · exact hitem heq
  own := fun e a ha => by
    refine (phase_enqueue s c e item).symm ▸ (requestId_enqueue s c e item).symm ▸ ?_
    rcases has_enqueue.mp ha with ha | ⟨rfl, hitem⟩
    · exact hs.own e a ha
    · exact ⟨hentered, (hresponse a hitem).1⟩
  before := fun e a ha => by
    rcases has_enqueue.mp ha with ha | ⟨-, hitem⟩
    · exact hs.before e a ha
    · exact (hresponse a hitem).2.1
  once := fun e e' a a' ha ha' heq => by
    rcases has_enqueue.mp ha with hold | ⟨he, hitem⟩
    · rcases has_enqueue.mp ha' with hold' | ⟨-, hitem'⟩
      · exact hs.once e e' a a' hold hold' heq
      · exact absurd heq ((hresponse a' hitem').2.2 e a hold)
    · rcases has_enqueue.mp ha' with hold' | ⟨he', -⟩
      · exact absurd heq.symm ((hresponse a hitem).2.2 e' a' hold')
      · exact he.trans he'.symm

theorem frame_enqueue {item : Item β} {r : Requests} {d : Dict JsonRpcId (Arrival β)}
    {reader : Reader} {n : Nat}
    (hpending : ∀ i e, r.pending.lookup i = some e → s.requests.pending.lookup i = some e)
    (hknown : ∀ i ∈ r.states, i ∈ s.requests.states)
    (hawaiting : ∀ i, r.states.lookup i = some .awaitingResponse →
      s.requests.states.lookup i = some .awaitingResponse)
    (hresponse : ∀ a o, item = .response a → (s.calls c).phase ≠ .done o) :
    Frame s { s.enqueue c item with
      requests := r, deferred := d, reader := reader, arrived := n } where
  pending := hpending
  known := fun i hi => .inl (hknown i hi)
  awaiting := hawaiting
  active := fun e he => ⟨(phase_enqueue s c e item) ▸ he, requestId_enqueue s c e item⟩
  ended := fun e o he => by
    refine ⟨(phase_enqueue s c e item).symm ▸ he, requestId_enqueue s c e item, fun a ha => ?_⟩
    rcases mem_queue_enqueue.mp ha with ha | ⟨rfl, hitem⟩
    · exact ha
    · exact absurd he (hresponse a o hitem.symm)

/-- **What the handling of a response can do**: it is discarded, for it came late; or the
reader will declare the transport fatal; or it is the first one for its request, and is held
back. -/
theorem handle_spec (hs : Core s) (message : JsonRpcResponse β) :
    (message.id ∉ s.deferred ∧ s.requests.discards message.id = true ∧
      s.handleResponseMessage message = { s with arrived := s.arrived + 1 }) ∨
    ((message.id ∈ s.deferred ∨ s.requests.discards message.id = false) ∧
      ∃ why, s.handleResponseMessage message =
        { s with arrived := s.arrived + 1, reader := .declaring why }) ∨
    (message.id ∉ s.deferred ∧ s.requests.states.lookup message.id = some .awaitingResponse ∧
      ∃ c, s.requests.pending.lookup message.id = some c ∧ s.handleResponseMessage message =
          { s.enqueue c .observed with
            requests := { s.requests with
              states := s.requests.states.insert message.id .awaitingFollowUp }
            deferred := s.deferred.insert message.id ⟨s.arrived, message⟩
            arrived := s.arrived + 1 }) := by
  unfold Transport.handleResponseMessage
  by_cases hdeferred : message.id ∈ s.deferred
  · rw [if_pos hdeferred]
    exact .inr (.inl ⟨.inl hdeferred, _, rfl⟩)
  rw [if_neg hdeferred]
  cases hpending : s.requests.pending.lookup message.id with
  | none =>
    dsimp only
    unfold Requests.discards
    by_cases hdis : (s.requests.states.lookup message.id).any
        RequestState.discardsLateResponses = true
    · rw [if_pos hdis]
      exact .inl ⟨hdeferred, hdis, rfl⟩
    · rw [if_neg hdis, if_neg (hs.kept.stored message.id)]
      exact .inr (.inl ⟨.inr (Bool.eq_false_iff.mpr hdis), _, rfl⟩)
  | some c =>
    have hawaits := hs.kept.awaits message.id (AList.lookup_isSome.mp (by rw [hpending]; rfl))
    rcases hawaits with hst | hst
    · rw [hst, setRequestState_awaiting (.inr rfl)]
      exact .inr (.inr ⟨hdeferred, rfl, c, rfl, rfl⟩)
    · rw [hst]
      have hdis := Awaits.not_discards (.inr hst)
      exact .inr (.inl ⟨.inr hdis, _, rfl⟩)

theorem mem_of_lookup {ν : Type} {d : Dict JsonRpcId ν} {i : JsonRpcId} {v : ν}
    (h : d.lookup i = some v) : i ∈ d :=
  AList.lookup_isSome.mp (by rw [h]; rfl)

theorem core_of_same (hs : Core s) (hcalls : s'.calls = s.calls)
    (hrequests : s'.requests = s.requests) (hfatal : s'.fatalState = s.fatalState)
    (harrived : s.arrived ≤ s'.arrived) (hreader : s'.reader.notified = []) : Core s' where
  kept := hrequests ▸ hs.kept
  covered := fun hnone => hrequests ▸ hs.covered (hfatal ▸ hnone)
  fresh := fun c hc => by
    rw [hcalls] at hc ⊢
    rw [hreader]
    exact ⟨(hs.fresh c hc).1, List.not_mem_nil⟩
  owner := fun i c hi => by
    rw [hrequests] at hi
    obtain ⟨hactive, hid, hqueue, -⟩ := hs.owner i c hi
    rw [hcalls, hreader]
    exact ⟨hactive, hid, hqueue, List.not_mem_nil⟩
  own := hcalls ▸ hs.own
  before := fun c a ha => Nat.lt_of_lt_of_le (hs.before c a (hcalls ▸ ha)) harrived
  once := hcalls ▸ hs.once

theorem core_handle (hs : Core s) (hidle : s.reader = .idle) (message : JsonRpcResponse β) :
    Core (s.handleResponseMessage message) ∧ Frame s (s.handleResponseMessage message) := by
  rcases handle_spec hs message with ⟨-, -, heq⟩ | ⟨-, why, heq⟩ | ⟨-, hst, c, hpending, heq⟩
  · rw [heq]
    refine ⟨core_of_same hs rfl rfl rfl (Nat.le_succ _) ?_, Frame.of_same rfl rfl⟩
    change s.reader.notified = []
    rw [hidle]
    rfl
  · rw [heq]
    exact ⟨core_of_same hs rfl rfl rfl (Nat.le_succ _) rfl, Frame.of_same rfl rfl⟩
  · rw [heq]
    have hmem := mem_of_lookup hpending
    have hactive := (hs.owner message.id c hpending).1
    have hold : ∀ i ∈ s.requests.states.insert message.id .awaitingFollowUp,
        i ∈ s.requests.states := by
      intro i hi
      rcases (AList.mem_insert _).mp hi with rfl | hi
      · exact mem_of_lookup hst
      · exact hi
    refine ⟨?_, ?_⟩
    · have hs' : Core { s with arrived := s.arrived + 1 } := by
        refine core_of_same hs rfl rfl rfl (Nat.le_succ _) ?_
        change s.reader.notified = []
        rw [hidle]
        rfl
      refine core_enqueue hs' (Phase.entered_of_active hactive) ?_ (fun hfatal => ?_)
        (fun i e hi => ⟨hi, fun _ => rfl⟩) (fun e he => he) ?_
      · exact hs.kept.setAwaiting _ (fun i hi => .inr hi) (.inr rfl)
      · exact (hs.covered hfatal).setAwaiting _ hmem fun i hi => hi
      · exact fun a ha => by cases ha
    · refine @frame_enqueue β s c .observed _ _ _ _ (fun i e hi => hi) hold (fun i hi => ?_) ?_
      · rcases lookup_insert_cases hi with ⟨-, heq⟩ | ⟨-, hi⟩
        · cases heq
        · exact hi
      · exact fun a o ha => by cases ha

/-! ### Releasing what was held back -/

/-- A response is released to its call, or the call is told that it took too long; the
request has ended.  Or nothing is done, for the request had ended before. -/
theorem flushOne_spec (hs : Core s) (h : s.flushOne id item st = .ok s') :
    s' = s ∨ ∃ c, s.requests.pending.lookup id = some c ∧
      s.requests.states.lookup id = some .awaitingFollowUp ∧
      s' = { s.enqueue c item with requests := s.requests.withdraw id st } := by
  unfold Transport.flushOne at h
  cases hpending : s.requests.pending.lookup id with
  | none =>
    rw [hpending] at h
    dsimp only at h
    split at h
    · exact .inl (Except.ok.inj h).symm
    · split at h
      · cases h
      · cases h
  | some c =>
    rw [hpending] at h
    rcases hs.kept.awaits id (mem_of_lookup hpending) with hst | hst
    · rw [hst] at h
      cases h
    · rw [hst] at h
      exact .inr ⟨c, rfl, hst, (Except.ok.inj h).symm⟩

/-- What a part of a flush has done: the calls it sent something have the responses of `sent`
at most. -/
structure Flushed (sent : List (Arrival β)) (s s' : Transport β) : Prop where
  core : Core s'
  frame : Frame s s'
  deferred : s'.deferred = s.deferred
  fatalState : s'.fatalState = s.fatalState
  reader : s'.reader = s.reader
  arrived : s'.arrived = s.arrived
  phase : ∀ c, (s'.calls c).phase = (s.calls c).phase
  has : ∀ c a, (s'.calls c).Has a → (s.calls c).Has a ∨ a ∈ sent

theorem Flushed.none (sent : List (Arrival β)) (hs : Core s) : Flushed sent s s :=
  ⟨hs, Frame.of_same rfl rfl, rfl, rfl, rfl, rfl, fun _ => rfl, fun _ _ ha => .inl ha⟩

/-- The end of a request that awaits its follow-up. -/
theorem flushed_one (hs : Core s) (h : s.flushOne id item st = .ok s')
    (hst : st = .completed ∨ st.discardsLateResponses = true)
    (hresponse : ∀ a, item = .response a → a ∈ sent ∧ a.response.id = id ∧
      a.serial < s.arrived ∧ ∀ c b, (s.calls c).Has b → b.serial ≠ a.serial) :
    Flushed sent s s' := by
  rcases flushOne_spec hs h with rfl | ⟨c, hpending, hawaiting, rfl⟩
  · exact Flushed.none sent hs
  obtain ⟨hactive, hid, -⟩ := hs.owner id c hpending
  refine ⟨?_, ?_, rfl, rfl, rfl, rfl, fun d => phase_enqueue s c d item, fun d a ha => ?_⟩
  · refine core_enqueue hs (Phase.entered_of_active hactive) (hs.kept.withdraw hst)
      (fun hfatal => (hs.covered hfatal).withdraw hst) (fun i e hi => ?_) (fun e he => he) ?_
    · obtain ⟨hne, hold⟩ := pending_of_withdraw hi
      refine ⟨hold, fun hec => absurd ?_ hne⟩
      rw [(hs.owner i e hold).2.1, hid, hec]
    · intro a ha
      obtain ⟨-, hown, hbefore, hapart⟩ := hresponse a ha
      exact ⟨hown.trans hid, hbefore, hapart⟩
  · refine frame_enqueue (fun i e hi => (pending_of_withdraw hi).2) (fun i hi => ?_)
      (fun i hi => awaiting_of_withdraw hst hi) (fun a o _ hdone => ?_)
    · rcases known_of_withdraw hst hi with heq | hi
      · subst heq
        exact mem_of_lookup hawaiting
      · exact hi
    · rw [hdone] at hactive
      cases hactive
  · rcases has_enqueue.mp ha with ha | ⟨-, hitem⟩
    · exact .inl ha
    · exact .inr (hresponse a hitem).1

theorem flushed_trans {sent' : List (Arrival β)} (h : Flushed sent s s') (h' : Flushed sent' s' s'') :
    Flushed (sent ++ sent') s s'' where
  core := h'.core
  frame := h.frame.trans h'.frame
  deferred := h'.deferred.trans h.deferred
  fatalState := h'.fatalState.trans h.fatalState
  reader := h'.reader.trans h.reader
  arrived := h'.arrived.trans h.arrived
  phase := fun c => (h'.phase c).trans (h.phase c)
  has := fun c a ha => by
    rcases h'.has c a ha with ha | ha
    · rcases h.has c a ha with ha | ha
      · exact .inl ha
      · exact .inr (List.mem_append_left _ ha)
    · exact .inr (List.mem_append_right _ ha)

/-- What the two loops of a flush do, wherever they break off. -/
theorem flushEntries_spec (entries : List (Bool × Sigma fun _ : JsonRpcId => Arrival β))
    (hs : Core s) (hentries : ∀ x ∈ entries, x.2.2.response.id = x.2.1 ∧ x.2.2.serial < s.arrived ∧
      ∀ c a, (s.calls c).Has a → a.serial ≠ x.2.2.serial)
    (hdistinct : entries.Pairwise fun x y => x.2.2.serial ≠ y.2.2.serial) :
    Flushed (entries.map (·.2.2)) s (Transport.flushEntries entries s).1 := by
  induction entries generalizing s with
  | nil => exact Flushed.none _ hs
  | cons x rest ih =>
    obtain ⟨released, entry⟩ := x
    obtain ⟨hfirst, hrest⟩ := List.pairwise_cons.mp hdistinct
    obtain ⟨hid, hbefore, hapart⟩ := hentries _ List.mem_cons_self
    unfold Transport.flushEntries
    cases hentry : s.flushEntry released entry with
    | error why => exact Flushed.none _ hs
    | ok m =>
      have hone : Flushed [entry.2] s m := by
        cases released with
        | true =>
          refine flushed_one hs hentry (.inl rfl) fun a ha => ?_
          cases ha
          exact ⟨List.mem_singleton.mpr rfl, hid, hbefore, hapart⟩
        | false => exact flushed_one hs hentry (.inr rfl) fun a ha => by cases ha
      refine flushed_trans hone (ih hone.core (fun y hy => ?_) hrest)
      obtain ⟨hid', hbefore', hapart'⟩ := hentries y (List.mem_cons_of_mem _ hy)
      refine ⟨hid', hone.arrived.symm ▸ hbefore', fun c a ha => ?_⟩
      rcases hone.has c a ha with ha | ha
      · exact hapart' c a ha
      · rw [List.mem_singleton.mp ha]
        exact hfirst y hy

theorem foldl_erase {ν : Type} (dropped : List (Sigma fun _ : JsonRpcId => ν))
    (d : Dict JsonRpcId ν) :
    (dropped.foldl (fun d entry => d.erase entry.1) d).entries.Sublist d.entries ∧
      ∀ entry ∈ dropped, entry.1 ∉ dropped.foldl (fun d entry => d.erase entry.1) d := by
  induction dropped generalizing d with
  | nil => exact ⟨List.Sublist.refl _, fun _ h => by cases h⟩
  | cons first rest ih =>
    obtain ⟨hsub, hnot⟩ := ih (d.erase first.1)
    refine ⟨hsub.trans (List.kerase_sublist first.1 d.entries), fun entry hentry hmem => ?_⟩
    rcases List.mem_cons.mp hentry with rfl | hentry
    · have hmem' := (hsub.map Sigma.fst).subset (AList.mem_keys.mp hmem)
      exact (AList.mem_erase.mp (AList.mem_keys.mpr hmem')).1 rfl
    · exact hnot entry hentry hmem

/-- What holds of a transport in a run. -/
structure Sound (s : Transport β) : Prop where
  core : Core s
  heldBack : HeldBack s
  apart : ¬ Doomed s → Apart s

theorem HeldBack.sublist (h : HeldBack s) (harrived : s'.arrived = s.arrived)
    (hsub : s'.deferred.entries.Sublist s.deferred.entries) : HeldBack s' where
  own := fun e he => h.own e (hsub.subset he)
  before := fun e he => harrived ▸ h.before e (hsub.subset he)
  once := h.once.sublist hsub

/-- What the reader's look at the deferred responses can do. -/
structure Released (s s' : Transport β) : Prop where
  sound : Sound s'
  frame : Frame s s'
  fatalState : s'.fatalState = s.fatalState
  arrived : s'.arrived = s.arrived
  deferred : s'.deferred.entries.Sublist s.deferred.entries
  phase : ∀ c, (s'.calls c).phase = (s.calls c).phase
  has : ∀ c a, (s'.calls c).Has a → (s.calls c).Has a ∨ ∃ e ∈ s.deferred.entries, e.2 = a

theorem HeldBack.serial_ne (h : HeldBack s) {e e' : Sigma fun _ : JsonRpcId => Arrival β}
    (he : e ∈ s.deferred.entries) (he' : e' ∈ s.deferred.entries) (hne : e ≠ e') :
    e.2.serial ≠ e'.2.serial := by
  have hsymm : Std.Symm fun e e' : Sigma fun _ : JsonRpcId => Arrival β =>
      e.2.serial ≠ e'.2.serial := ⟨fun _ _ h => h.symm⟩
  exact h.once.forall he he' hne

theorem selected_spec (hs : HeldBack s) {late : List JsonRpcId} {quiet : Bool}
    {expiring releasable : List (Sigma fun _ : JsonRpcId => Arrival β)}
    (hexpiring : s.deferred.entries.reverse.filter (fun entry => entry.1 ∈ late) = expiring)
    (hreleasable : (if quiet = true then
      s.deferred.entries.reverse.filter (fun entry => entry.1 ∉ late) else []) = releasable) :
    (∀ e ∈ expiring ++ releasable, e ∈ s.deferred.entries) ∧
      (expiring ++ releasable).Pairwise fun e e' => e.2.serial ≠ e'.2.serial := by
  have hexp : ∀ e ∈ expiring, e ∈ s.deferred.entries ∧ e.1 ∈ late := by
    intro e he
    rw [← hexpiring, List.mem_filter, List.mem_reverse] at he
    exact ⟨he.1, of_decide_eq_true he.2⟩
  have hrel : ∀ e ∈ releasable, e ∈ s.deferred.entries ∧ e.1 ∉ late := by
    intro e he
    rw [← hreleasable] at he
    split at he
    · rw [List.mem_filter, List.mem_reverse] at he
      exact ⟨he.1, of_decide_eq_true he.2⟩
    · cases he
  have hreverse : s.deferred.entries.reverse.Pairwise fun e e' => e.2.serial ≠ e'.2.serial := by
    rw [List.pairwise_reverse]
    exact hs.once.imp fun h => h.symm
  refine ⟨fun e he => ?_, List.pairwise_append.mpr ⟨?_, ?_, fun e he e' he' => ?_⟩⟩
  · rcases List.mem_append.mp he with he | he
    · exact (hexp e he).1
    · exact (hrel e he).1
  · rw [← hexpiring]
    exact hreverse.sublist List.filter_sublist
  · rw [← hreleasable]
    split
    · exact hreverse.sublist List.filter_sublist
    · exact List.Pairwise.nil
  · obtain ⟨hmem, hin⟩ := hexp e he
    obtain ⟨hmem', hout⟩ := hrel e' he'
    refine hs.serial_ne hmem hmem' ?_
    rintro rfl
    exact hout hin

/-- **A flush releases responses that were held back, each to the call it is for.** -/
theorem flush_spec (hs : Sound s) (hidle : s.reader = .idle) (late : List JsonRpcId)
    (quiet : Bool) : Released s (s.flushDeferredResponses late quiet) := by
  unfold Transport.flushDeferredResponses
  have hnotified : s.reader.notified = [] := by
    rw [hidle]
    rfl
  by_cases hstop : s.deferred.entries = [] ∨ s.fatalState.isSome = true
  · rw [if_pos hstop]
    refine ⟨⟨core_of_same hs.core rfl rfl rfl le_rfl hnotified, ?_, fun _ e he => ?_⟩,
      Frame.of_same rfl rfl, rfl, rfl, List.nil_sublist _, fun _ => rfl, fun _ _ ha => .inl ha⟩
    · exact hs.heldBack.sublist rfl (List.nil_sublist _)
    · cases he
  rw [if_neg hstop]
  dsimp only
  have halive : ¬ Doomed s := by
    rintro (hdoomed | ⟨why, hwhy⟩)
    · exact hstop (.inr hdoomed)
    · rw [hidle] at hwhy
      cases hwhy
  have hapart := hs.apart halive
  generalize hexpiring : s.deferred.entries.reverse.filter (fun entry => entry.1 ∈ late) = expiring
  generalize hreleasable : (if quiet = true then
    s.deferred.entries.reverse.filter (fun entry => entry.1 ∉ late) else []) = releasable
  obtain ⟨hsubset, hdistinct⟩ := selected_spec hs.heldBack hexpiring hreleasable
  generalize hentries : expiring.map (false, ·) ++ releasable.map (true, ·) = entries
  have hvalues : entries.map (·.2) = expiring ++ releasable := by
    rw [← hentries, List.map_append, List.map_map, List.map_map]
    exact congrArg₂ _ (List.map_id _) (List.map_id _)
  have hflushed := flushEntries_spec entries hs.core (fun x hx => ?_) ?_
  · have hhas : ∀ c a, ((Transport.flushEntries entries s).1.calls c).Has a →
        (s.calls c).Has a ∨ ∃ e ∈ expiring ++ releasable, e.2 = a := by
      intro c a ha
      refine (hflushed.has c a ha).imp_right fun ha => ?_
      rw [← hvalues]
      obtain ⟨x, hx, rfl⟩ := List.mem_map.mp ha
      exact ⟨x.2, List.mem_map_of_mem hx, rfl⟩
    have hhas' : ∀ c a, ((Transport.flushEntries entries s).1.calls c).Has a →
        (s.calls c).Has a ∨ ∃ e ∈ s.deferred.entries, e.2 = a := by
      intro c a ha
      refine (hhas c a ha).imp_right fun ⟨e, he, heq⟩ => ⟨e, hsubset e he, heq⟩
    split
    · rename_i m why hm
      rw [hm] at hflushed hhas'
      refine ⟨⟨core_of_same hflushed.core rfl rfl rfl le_rfl rfl, ?_, fun hnot => ?_⟩,
        hflushed.frame.trans (Frame.of_same rfl rfl), hflushed.fatalState, hflushed.arrived, ?_,
        hflushed.phase, hhas'⟩
      · exact hs.heldBack.sublist hflushed.arrived (by rw [hflushed.deferred])
      · exact absurd (.inr ⟨why, rfl⟩) hnot
      · rw [hflushed.deferred]
    · rename_i m hm
      rw [hm] at hflushed hhas hhas'
      obtain ⟨hfold, hgone⟩ := foldl_erase (expiring ++ releasable) m.deferred
      have hsub := hfold.trans (by rw [hflushed.deferred] : m.deferred.entries.Sublist _)
      have hnotified' : m.reader.notified = [] := by
        rw [hflushed.reader]
        exact hnotified
      refine ⟨⟨core_of_same hflushed.core rfl rfl rfl le_rfl hnotified', ?_, ?_⟩,
        hflushed.frame.trans (Frame.of_same rfl rfl), hflushed.fatalState, hflushed.arrived, hsub,
        hflushed.phase, hhas'⟩
      · exact hs.heldBack.sublist hflushed.arrived hsub
      · -- what is still held back was not among the entries the flush went through
        intro _ e he c a ha
        rcases hhas c a ha with ha | ⟨e', he', rfl⟩
        · exact hapart e (hsub.subset he) c a ha
        · refine hs.heldBack.serial_ne (hsubset e' he') (hsub.subset he) ?_
          rintro rfl
          exact hgone e' he' (AList.mem_keys.mpr (List.mem_keys_of_mem he))
  · have hmem : x.2 ∈ expiring ++ releasable := by
      rw [← hvalues]
      exact List.mem_map_of_mem hx
    have hold := hsubset x.2 hmem
    exact ⟨hs.heldBack.own _ hold, hs.heldBack.before _ hold, hapart _ hold⟩
  · rwa [← hvalues, List.pairwise_map] at hdistinct

/-! ### Every step -/

/-- What a step that is not a registration does: what was fatal stays so, and a call has no
response but what the reader held back. -/
structure Goes (s s' : Transport β) : Prop where
  sound : Sound s'
  frame : Frame s s'
  fatal : ∀ why, s.fatalState = some why → s'.fatalState = some why
  doomed : Doomed s → Doomed s'
  has : ∀ c a, (s'.calls c).Has a → (s.calls c).Has a ∨ ∃ e ∈ s.deferred.entries, e.2 = a

theorem goes_moved (hs : Sound s) (h : Moved s c s') : Goes s s' := by
  obtain ⟨hdeferred, hfatal, hreader, harrived⟩ := h.same
  have hdoomed : Doomed s' ↔ Doomed s := by
    unfold Doomed
    rw [hfatal, hreader]
  refine ⟨⟨h.core hs.core, hs.heldBack.sublist harrived (by rw [hdeferred]), fun hnot => ?_⟩,
    h.frame, fun why hwhy => hfatal.trans hwhy, hdoomed.mpr, fun d a ha => .inl (h.has ha)⟩
  intro e he d a ha
  rw [hdeferred] at he
  exact hs.apart (fun hd => hnot (hdoomed.mpr hd)) e he d a (h.has ha)

theorem goes_handle (hs : Sound s) (hidle : s.reader = .idle) (message : JsonRpcResponse β) :
    Goes s (s.handleResponseMessage message) := by
  obtain ⟨hcore, hframe⟩ := core_handle hs.core hidle message
  have hlate : ∀ s' : Transport β, s'.calls = s.calls → s'.deferred = s.deferred →
      s'.arrived = s.arrived + 1 → HeldBack s' ∧ (Apart s → Apart s') := by
    intro s' hcalls hdeferred harrived
    refine ⟨⟨fun e he => ?_, fun e he => ?_, ?_⟩, fun hapart e he c a ha => ?_⟩
    · exact hs.heldBack.own e (hdeferred ▸ he)
    · rw [harrived]
      exact Nat.lt_succ_of_lt (hs.heldBack.before e (hdeferred ▸ he))
    · exact hdeferred ▸ hs.heldBack.once
    · exact hapart e (hdeferred ▸ he) c a (hcalls ▸ ha)
  rcases handle_spec hs.core message with ⟨-, -, heq⟩ | ⟨-, why, heq⟩ | ⟨hnew, -, c, -, heq⟩
  · rw [heq] at hcore hframe ⊢
    obtain ⟨hheld, hapart⟩ := hlate { s with arrived := s.arrived + 1 } rfl rfl rfl
    exact ⟨⟨hcore, hheld, fun hnot => hapart (hs.apart hnot)⟩, hframe, fun _ h => h, id,
      fun _ _ ha => .inl ha⟩
  · rw [heq] at hcore hframe ⊢
    obtain ⟨hheld, -⟩ := hlate { s with arrived := s.arrived + 1, reader := .declaring why }
      rfl rfl rfl
    exact ⟨⟨hcore, hheld, fun hnot => absurd (.inr ⟨why, rfl⟩) hnot⟩, hframe, fun _ h => h,
      fun _ => .inr ⟨why, rfl⟩, fun _ _ ha => .inl ha⟩
  · rw [heq] at hcore hframe ⊢
    have hentries : (s.deferred.insert message.id ⟨s.arrived, message⟩).entries =
        ⟨message.id, ⟨s.arrived, message⟩⟩ :: s.deferred.entries :=
      AList.entries_insert_of_notMem hnew
    have hhas : ∀ d a, ((s.enqueue c .observed).calls d).Has a → (s.calls d).Has a := by
      intro d a ha
      rcases has_enqueue.mp ha with ha | ⟨-, hitem⟩
      · exact ha
      · cases hitem
    refine ⟨⟨hcore, ⟨fun e he => ?_, fun e he => ?_, ?_⟩, fun hnot e he d a ha => ?_⟩, hframe,
      fun _ h => h, id, fun d a ha => .inl (hhas d a ha)⟩
    · rcases List.mem_cons.mp (hentries ▸ he) with rfl | he
      · rfl
      · exact hs.heldBack.own e he
    · rcases List.mem_cons.mp (hentries ▸ he) with rfl | he
      · exact Nat.lt_succ_self _
      · exact Nat.lt_succ_of_lt (hs.heldBack.before e he)
    · refine hentries ▸ List.pairwise_cons.mpr ⟨fun e he => ?_, hs.heldBack.once⟩
      exact Nat.ne_of_gt (hs.heldBack.before e he)
    · have hold := hhas d a ha
      rcases List.mem_cons.mp (hentries ▸ he) with rfl | he
      · exact Nat.ne_of_lt (hs.core.before d a hold)
      · exact hs.apart hnot e he d a hold

theorem goes_flush (hs : Sound s) (hidle : s.reader = .idle) (late : List JsonRpcId)
    (quiet : Bool) : Goes s (s.flushDeferredResponses late quiet) := by
  have h := flush_spec hs hidle late quiet
  refine ⟨h.sound, h.frame, fun why hwhy => h.fatalState.trans hwhy, ?_, h.has⟩
  rintro (hfatal | ⟨why, hwhy⟩)
  · exact .inl (h.fatalState ▸ hfatal)
  · rw [hidle] at hwhy
    cases hwhy

theorem goes_fail (hs : Sound s) (message : String) :
    Goes s { s with reader := .declaring (.failed message) } where
  sound := ⟨core_of_same hs.core rfl rfl rfl le_rfl rfl,
    hs.heldBack.sublist rfl (List.Sublist.refl _), fun hnot => absurd (.inr ⟨_, rfl⟩) hnot⟩
  frame := Frame.of_same rfl rfl
  fatal := fun _ h => h
  doomed := fun _ => .inr ⟨_, rfl⟩
  has := fun _ _ ha => .inl ha

theorem core_declare (hs : Core s) (why : FatalState) : Core { s with
      fatalState := some why
      requests := { s.requests with pending := ∅ }
      reader := .notifying (s.requests.pending.entries.map (·.2)) } where
  kept := ⟨hs.kept.short, hs.kept.retained, hs.kept.stored,
    fun i hi => absurd hi (AList.notMem_empty i)⟩
  covered := fun hnot => by cases hnot
  fresh := fun c hc => by
    refine ⟨(hs.fresh c hc).1, fun hmem => ?_⟩
    obtain ⟨entry, hentry, heq⟩ := List.mem_map.mp hmem
    have hactive := (hs.owner entry.1 c (heq ▸ AList.mem_lookup_iff.mpr hentry)).1
    have hentered := Phase.entered_of_active hactive
    rw [show (s.calls c).phase.entered = false from hc] at hentered
    cases hentered
  owner := fun i c hi => absurd (mem_of_lookup hi) (AList.notMem_empty i)
  own := hs.own
  before := hs.before
  once := hs.once

theorem goes_declare (hs : Sound s) (why : FatalState) : Goes s (s.setFatalError why) := by
  unfold Transport.setFatalError
  by_cases hfatal : s.fatalState.isSome = true
  · rw [if_pos hfatal]
    exact ⟨⟨core_of_same hs.core rfl rfl rfl le_rfl rfl,
      hs.heldBack.sublist rfl (List.Sublist.refl _), fun hnot => absurd (.inl hfatal) hnot⟩,
      Frame.of_same rfl rfl, fun _ h => h, fun _ => .inl hfatal, fun _ _ ha => .inl ha⟩
  · rw [if_neg hfatal]
    refine ⟨⟨core_declare hs.core why, hs.heldBack.sublist rfl (List.Sublist.refl _),
      fun hnot => absurd (.inl rfl) hnot⟩, ⟨fun i c hi => ?_, fun i hi => .inl hi,
      fun i hi => hi, fun c hc => ⟨hc, rfl⟩, fun c o hc => ⟨hc, rfl, fun _ ha => ha⟩⟩, ?_,
      fun _ => .inl rfl, fun _ _ ha => .inl ha⟩
    · exact absurd (mem_of_lookup hi) (AList.notMem_empty i)
    · intro w hw
      rw [hw] at hfatal
      exact absurd rfl hfatal

theorem goes_notify (hs : Sound s) {rest : List Nat} (hreader : s.reader = .notifying (c :: rest)) :
    Goes s { s.enqueue c .fatal with reader := .notifying rest } := by
  have hnotified : s.reader.notified = c :: rest := by
    rw [hreader]
    rfl
  have hentered : (s.calls c).phase.entered = true := by
    refine Bool.not_eq_false _ |>.mp fun hnot => (hs.core.fresh c hnot).2 ?_
    rw [hnotified]
    exact List.mem_cons_self
  have hhas : ∀ d a, ((s.enqueue c .fatal).calls d).Has a → (s.calls d).Has a := by
    intro d a ha
    rcases has_enqueue.mp ha with ha | ⟨-, hitem⟩
    · exact ha
    · cases hitem
  have hcore : Core { s.enqueue c .fatal with reader := .notifying rest } := by
    refine core_enqueue hs.core hentered hs.core.kept hs.core.covered (fun i e hi => ⟨hi, ?_⟩)
      (fun e he => ?_) (fun a ha => by cases ha)
    · rintro rfl
      refine absurd ?_ (hs.core.owner i e hi).2.2.2
      rw [hnotified]
      exact List.mem_cons_self
    · rw [hnotified]
      exact List.mem_cons_of_mem _ he
  refine ⟨⟨hcore, hs.heldBack.sublist rfl (List.Sublist.refl _), fun hnot e he d a ha => ?_⟩,
    @frame_enqueue β s c .fatal _ _ _ _ (fun i e hi => hi) (fun i hi => hi) (fun i hi => hi)
      (fun a o ha => by cases ha), fun _ h => h, ?_, fun d a ha => .inl (hhas d a ha)⟩
  · refine hs.apart (fun hd => hnot ?_) e he d a (hhas d a ha)
    rcases hd with hfatal | ⟨why, hwhy⟩
    · exact .inl hfatal
    · rw [hreader] at hwhy
      cases hwhy
  · rintro (hfatal | ⟨why, hwhy⟩)
    · exact .inl hfatal
    · rw [hreader] at hwhy
      cases hwhy

/-- **Every step but a registration.** -/
theorem step_goes {e : Event β} (hs : Sound s) (h : Step s e s')
    (he : ∀ c id, e ≠ .register c id) : Goes s s' := by
  unfold Step exec at h
  cases e with
  | register c id => exact absurd rfl (he c id)
  | move c m =>
    dsimp only at h
    split at h
    · cases h
    · rename_i hm
      exact goes_moved hs (move_spec h hm hs.core)
  | receive message =>
    dsimp only at h
    split at h
    · rename_i hidle
      cases h
      exact goes_handle hs hidle message
    · cases h
  | flush late quiet =>
    dsimp only at h
    split at h
    · rename_i hidle
      cases h
      exact goes_flush hs hidle late quiet
    · cases h
  | fail message =>
    dsimp only at h
    split at h
    · cases h
      exact goes_fail hs message
    · cases h
  | declare =>
    dsimp only at h
    split at h
    · cases h
      exact goes_declare hs _
    · cases h
  | notify =>
    dsimp only at h
    split at h
    · rename_i hreader
      cases h
      exact goes_notify hs hreader
    · rename_i hreader
      cases h
      refine ⟨⟨core_of_same hs.core rfl rfl rfl le_rfl rfl,
        hs.heldBack.sublist rfl (List.Sublist.refl _), fun hnot => ?_⟩, Frame.of_same rfl rfl,
        fun _ h => h, ?_, fun _ _ ha => .inl ha⟩
      · refine hs.apart fun hd => hnot (hd.imp_right fun ⟨why, hwhy⟩ => ?_)
        rw [hreader] at hwhy
        cases hwhy
      · rintro (hfatal | ⟨why, hwhy⟩)
        · exact .inl hfatal
        · rw [hreader] at hwhy
          cases hwhy
    · cases h

/-- **A registration**, which adds a request and touches no other call. -/
theorem step_register {id : Int} (hs : Sound s) (h : Step s (.register c id) s') :
    Sound s' ∧ (s.calls c).phase = .named ∧ (s.calls c).requestId = id ∧ s' = { s with requests :=
        { s.requests with
          pending := s.requests.pending.insert (.int id) c
          states := s.requests.states.insert (.int id) .awaitingResponse } }.put c
        { s.calls c with phase := .sending } ∧
      ∀ d a, (s'.calls d).Has a → (s.calls d).Has a := by
  unfold Step exec at h
  dsimp only at h
  split at h
  · rename_i hid
    have hcore := core_register h hs.core
    obtain ⟨hphase, heq⟩ := register_spec h
    rw [hid] at heq
    have hhas : ∀ d a, (s'.calls d).Has a → (s.calls d).Has a := by
      intro d a ha
      rw [heq, calls_put] at ha
      by_cases hd : d = c
      · rw [if_pos hd] at ha
        rcases ha with ha | ha | ha
        · exact hd ▸ Or.inl ha
        · cases ha
        · cases ha
      · rwa [if_neg hd] at ha
    have hdeferred : s'.deferred = s.deferred := by
      rw [heq]
      rfl
    refine ⟨⟨hcore, ?_, fun hnot e he d a ha => ?_⟩, hphase, hid, heq, hhas⟩
    · refine hs.heldBack.sublist ?_ (by rw [hdeferred])
      rw [heq]
      rfl
    · rw [hdeferred] at he
      refine hs.apart (fun hd => hnot ?_) e he d a (hhas d a ha)
      rw [heq]
      exact hd
  · cases h

theorem sound_start : Sound (Transport.start : Transport β) where
  core := {
    kept := kept_empty
    covered := fun _ i hi => by
      rcases hi with hi | hi
      · cases hi
      · cases hi
    fresh := fun _ _ => ⟨rfl, List.not_mem_nil⟩
    owner := fun i c hi => by cases hi
    own := fun c a ha => by
      rcases ha with ha | ha | ha
      · cases ha
      · cases ha
      · cases ha
    before := fun c a ha => by
      rcases ha with ha | ha | ha
      · cases ha
      · cases ha
      · cases ha
    once := fun c c' a a' ha => by
      rcases ha with ha | ha | ha
      · cases ha
      · cases ha
      · cases ha }
  heldBack := {
    own := fun e he => by cases he
    before := fun e he => by cases he
    once := List.Pairwise.nil }
  apart := fun _ e he => by cases he

end AlysisCode.Mcp.Stdio
