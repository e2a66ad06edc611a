/-
No event that was accepted gets lost without being counted.

Beside the transport a run keeps which of the accepted events are where, by their places in the
order of arrival, and what the readers were given.  The events of a session reach their readers
in that order, with one exception: a guarded navigation takes a lifecycle event ahead of the
older events of its page that are none.
-/
import AlysisCode.Cdp.Buffer

namespace AlysisCode.Cdp

open EventBuffer

variable {F : Type}

structure Delivery where
  /-- Its place among the accepted events. -/
  index : Nat
  session : String
  /-- The reader is a guarded navigation. -/
  guarded : Bool
  deriving DecidableEq

structure History (F : Type) where
  accepted : List (QueuedEvent F) := []
  pending : List Nat := []
  lost : List Nat := []
  delivered : List Delivery := []
  /-- What the readers were given. -/
  handed : List (QueuedEvent F) := []
  /-- The numbers of dropped events that drains reported. -/
  reported : List Nat := []

namespace History

def eventAt (h : History F) (i : Nat) : QueuedEvent F := h.accepted.getD i ⟨[], 0, none⟩

def arrive (limits : Limits) (b : EventBuffer F) (queued : QueuedEvent F) (h : History F) :
    History F :=
  let evicted := b.events.length - (b.makeRoom limits queued.sizeBytes).events.length
  let place := [h.accepted.length]
  let oversized := limits.maxEventBytes < queued.sizeBytes
  { h with
    accepted := h.accepted ++ [queued]
    pending := h.pending.drop evicted ++ if oversized then [] else place
    lost := h.lost ++ (h.pending.take evicted ++ if oversized then place else []) }

/-- The first `room` pending events with `p` go to a reader. -/
def deliver (session : String) (guarded : Bool) (p : QueuedEvent F → Bool) (room : Nat)
    (h : History F) : History F :=
  let split := Queue.takeWhere (p ∘ h.eventAt) room h.pending
  { h with
    pending := split.2
    delivered := h.delivered ++ split.1.map fun i => ⟨i, session, guarded⟩ }

def drain (session : String) (maxEvents : Nat) (found : Drained F) (h : History F) : History F :=
  let room := maxEvents - found.report.toList.length
  { h.deliver session false (ofSession session) room with
    handed := h.handed ++ found.events
    reported := h.reported ++ found.report.toList }

def navigate (session : String) (event : Option (QueuedEvent F)) (h : History F) : History F :=
  { h.deliver session true (fun item => ofSession session item && wanted item) 1 with
    handed := h.handed ++ event.toList }

/-- A delivery does not overtake the event at `i`, unless a navigation took it and the event is
none that navigations take. -/
def Before (h : History F) (d : Delivery) (i : Nat) : Prop :=
  d.index < i ∨ (d.guarded = true ∧ wanted (h.eventAt i) = false)

end History

inductive Run (limits : Limits) : Transport F → History F → Prop where
  | start : Run limits { limits := limits } {}
  | route {t t' : Transport F} {h : History F} {payload : Payload F} {sizeBytes : Nat}
    {accepted : Option (QueuedEvent F)} (run : Run limits t h)
    (routed : t.routeMessage payload sizeBytes = .ok (t', accepted)) :
    Run limits t' (accepted.elim h fun queued => h.arrive limits t.buffer queued)
  | drain {t : Transport F} {h : History F} (session : String) (maxEvents : Nat)
    (run : Run limits t h) :
    Run limits { t with buffer := (t.buffer.drain session maxEvents).1 }
      (h.drain session maxEvents (t.buffer.drain session maxEvents).2)
  | navigate {t : Transport F} {h : History F} (session : String) (run : Run limits t h) :
    Run limits { t with buffer := (t.buffer.takeNavigationEvent session).1 }
      (h.navigate session (t.buffer.takeNavigationEvent session).2)
  /-- Commands, policies, the interceptor. -/
  | elsewhere {t t' : Transport F} {h : History F} (run : Run limits t h)
    (hlimits : t'.limits = t.limits) (hbuffer : t'.buffer = t.buffer) : Run limits t' h

/-- The numbers of a buffer agree with its events and keep to the bounds. -/
structure EventBuffer.Sound (limits : Limits) (b : EventBuffer F) : Prop where
  bytes : b.eventBytes = ((b.events.map QueuedEvent.sizeBytes).sum : Nat)
  count_le : b.events.length ≤ limits.maxEventCount
  bytes_le : b.eventBytes ≤ limits.maxEventBytes

/-- What holds of a transport and of the events of its run. -/
structure Conserved (limits : Limits) (t : Transport F) (h : History F) : Prop where
  buffer : t.buffer.Sound limits
  queued : t.buffer.events = h.pending.map h.eventAt
  /-- Every event that was accepted is in one place. -/
  accounted : (h.delivered.map Delivery.index ++ h.pending ++ h.lost).Perm
    (List.range h.accepted.length)
  counted : h.lost.length = h.reported.sum + t.buffer.droppedEvents
  handed : h.handed = h.delivered.map fun d => h.eventAt d.index
  own : ∀ d ∈ h.delivered, (h.eventAt d.index).sessionId = some d.session ∧
    (d.guarded = true → wanted (h.eventAt d.index) = true)
  ordered : h.delivered.Pairwise fun d e => d.session = e.session → h.Before d e.index
  sorted : h.pending.Pairwise (· < ·)
  ahead : ∀ d ∈ h.delivered, ∀ i ∈ h.pending,
    (h.eventAt i).sessionId = some d.session → h.Before d i

/-! ### Making room -/

namespace EventBuffer

open QueuedEvent (sizeBytes)

variable {limits : Limits}

/-- The loop throws out some of the oldest events, and counts them. -/
theorem makeRoomFrom_spec (size : Nat) (queue : List (QueuedEvent F)) :
    ∀ b : EventBuffer F, ∃ n, n ≤ queue.length ∧ makeRoomFrom limits size b queue =
        { events := queue.drop n
          eventBytes := b.eventBytes - ((queue.take n).map sizeBytes).sum
          droppedEvents := b.droppedEvents + n
          dropGeneration := b.dropGeneration + n } ∧
      (queue.drop n = [] ∨ ¬ (makeRoomFrom limits size b queue).Overfull limits size) := by
  induction queue with
  | nil =>
    intro b
    exact ⟨0, Nat.le_refl _, by simp [makeRoomFrom], .inl rfl⟩
  | cons removed rest ih =>
    intro b
    unfold makeRoomFrom
    by_cases hfull : { b with events := removed :: rest }.Overfull limits size
    · rw [if_pos hfull]
      obtain ⟨n, hn, heq, hstop⟩ := ih (b.evict removed rest)
      refine ⟨n + 1, Nat.succ_le_succ hn, ?_, hstop⟩
      rw [heq]
      simp only [evict, List.drop_succ_cons, List.take_succ_cons, List.map_cons, List.sum_cons,
        mk.injEq, true_and]
      refine ⟨?_, by omega, by omega⟩
      push_cast
      omega
    · rw [if_neg hfull]
      exact ⟨0, Nat.zero_le _, by simp, .inr hfull⟩

theorem sum_take_drop (queue : List (QueuedEvent F)) (n : Nat) :
    ((queue.take n).map sizeBytes).sum + ((queue.drop n).map sizeBytes).sum =
      (queue.map sizeBytes).sum := by
  rw [← List.sum_append, ← List.map_append, List.take_append_drop]

theorem makeRoom_spec {b : EventBuffer F} (hsound : b.Sound limits) (size : Nat) :
    ∃ n, n = b.events.length - (b.makeRoom limits size).events.length ∧
      (b.makeRoom limits size).events = b.events.drop n ∧
      (b.makeRoom limits size).droppedEvents = b.droppedEvents + n ∧
      n ≤ b.events.length ∧ (b.makeRoom limits size).Sound limits ∧
      ((b.makeRoom limits size).events = [] ∨ ¬ (b.makeRoom limits size).Overfull limits size) := by
  obtain ⟨n, hn, heq, hstop⟩ := @makeRoomFrom_spec F limits size b.events b
  have hroom : b.makeRoom limits size = _ := heq
  have hevents : (b.makeRoom limits size).events = b.events.drop n := congrArg events hroom
  have hbytes : (b.makeRoom limits size).eventBytes =
      b.eventBytes - (((b.events.take n).map sizeBytes).sum : Nat) := congrArg eventBytes hroom
  have hsum := sum_take_drop b.events n
  have hlength : (b.events.drop n).length = b.events.length - n := List.length_drop
  refine ⟨n, ?_, hevents, congrArg droppedEvents hroom, hn, ⟨?_, ?_, ?_⟩, ?_⟩
  · rw [hevents, hlength]
    omega
  · rw [hbytes, hevents, hsound.bytes]
    omega
  · rw [hevents, hlength]
    have hle := hsound.count_le
    omega
  · rw [hbytes]
    have hle := hsound.bytes_le
    omega
  · rw [hevents]
    exact hstop

theorem add_spec {b : EventBuffer F} (hsound : b.Sound limits) (queued : QueuedEvent F) :
    (b.add limits queued).Sound limits ∧
      ∃ n, n = b.events.length - (b.makeRoom limits queued.sizeBytes).events.length ∧
        n ≤ b.events.length ∧
        (b.add limits queued).events = b.events.drop n ++
          (if limits.maxEventBytes < queued.sizeBytes then [] else [queued]) ∧
        (b.add limits queued).droppedEvents = b.droppedEvents + n +
          (if limits.maxEventBytes < queued.sizeBytes then 1 else 0) := by
  obtain ⟨n, hn, hevents, hdropped, hle, hroom, hstop⟩ := makeRoom_spec hsound queued.sizeBytes
  by_cases hbig : limits.maxEventBytes < queued.sizeBytes
  · unfold add
    rw [if_pos hbig]
    refine ⟨⟨hroom.bytes, hroom.count_le, hroom.bytes_le⟩, n, hn, hle, ?_, ?_⟩
    · rw [if_pos hbig, List.append_nil]
      exact hevents
    · rw [if_pos hbig]
      show (b.makeRoom limits queued.sizeBytes).droppedEvents + 1 = _
      rw [hdropped]
  · unfold add
    rw [if_neg hbig]
    refine ⟨⟨?_, ?_, ?_⟩, n, hn, hle, ?_, ?_⟩
    · show (b.makeRoom limits queued.sizeBytes).eventBytes + _ = _
      rw [hroom.bytes, List.map_append, List.sum_append]
      simp
    · show ((b.makeRoom limits queued.sizeBytes).events ++ [queued]).length ≤ _
      rw [List.length_append, List.length_singleton]
      cases hstop with
      | inl hnone =>
        rw [hnone]
        exact limits.count_pos
      | inr hfits =>
        unfold Overfull at hfits
        omega
    · show (b.makeRoom limits queued.sizeBytes).eventBytes + _ ≤ _
      cases hstop with
      | inl hnone =>
        rw [hroom.bytes, hnone]
        simp only [List.map_nil, List.sum_nil]
        omega
      | inr hfits =>
        unfold Overfull at hfits
        omega
    · rw [if_neg hbig]
      show (b.makeRoom limits queued.sizeBytes).events ++ [queued] = _
      rw [hevents]
    · rw [if_neg hbig]
      exact hdropped

theorem Sound.taken {b b' : EventBuffer F} (hsound : b.Sound limits)
    (p : QueuedEvent F → Bool) (room : Nat)
    (hevents : b'.events = (Queue.takeWhere p room b.events).2)
    (hbytes : b'.eventBytes =
      b.eventBytes - (((Queue.takeWhere p room b.events).1.map sizeBytes).sum : Nat)) :
    b'.Sound limits := by
  have hperm := Queue.takeWhere_perm p room b.events
  have hsum := (hperm.map sizeBytes).sum_nat
  have hlength := hperm.length_eq
  rw [List.map_append, List.sum_append] at hsum
  rw [List.length_append] at hlength
  have hcount := hsound.count_le
  have hsmall := hsound.bytes_le
  refine ⟨?_, ?_, ?_⟩
  · rw [hbytes, hevents, hsound.bytes]
    omega
  · rw [hevents]
    omega
  · rw [hbytes]
    omega

theorem takeNavigationEvent_eq (session : String) (b : EventBuffer F) :
    b.takeNavigationEvent session =
      let split := Queue.takeWhere (fun item => ofSession session item && wanted item) 1 b.events
      ({ b with
          events := split.2
          eventBytes := b.eventBytes - (split.1.map sizeBytes).sum }, split.1.head?) := by
  have hlength := Queue.length_taken (fun item => ofSession session item && wanted item) 1 b.events
  have hnothing := @Queue.kept_of_nothing _ (fun item => ofSession session item && wanted item) 1
    b.events
  unfold takeNavigationEvent
  generalize Queue.takeWhere _ 1 b.events = split at hlength hnothing
  obtain ⟨taken, kept⟩ := split
  match taken with
  | [] =>
    obtain rfl : kept = b.events := hnothing rfl
    simp
  | [item] => simp
  | _ :: _ :: _ =>
    simp only [List.length_cons] at hlength
    omega

end EventBuffer

/-! ### One step -/

namespace Conserved

variable {limits : Limits} {t : Transport F} {h : History F}

theorem index_lt (hc : Conserved limits t h) {i : Nat}
    (hi : i ∈ h.delivered.map Delivery.index ++ h.pending ++ h.lost) :
    i < h.accepted.length :=
  List.mem_range.mp (hc.accounted.subset hi)

theorem delivered_lt (hc : Conserved limits t h) {d : Delivery} (hd : d ∈ h.delivered) :
    d.index < h.accepted.length :=
  hc.index_lt (List.mem_append_left _ (List.mem_append_left _ (List.mem_map_of_mem hd)))

theorem pending_lt (hc : Conserved limits t h) {i : Nat} (hi : i ∈ h.pending) :
    i < h.accepted.length :=
  hc.index_lt (List.mem_append_left _ (List.mem_append_right _ hi))

theorem elsewhere (hc : Conserved limits t h) {t' : Transport F}
    (hbuffer : t'.buffer = t.buffer) : Conserved limits t' h := by
  have hsound := hc.buffer
  have hqueued := hc.queued
  have hcounted := hc.counted
  rw [← hbuffer] at hsound hqueued hcounted
  exact { hc with buffer := hsound, queued := hqueued, counted := hcounted }

/-- A reader gets the first events with `p`. -/
theorem deliver (hc : Conserved limits t h) {session : String} {guarded : Bool}
    {p : QueuedEvent F → Bool} {room : Nat} {b : EventBuffer F} {reported : List Nat}
    (hp : ∀ item, p item = true →
      item.sessionId = some session ∧ (guarded = true → wanted item = true))
    (hleft : ∀ item, item.sessionId = some session → p item = false →
      guarded = true ∧ wanted item = false)
    (hevents : b.events = (Queue.takeWhere p room t.buffer.events).2)
    (hsound : b.Sound limits)
    (hreported : h.lost.length = reported.sum + b.droppedEvents) :
    Conserved limits { t with buffer := b } { h.deliver session guarded p room with
        handed := h.handed ++ (Queue.takeWhere p room t.buffer.events).1
        reported := reported } := by
  have hsplit := Queue.takeWhere_map h.eventAt p room h.pending
  have hperm := Queue.takeWhere_perm (p ∘ h.eventAt) room h.pending
  have hbehind {i j : Nat} := @Queue.taken_before _ (· < ·) (p ∘ h.eventAt) _ hc.sorted room i j
  have hgiven {i : Nat} (hi : i ∈ (Queue.takeWhere (p ∘ h.eventAt) room h.pending).1) :=
    hp (h.eventAt i) (@Queue.of_mem_taken _ (p ∘ h.eventAt) _ _ _ hi)
  have hmem {i : Nat} (hi : i ∈ (Queue.takeWhere (p ∘ h.eventAt) room h.pending).1) :=
    Queue.mem_of_taken hi
  have hkept {i : Nat} (hi : i ∈ (Queue.takeWhere (p ∘ h.eventAt) room h.pending).2) :=
    Queue.mem_of_kept hi
  have hfirst := Queue.taken_sublist (p ∘ h.eventAt) room h.pending
  have hrest := Queue.kept_sublist (p ∘ h.eventAt) room h.pending
  rw [← hc.queued] at hsplit
  rw [hsplit] at hevents ⊢
  generalize hpair : Queue.takeWhere (p ∘ h.eventAt) room h.pending = split at *
  obtain ⟨taken, kept⟩ := split
  have hindices : (taken.map fun i => (⟨i, session, guarded⟩ : Delivery)).map Delivery.index =
      taken := by
    rw [List.map_map]
    exact List.map_id _
  unfold History.deliver
  rw [hpair]
  refine ⟨hsound, hevents, ?_, hreported, ?_, ?_, ?_, hc.sorted.sublist hrest, ?_⟩
  · show ((h.delivered ++ taken.map _).map Delivery.index ++ kept ++ h.lost).Perm _
    rw [List.map_append, hindices, List.append_assoc _ taken kept]
    exact ((hperm.append_left _).append_right _).trans hc.accounted
  · show h.handed ++ taken.map h.eventAt = (h.delivered ++ taken.map _).map _
    rw [List.map_append, List.map_map, hc.handed]
    rfl
  · intro d hd
    rcases List.mem_append.mp hd with hd | hd
    · exact hc.own d hd
    · obtain ⟨i, hi, rfl⟩ := List.mem_map.mp hd
      exact hgiven hi
  · show (h.delivered ++ taken.map _).Pairwise _
    refine List.pairwise_append.mpr ⟨hc.ordered, ?_, ?_⟩
    · rw [List.pairwise_map]
      exact (hc.sorted.sublist hfirst).imp fun hlt _ => .inl hlt
    · intro d hd e he hsame
      obtain ⟨i, hi, rfl⟩ := List.mem_map.mp he
      refine hc.ahead d hd i (hmem hi) ?_
      rw [(hgiven hi).1, hsame]
  · intro d hd i hi hsession
    rcases List.mem_append.mp hd with hd | hd
    · exact hc.ahead d hd i (hkept hi) hsession
    · obtain ⟨j, hj, rfl⟩ := List.mem_map.mp hd
      by_cases hlook : p (h.eventAt i) = true
      · exact .inl (hbehind hj hi hlook)
      · exact .inr (hleft _ hsession (Bool.eq_false_of_not_eq_true hlook))

theorem drain (hc : Conserved limits t h) (session : String) (maxEvents : Nat) :
    Conserved limits { t with buffer := (t.buffer.drain session maxEvents).1 }
      (h.drain session maxEvents (t.buffer.drain session maxEvents).2) := by
  refine hc.deliver ?_ ?_ rfl ?_ ?_
  · intro item hitem
    exact ⟨of_decide_eq_true hitem, fun hfalse => Bool.noConfusion hfalse⟩
  · intro item hsession hitem
    exact absurd hsession (of_decide_eq_false hitem)
  · exact hc.buffer.taken (ofSession session) _ rfl rfl
  · -- what is reported is no longer to be reported
    have hcounted := hc.counted
    unfold EventBuffer.drain
    rw [List.sum_append]
    by_cases hreport : 0 < t.buffer.droppedEvents ∧ 0 < maxEvents
    · rw [if_pos hreport]
      simp only [Option.toList_some, List.sum_singleton, Option.isSome_some, if_true]
      omega
    · rw [if_neg hreport]
      simpa using hcounted

theorem navigate (hc : Conserved limits t h) (session : String) :
    Conserved limits { t with buffer := (t.buffer.takeNavigationEvent session).1 }
      (h.navigate session (t.buffer.takeNavigationEvent session).2) := by
  have hone := Queue.length_taken (fun item => ofSession session item && wanted item) 1
    t.buffer.events
  have hgiven : (t.buffer.takeNavigationEvent session).2.toList =
      (Queue.takeWhere (fun item => ofSession session item && wanted item) 1
        t.buffer.events).1 := by
    rw [takeNavigationEvent_eq]
    dsimp only
    generalize (Queue.takeWhere _ 1 t.buffer.events).1 = taken at hone
    match taken with
    | [] | [_] => rfl
    | _ :: _ :: _ =>
      simp only [List.length_cons] at hone
      omega
  unfold History.navigate
  rw [hgiven, takeNavigationEvent_eq]
  refine hc.deliver ?_ ?_ rfl ?_ hc.counted
  · intro item hitem
    obtain ⟨hsession, hwanted⟩ := (Bool.and_eq_true _ _).mp hitem
    exact ⟨of_decide_eq_true hsession, fun _ => hwanted⟩
  · intro item hsession hitem
    rcases (Bool.and_eq_false_iff).mp hitem with hother | hwanted
    · exact absurd hsession (of_decide_eq_false hother)
    · exact ⟨rfl, hwanted⟩
  · exact hc.buffer.taken _ 1 rfl rfl

theorem arrive (hc : Conserved limits t h) (queued : QueuedEvent F) {t' : Transport F}
    (hbuffer : t'.buffer = t.buffer.add limits queued) :
    Conserved limits t' (h.arrive limits t.buffer queued) := by
  obtain ⟨hsound, n, hn, hle, hevents, hdropped⟩ := add_spec hc.buffer queued
  rw [← hbuffer] at hsound hevents hdropped
  have hold {i : Nat} (hi : i < h.accepted.length) :
      (h.arrive limits t.buffer queued).eventAt i = h.eventAt i := by
    unfold History.eventAt History.arrive
    rw [List.getD_eq_getElem?_getD, List.getD_eq_getElem?_getD, List.getElem?_append_left hi]
  have hnew : (h.arrive limits t.buffer queued).eventAt h.accepted.length = queued := by
    unfold History.eventAt History.arrive
    rw [List.getD_eq_getElem?_getD, List.getElem?_concat_length]
    rfl
  have hbefore {d : Delivery} {i : Nat} (hi : i < h.accepted.length) (hd : h.Before d i) :
      (h.arrive limits t.buffer queued).Before d i := by
    unfold History.Before
    rw [hold hi]
    exact hd
  have hlength : t.buffer.events.length = h.pending.length := by
    rw [hc.queued, List.length_map]
  have hsplit := List.take_append_drop n h.pending
  have hdrop : (h.pending.drop n).map (h.arrive limits t.buffer queued).eventAt =
      t.buffer.events.drop n := by
    rw [hc.queued, ← List.map_drop]
    exact List.map_congr_left fun i hi => hold (hc.pending_lt (List.mem_of_mem_drop hi))
  have hpending : (h.arrive limits t.buffer queued).pending = h.pending.drop n ++
      if limits.maxEventBytes < queued.sizeBytes then [] else [h.accepted.length] := by
    rw [hn]
    rfl
  have hlost : (h.arrive limits t.buffer queued).lost = h.lost ++ (h.pending.take n ++
      if limits.maxEventBytes < queued.sizeBytes then [h.accepted.length] else []) := by
    rw [hn]
    rfl
  have hmem {i : Nat} (hi : i ∈ (h.arrive limits t.buffer queued).pending) :
      i ∈ h.pending ∨ i = h.accepted.length := by
    rw [hpending] at hi
    rcases List.mem_append.mp hi with hi | hi
    · exact .inl (List.mem_of_mem_drop hi)
    · right
      split at hi
      · cases hi
      · exact List.mem_singleton.mp hi
  refine ⟨hsound, ?_, ?_, ?_, ?_, ?_, ?_, ?_, ?_⟩
  · rw [hevents, hpending, List.map_append, hdrop]
    split
    · rfl
    · rw [List.map_singleton, hnew]
  · show (h.delivered.map Delivery.index ++ (h.arrive limits t.buffer queued).pending ++
      (h.arrive limits t.buffer queued).lost).Perm (List.range (h.accepted ++ [queued]).length)
    rw [hpending, hlost, List.length_append, List.length_singleton, List.range_succ]
    refine List.Perm.trans ?_ (hc.accounted.append_right _)
    rw [List.perm_iff_count]
    intro i
    have hcount : h.pending.count i = (h.pending.take n).count i + (h.pending.drop n).count i := by
      rw [← List.count_append, hsplit]
    split
    · simp only [List.count_append, List.count_nil, hcount]
      omega
    · simp only [List.count_append, List.count_nil, hcount]
      omega
  · show (h.arrive limits t.buffer queued).lost.length = h.reported.sum + t'.buffer.droppedEvents
    rw [hlost, hdropped, List.length_append, List.length_append, hc.counted, List.length_take]
    have hmin : min n h.pending.length = n := Nat.min_eq_left (hlength ▸ hle)
    split
    · rw [List.length_singleton]
      omega
    · rw [List.length_nil]
      omega
  · show h.handed = h.delivered.map fun d => (h.arrive limits t.buffer queued).eventAt d.index
    rw [hc.handed]
    exact List.map_congr_left fun d hd => (hold (hc.delivered_lt hd)).symm
  · intro d hd
    rw [hold (hc.delivered_lt hd)]
    exact hc.own d hd
  · refine hc.ordered.imp_of_mem fun {d e} _ he hde hsame => ?_
    exact hbefore (hc.delivered_lt he) (hde hsame)
  · rw [hpending]
    refine List.pairwise_append.mpr ⟨hc.sorted.sublist (List.drop_sublist _ _), ?_, ?_⟩
    · split
      · exact List.Pairwise.nil
      · exact List.pairwise_singleton _ _
    · intro i hi j hj
      have hlt := hc.pending_lt (List.mem_of_mem_drop hi)
      split at hj
      · cases hj
      · rw [List.mem_singleton.mp hj]
        exact hlt
  · intro d hd i hi hsession
    rcases hmem hi with hi | rfl
    · rw [hold (hc.pending_lt hi)] at hsession
      exact hbefore (hc.pending_lt hi) (hc.ahead d hd i hi hsession)
    · exact .inl (hc.delivered_lt hd)

end Conserved

theorem conserved_start (limits : Limits) :
    Conserved limits ({ limits := limits } : Transport F) {} where
  buffer := ⟨rfl, Nat.zero_le _, Int.natCast_nonneg _⟩
  queued := rfl
  accounted := List.Perm.nil
  counted := rfl
  handed := rfl
  own := by
    intro d hd
    cases hd
  ordered := List.Pairwise.nil
  sorted := List.Pairwise.nil
  ahead := by
    intro d hd
    cases hd

theorem limits_of_run {limits : Limits} {t : Transport F} {h : History F}
    (run : Run limits t h) : t.limits = limits := by
  induction run with
  | start => rfl
  | route _ routed ih => exact (Transport.buffer_of_routeMessage routed).1.trans ih
  | drain _ _ _ ih | navigate _ _ ih => exact ih
  | elsewhere _ hlimits _ ih => exact hlimits.trans ih

/-- **Events are conserved in every run.** -/
theorem events_conserved {limits : Limits} {t : Transport F} {h : History F}
    (run : Run limits t h) : Conserved limits t h := by
  induction run with
  | start => exact conserved_start limits
  | @route t t' h payload size accepted run routed ih =>
    have hbuffer := (Transport.buffer_of_routeMessage routed).2
    rw [limits_of_run run] at hbuffer
    cases accepted with
    | none => exact ih.elsewhere hbuffer
    | some queued => exact ih.arrive queued hbuffer
  | drain session maxEvents _ ih => exact ih.drain session maxEvents
  | navigate session _ ih => exact ih.navigate session
  | elsewhere _ _ hbuffer ih => exact ih.elsewhere hbuffer

/-! ### A lifecycle event behind another event -/

def limits512 : Limits where
  maxEventCount := 512
  maxEventBytes := maxEventBytesLimit
  count_pos := by decide
  count_le := by decide
  bytes_ge := by decide
  bytes_le := by decide

def pageEvent (method : String) : Payload Empty :=
  [("method", .str method), ("sessionId", .str "page")]

def pageQueued (method : String) : QueuedEvent Empty := ⟨pageEvent method, 64, some "page"⟩

theorem routeMessage_pageEvent {method : String} (hmethod : matchesMethod method = true)
    (hplain : interceptedMethods.contains method = false) (t : Transport Empty) :
    t.routeMessage (pageEvent method) 64 =
      .ok ({ t with buffer := t.buffer.add t.limits (pageQueued method) },
        some (pageQueued method)) := by
  have hsession : readSessionId (pageEvent method) = .ok (some "page") := by
    have hshort : "page".length ≤ maxSessionIdChars := by decide +kernel
    have hlookup : (pageEvent method).lookup "sessionId" = some (.str "page") := by
      simp [pageEvent, List.lookup_cons]
    unfold readSessionId
    rw [hlookup]
    simp [hshort]
  have hread : readMessage (pageEvent method) = .ok (.event method [] (some "page")) := by
    unfold readMessage
    rw [hsession]
    unfold pageEvent
    simp [List.lookup_cons, hmethod, bind, Except.bind, pure, Except.pure]
  have hguarded : t.guarded method [] (some "page") = false := by
    unfold Transport.guarded
    rw [hplain, Bool.false_and]
  unfold Transport.routeMessage
  rw [hread]
  simp only [bind, Except.bind, hguarded]
  rfl

/-- The buffer after an event of each kind. -/
def twoEvents : Transport Empty :=
  { limits := limits512
    buffer := (({} : EventBuffer Empty).add limits512 (pageQueued "Network.dataReceived")).add
      limits512 (pageQueued "Page.lifecycleEvent") }

def twoArrivals : History Empty :=
  (({} : History Empty).arrive limits512 {} (pageQueued "Network.dataReceived")).arrive limits512
    (({} : EventBuffer Empty).add limits512 (pageQueued "Network.dataReceived"))
    (pageQueued "Page.lifecycleEvent")

theorem run_twoEvents : Run limits512 twoEvents twoArrivals :=
  .route (.route .start (routeMessage_pageEvent (by decide +kernel) (by decide +kernel) _))
    (routeMessage_pageEvent (by decide +kernel) (by decide +kernel) _)

/-- The navigation takes the younger event, and a drain hands over the older one later. -/
theorem events_overtaken :
    ¬ ∀ (limits : Limits) (t : Transport Empty) (h : History Empty), Run limits t h →
      h.delivered.Pairwise fun d e => d.session = e.session → d.index < e.index := by
  intro hordered
  have hpair := hordered _ _ _ (.drain "page" 10 (.navigate "page" run_twoEvents))
  have hdelivered : ((twoArrivals.navigate "page"
      (twoEvents.buffer.takeNavigationEvent "page").2).drain "page" 10
      ((twoEvents.buffer.takeNavigationEvent "page").1.drain "page" 10).2).delivered =
      [⟨1, "page", true⟩, ⟨0, "page", false⟩] := by
    decide +kernel
  rw [hdelivered] at hpair
  have hlt := List.rel_of_pairwise_cons hpair List.mem_cons_self rfl
  exact absurd hlt (by decide)

theorem events_conserved_twoEvents : Conserved limits512 twoEvents twoArrivals :=
  events_conserved run_twoEvents

end AlysisCode.Cdp
