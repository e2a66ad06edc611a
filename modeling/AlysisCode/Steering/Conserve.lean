/-
No message of the user is lost on the way, and none overtakes another.

Beside the mailbox a run keeps which of the accepted messages were handed over, which are
pending and which were thrown out, by the order in which they were sent.  What is restored are
the messages that were handed over last.  A message is thrown out only where sixteen newer ones
stay, and they are there ever after; so nothing that is pending is older than what was thrown
out.
-/
import AlysisCode.Steering.Inbox

namespace AlysisCode.Steering

/-- Which messages of a run are where, by their places in `accepted`. -/
structure History where
  accepted : List String := []
  (handed pending lost : List Nat := [])

namespace History

def textAt (h : History) (i : Nat) : String := h.accepted.getD i ""

def put (h : History) (pending : List Nat) : History :=
  { h with pending := newest pending, lost := h.lost ++ evicted pending }

def send (h : History) (text : String) : History :=
  { h with accepted := h.accepted ++ [text] }.put (h.pending ++ [h.accepted.length])

def drain (h : History) : History := { h with handed := h.handed ++ h.pending, pending := [] }

/-- The messages that were handed over last. -/
def latest (h : History) (k : Nat) : List Nat := h.handed.drop (h.handed.length - k)

def restore (h : History) (k : Nat) : History :=
  { h with handed := h.handed.take (h.handed.length - k) }.put (h.latest k ++ h.pending)

end History

/-- The runs of a mailbox, each operation with what it does to the messages. -/
inductive Run : SteerInbox → History → Prop where
  | start : Run {} {}
  | send {inbox h} (message : String) (run : Run inbox h) : Run (inbox.send message).1
      (if (inbox.send message).2 = "" then h else h.send (inbox.send message).2)
  | drain {inbox h} (run : Run inbox h) : Run inbox.drain.1 h.drain
  | restoreFront {inbox h} (k : Nat) (run : Run inbox h) :
    Run (inbox.restoreFront ((h.latest k).map h.textAt)) (h.restore k)
  | signalWaiters {inbox h} (reason runId : String) (run : Run inbox h) :
    Run (inbox.signalWaiters reason runId) h
  | consumeWaitSignal {inbox h} (run : Run inbox h) : Run inbox.consumeWaitSignal.1 h
  | consumeWaitSignals {inbox h} (run : Run inbox h) : Run inbox.consumeWaitSignals.1 h

/-- What holds of a mailbox and of the messages of its run. -/
structure Conserved (inbox : SteerInbox) (h : History) : Prop where
  /-- The next drain hands over the pending messages. -/
  drained : inbox.drain.2 = h.pending.map h.textAt
  ordered : (h.handed ++ h.pending).Pairwise (· < ·)
  /-- Every message that was accepted is in one place. -/
  accounted : (h.handed ++ h.pending ++ h.lost).Perm (List.range h.accepted.length)
  counted : h.accepted.length = h.handed.length + inbox.messages.length + inbox.dropped
  bounded : inbox.messages.length ≤ maxPendingSteerMessages
  oldest : ∀ l ∈ h.lost, ∀ i ∈ h.pending, l < i
  wake : inbox.wakeEvent = true ↔ inbox.wakeSignals ≠ []

/-! ### Where the messages are -/

/-- What every operation keeps of the messages. -/
structure History.Kept (h : History) : Prop where
  ordered : (h.handed ++ h.pending).Pairwise (· < ·)
  accounted : (h.handed ++ h.pending ++ h.lost).Perm (List.range h.accepted.length)
  bounded : h.pending.length ≤ maxPendingSteerMessages
  /-- Behind a message that was thrown out there are enough newer ones. -/
  full : ∀ l ∈ h.lost, maxPendingSteerMessages ≤ ((h.handed ++ h.pending).filter (l < ·)).length
  queued : ∀ text ∈ h.accepted, text ≠ "" ∧ normalizeSteerMessage text = text

namespace History

/-- What is thrown out of a queue is older than what stays, so the newer messages suffice. -/
theorem kept_put {h : History} {queue : List Nat} (hordered : (h.handed ++ queue).Pairwise (· < ·))
    (haccounted : (h.handed ++ queue ++ h.lost).Perm (List.range h.accepted.length))
    (hfull : ∀ l ∈ h.lost, maxPendingSteerMessages ≤ ((h.handed ++ queue).filter (l < ·)).length)
    (hqueued : ∀ text ∈ h.accepted, text ≠ "" ∧ normalizeSteerMessage text = text) :
    (h.put queue).Kept := by
  have hsplit := evicted_append_newest queue
  have hbefore : ∀ e ∈ evicted queue, ∀ i ∈ newest queue, e < i := by
    rw [← hsplit] at hordered
    have hqueue := (List.pairwise_append.mp hordered).2.1
    exact (List.pairwise_append.mp hqueue).2.2
  constructor
  · show (h.handed ++ newest queue).Pairwise (· < ·)
    refine hordered.sublist (List.Sublist.append_left ?_ _)
    exact List.drop_sublist _ _
  · show (h.handed ++ newest queue ++ (h.lost ++ evicted queue)).Perm _
    refine List.Perm.trans ?_ haccounted
    have hmove : (newest queue ++ (h.lost ++ evicted queue)).Perm (queue ++ h.lost) := by
      conv_rhs => rw [← hsplit]
      rw [← List.append_assoc]
      refine List.perm_append_comm.trans ?_
      rw [List.append_assoc]
    rw [List.append_assoc, List.append_assoc]
    exact hmove.append_left _
  · exact length_newest queue
  · intro l hl
    show maxPendingSteerMessages ≤ ((h.handed ++ newest queue).filter (l < ·)).length
    by_cases hnone : evicted queue = []
    · rw [hnone, List.nil_append] at hsplit
      rw [hsplit]
      rcases List.mem_append.mp hl with hl | hl
      · exact hfull l hl
      · rw [hnone] at hl
        cases hl
    · by_cases hall : ∀ i ∈ newest queue, l < i
      · -- all that stay pending are newer
        rw [List.filter_append, List.length_append,
          List.filter_eq_self.mpr (fun i hi => decide_eq_true (hall i hi)),
          length_newest_of_evicted hnone]
        exact Nat.le_add_left _ _
      · -- one is older, and so is everything that was thrown out
        rw [not_forall] at hall
        obtain ⟨i, hall⟩ := hall
        rw [Classical.not_imp] at hall
        obtain ⟨hi, hle⟩ := hall
        have hold : (evicted queue).filter (l < ·) = [] := by
          rw [List.filter_eq_nil_iff]
          intro e he
          have hlt := hbefore e he i hi
          simp only [decide_eq_true_eq]
          omega
        rcases List.mem_append.mp hl with hl | hl
        · have hsame := hfull l hl
          rw [← hsplit, List.filter_append, List.filter_append, hold, List.nil_append,
            ← List.filter_append] at hsame
          exact hsame
        · exact absurd (hbefore l hl i hi) hle
  · exact hqueued

theorem Kept.textAt_append {h : History} (hkept : h.Kept) (text : String) {i : Nat}
    (hi : i ∈ h.handed ++ h.pending) :
    { h with accepted := h.accepted ++ [text] }.textAt i = h.textAt i := by
  have hlt : i < h.accepted.length :=
    List.mem_range.mp (hkept.accounted.mem_iff.mp (List.mem_append_left _ hi))
  unfold textAt
  rw [List.getD_eq_getElem?_getD, List.getElem?_append_left hlt, List.getD_eq_getElem?_getD]

theorem Kept.send {h : History} (hkept : h.Kept) {text : String} (hne : text ≠ "")
    (htext : normalizeSteerMessage text = text) : (h.send text).Kept := by
  have hrange : ∀ i ∈ h.handed ++ h.pending, i < h.accepted.length := fun i hi =>
    List.mem_range.mp (hkept.accounted.mem_iff.mp (List.mem_append_left _ hi))
  refine kept_put (h := { h with accepted := h.accepted ++ [text] }) ?_ ?_ ?_ ?_
  · rw [← List.append_assoc, List.pairwise_append]
    refine ⟨hkept.ordered, List.pairwise_singleton _ _, ?_⟩
    intro i hi j hj
    obtain rfl := List.mem_singleton.mp hj
    exact hrange i hi
  · rw [List.length_append, List.length_singleton, List.range_succ, ← List.append_assoc]
    have hmove : (h.handed ++ h.pending ++ [h.accepted.length] ++ h.lost).Perm
        (h.handed ++ h.pending ++ h.lost ++ [h.accepted.length]) := by
      rw [List.append_assoc _ [_], List.append_assoc _ h.lost]
      exact List.perm_append_comm.append_left _
    exact hmove.trans (hkept.accounted.append_right _)
  · intro l hl
    rw [← List.append_assoc, List.filter_append, List.length_append]
    exact Nat.le_add_right_of_le (hkept.full l hl)
  · intro t ht
    rcases List.mem_append.mp ht with ht | ht
    · exact hkept.queued t ht
    · obtain rfl := List.mem_singleton.mp ht
      exact ⟨hne, htext⟩

theorem Kept.drain {h : History} (hkept : h.Kept) : h.drain.Kept := by
  have hsame : h.drain.handed ++ h.drain.pending = h.handed ++ h.pending :=
    List.append_nil _
  constructor
  · rw [hsame]
    exact hkept.ordered
  · rw [hsame]
    exact hkept.accounted
  · exact Nat.zero_le _
  · intro l hl
    rw [hsame]
    exact hkept.full l hl
  · exact hkept.queued

theorem Kept.restore {h : History} (hkept : h.Kept) (k : Nat) : (h.restore k).Kept := by
  have hsame : h.handed.take (h.handed.length - k) ++ (h.latest k ++ h.pending) =
      h.handed ++ h.pending := by
    rw [← List.append_assoc]
    unfold latest
    rw [List.take_append_drop]
  refine kept_put (h := { h with handed := h.handed.take (h.handed.length - k) }) ?_ ?_ ?_ ?_
  · rw [hsame]
    exact hkept.ordered
  · rw [hsame]
    exact hkept.accounted
  · intro l hl
    rw [hsame]
    exact hkept.full l hl
  · exact hkept.queued

/-- **Nothing that is pending is older than what was thrown out.** -/
theorem Kept.oldest {h : History} (hkept : h.Kept) : ∀ l ∈ h.lost, ∀ i ∈ h.pending, l < i := by
  intro l hl i hi
  by_contra hle
  have hnewer := hkept.full l hl
  -- whatever is newer is pending, behind the older message
  have hhanded : h.handed.filter (l < ·) = [] := by
    rw [List.filter_eq_nil_iff]
    intro j hj
    have hlt := (List.pairwise_append.mp hkept.ordered).2.2 j hj i hi
    simp only [decide_eq_true_eq]
    omega
  have hpending : (h.pending.filter (l < ·)).length < h.pending.length := by
    rw [List.length_filter_lt_length_iff_exists]
    exact ⟨i, hi, by simpa using hle⟩
  have hbounded := hkept.bounded
  rw [List.filter_append, hhanded, List.nil_append] at hnewer
  omega

end History

/-! ### Wake signals -/

variable (inbox : SteerInbox)

/-- The event is set exactly when a signal is queued. -/
def SteerInbox.Wakes : Prop :=
  inbox.wakeEvent = true ↔ inbox.wakeSignals ≠ []

theorem wakes_signalLocked (reason runId : String) : (inbox.signalLocked reason runId).Wakes :=
  iff_of_true rfl (newest_ne_nil (by simp))

variable {inbox : SteerInbox}

theorem SteerInbox.Wakes.rest (h : inbox.Wakes) {rest : List WakeSignal}
    (hrest : rest ≠ [] → inbox.wakeSignals ≠ []) :
    (if rest = [] then false else inbox.wakeEvent) = true ↔ rest ≠ [] := by
  by_cases hnone : rest = []
  · rw [if_pos hnone]
    exact iff_of_false Bool.false_ne_true (not_not.mpr hnone)
  · rw [if_neg hnone]
    exact iff_of_true (h.mpr (hrest hnone)) hnone

theorem wakes_drain (h : inbox.Wakes) : inbox.drain.1.Wakes := by
  unfold SteerInbox.drain
  split
  · exact h
  · refine h.rest fun hne hnone => hne ?_
    rw [hnone]
    rfl

theorem wakes_consumeWaitSignal (h : inbox.Wakes) :
    inbox.consumeWaitSignal.1.Wakes := by
  unfold SteerInbox.consumeWaitSignal
  cases hsignals : inbox.wakeSignals with
  | nil => simp [SteerInbox.Wakes]
  | cons signal rest =>
    refine h.rest fun _ => ?_
    rw [hsignals]
    exact List.cons_ne_nil _ _

/-! ### Runs -/

/-- What every operation keeps. -/
structure Tracks (inbox : SteerInbox) (h : History) : Prop where
  kept : h.Kept
  messages : inbox.messages = h.pending.map h.textAt
  dropped : inbox.dropped = h.lost.length
  wakes : inbox.Wakes

theorem tracks_put {h h' : History} {messages : List String}
    {queue : List Nat} (hkept : (h'.put queue).Kept) (hdropped : inbox.dropped = h.lost.length)
    (hlost : h'.lost = h.lost) (hmessages : messages = queue.map h'.textAt)
    (reason runId : String) :
    Tracks ((inbox.put messages).signalLocked reason runId) (h'.put queue) where
  kept := hkept
  messages := by
    show newest messages = (newest queue).map h'.textAt
    rw [hmessages, newest_map]
  dropped := by
    show inbox.dropped + (evicted messages).length = (h'.lost ++ evicted queue).length
    rw [hmessages, evicted_map, List.length_map, List.length_append, hdropped, hlost]
  wakes := wakes_signalLocked _ _ _

theorem SteerInbox.send_eq {message text : String} (htext : normalizeSteerMessage message = text)
    (hne : text ≠ "") :
    inbox.send message =
      ((inbox.put (inbox.messages ++ [text])).signalLocked "parent_steer" "", text) := by
  unfold SteerInbox.send
  rw [htext, if_neg hne]

theorem Tracks.send {h : History} (ht : Tracks inbox h) (message : String) :
    Tracks (inbox.send message).1
      (if (inbox.send message).2 = "" then h else h.send (inbox.send message).2) := by
  have htwice := normalizeSteerMessage_twice message
  by_cases hempty : normalizeSteerMessage message = ""
  · have hsend : inbox.send message = (inbox, "") := by
      unfold SteerInbox.send
      rw [if_pos hempty]
    rw [hsend]
    exact ht
  · rw [inbox.send_eq rfl hempty]
    generalize normalizeSteerMessage message = text at htwice hempty
    rw [if_neg hempty]
    refine tracks_put (ht.kept.send hempty htwice) ht.dropped rfl ?_ _ _
    have hold : h.pending.map { h with accepted := h.accepted ++ [text] }.textAt =
        h.pending.map h.textAt :=
      List.map_congr_left fun i hi => ht.kept.textAt_append text (List.mem_append_right _ hi)
    have hnew : { h with accepted := h.accepted ++ [text] }.textAt h.accepted.length = text := by
      unfold History.textAt
      simp
    rw [List.map_append, hold, List.map_singleton, hnew, ht.messages]

theorem Tracks.restoreFront {h : History} (ht : Tracks inbox h) (k : Nat) :
    Tracks (inbox.restoreFront ((h.latest k).map h.textAt)) (h.restore k) := by
  have hlatest : ∀ i ∈ h.latest k, h.textAt i ≠ "" ∧
      normalizeSteerMessage (h.textAt i) = h.textAt i := by
    intro i hi
    have hlt : i < h.accepted.length := List.mem_range.mp (ht.kept.accounted.mem_iff.mp
      (List.mem_append_left _ (List.mem_append_left _ (List.mem_of_mem_drop hi))))
    have htext : h.textAt i = h.accepted[i] := by
      unfold History.textAt
      rw [List.getD_eq_getElem?_getD, List.getElem?_eq_getElem hlt]
      rfl
    rw [htext]
    exact ht.kept.queued _ (List.getElem_mem hlt)
  have hnormalized : (((h.latest k).map h.textAt).map normalizeSteerMessage).filter (· ≠ "") =
      (h.latest k).map h.textAt := by
    have hsame : ((h.latest k).map h.textAt).map normalizeSteerMessage =
        (h.latest k).map h.textAt := by
      rw [List.map_map]
      refine List.map_congr_left fun i hi => ?_
      rw [Function.comp_apply]
      exact (hlatest i hi).2
    rw [hsame]
    refine List.filter_eq_self.mpr fun text htext => ?_
    obtain ⟨i, hi, rfl⟩ := List.mem_map.mp htext
    exact decide_eq_true (hlatest i hi).1
  have hkept := ht.kept.restore k
  unfold History.restore at hkept ⊢
  unfold SteerInbox.restoreFront
  rw [hnormalized]
  by_cases hnone : (h.latest k).map h.textAt = []
  · -- nothing is put back
    rw [if_pos hnone]
    rw [List.map_eq_nil_iff] at hnone
    have hzero : h.pending.length - maxPendingSteerMessages = 0 :=
      Nat.sub_eq_zero_of_le ht.kept.bounded
    have hpending : newest (h.latest k ++ h.pending) = h.pending := by
      unfold newest
      rw [hnone, List.nil_append, hzero, List.drop_zero]
    have hnew : evicted (h.latest k ++ h.pending) = [] := by
      unfold evicted
      rw [hnone, List.nil_append, hzero, List.take_zero]
    exact
      { kept := hkept
        messages := by
          show inbox.messages = (newest (h.latest k ++ h.pending)).map h.textAt
          rw [hpending]
          exact ht.messages
        dropped := by
          show inbox.dropped = (h.lost ++ evicted (h.latest k ++ h.pending)).length
          rw [hnew, List.append_nil]
          exact ht.dropped
        wakes := ht.wakes }
  · rw [if_neg hnone]
    refine @tracks_put inbox h { h with handed := h.handed.take (h.handed.length - k) } _ _
      hkept ht.dropped rfl ?_ _ _
    rw [List.map_append, ht.messages]
    rfl

theorem tracks_of_run {h : History} (run : Run inbox h) : Tracks inbox h := by
  induction run with
  | start =>
    exact ⟨⟨List.Pairwise.nil, List.Perm.nil, Nat.zero_le _, by simp, by simp⟩, rfl, rfl,
      by simp [SteerInbox.Wakes]⟩
  | send message _ ih => exact ih.send message
  | @drain inbox h _ ih =>
    refine ⟨ih.kept.drain, ?_, ?_, wakes_drain ih.wakes⟩
    · unfold SteerInbox.drain
      split
      · rename_i hnone
        exact hnone
      · rfl
    · unfold SteerInbox.drain
      split
      · exact ih.dropped
      · exact ih.dropped
  | restoreFront k _ ih => exact ih.restoreFront k
  | signalWaiters reason runId _ ih =>
    exact ⟨ih.kept, ih.messages, ih.dropped, wakes_signalLocked _ _ _⟩
  | @consumeWaitSignal inbox h _ ih =>
    have hsame : inbox.consumeWaitSignal.1.messages = inbox.messages ∧
        inbox.consumeWaitSignal.1.dropped = inbox.dropped := by
      unfold SteerInbox.consumeWaitSignal
      split
      · exact ⟨rfl, rfl⟩
      · exact ⟨rfl, rfl⟩
    exact ⟨ih.kept, hsame.1.trans ih.messages, hsame.2.trans ih.dropped,
      wakes_consumeWaitSignal ih.wakes⟩
  | consumeWaitSignals _ ih =>
    exact ⟨ih.kept, ih.messages, ih.dropped, by simp [SteerInbox.Wakes,
      SteerInbox.consumeWaitSignals]⟩

end AlysisCode.Steering
