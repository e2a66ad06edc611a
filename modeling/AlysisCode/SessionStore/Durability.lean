/-
Replay agrees with publication over whole runs.

`Sound` is what holds of the disk and the events that are settled on it, `Live` of a store that
has the log open, `Dead` of a log nobody has open.  Every operation keeps them, unless it
appends behind a line that was cut off, or writes in vain over a sidecar that could be read.
-/
import AlysisCode.Library.Runs
import AlysisCode.SessionStore.Publication

namespace AlysisCode.SessionStore

open LineLog Runs

variable {F : Type} [Json.Floats F] {python : Python F} {sessionId : String} {loose : Prop}

/-- The disk settles on these events, and they and what is read agree with the appends. -/
structure Sound (python : Python F) (sessionId : String) (loose : Prop) (as : List (Attempt F))
    (es : List (Members F)) (d : Disk) (owed : Option Owed) : Prop where
  held : Held python es d owed
  settled : Agrees sessionId loose as es
  bare : readUncommittedSidecar (F := F) d = none ∨ loose →
    Agrees sessionId loose as (d.view.bare python)

/-- The store has published what is settled, and knows the boundary that is owed. -/
def Live (python : Python F) (sessionId : String) (loose : Prop) (as : List (Attempt F))
    (store : Store F) (d : Disk) : Prop :=
  ∃ owed : Option Owed, Sound python sessionId loose as store.events d owed ∧
    store.pendingUncommitted = owed.map Owed.payload

/-- Only the sidecar knows a boundary that is owed. -/
def Dead (python : Python F) (sessionId : String) (loose : Prop) (as : List (Attempt F))
    (d : Disk) : Prop :=
  ∃ es owed, Sound python sessionId loose as es d owed ∧
    (readUncommittedSidecar (F := F) d = none → owed = none)

def Kept (python : Python F) (sessionId : String) (loose : Prop) (as : List (Attempt F))
    (d : Disk) : Option (Store F) → Prop
  | some store => Live python sessionId loose as store d
  | none => Dead python sessionId loose as d

/-! ### The replay -/

section Sound

variable {as : List (Attempt F)} {es : List (Members F)} {d : Disk} {owed : Option Owed}

theorem Sound.replay (h : Sound python sessionId loose as es d owed) :
    Agrees sessionId loose as (readSessionEvents python d) := by
  rw [readSessionEvents_eq h.held.geometry]
  split
  · rw [h.held.yields]
    exact h.settled
  · rename_i hnone
    exact h.bare (.inl (Option.not_isSome_iff_eq_none.mp hnone))

variable {a : Attempt F}

theorem Sound.dropped (h : Sound python sessionId loose as es d owed)
    (ha : a.outcome ≠ .returned) : Sound python sessionId loose (as ++ [a]) es d owed :=
  ⟨h.held, h.settled.dropped ha, fun hbare => (h.bare hbare).dropped ha⟩

theorem Held.bare_eq (h : Held python es d none) : d.view.bare python = es := by
  rw [← settled_none, h.yields]

theorem Held.sound (h : Held python es d none) (hagrees : Agrees sessionId loose as es) :
    Sound python sessionId loose as es d none :=
  ⟨h, hagrees, fun _ => h.bare_eq ▸ hagrees⟩

theorem Sound.dead (h : Sound python sessionId loose as es d owed) :
    Dead python sessionId loose as d := by
  by_cases hnone : readUncommittedSidecar (F := F) d = none
  · have hbare : Held python (d.view.bare python) d none :=
      ⟨h.held.geometry.forget hnone, settled_none _⟩
    exact ⟨_, none, hbare.sound (h.bare (.inl hnone)), fun _ => rfl⟩
  · exact ⟨es, owed, h, fun h => absurd h hnone⟩

theorem Live.dead {store : Store F} (h : Live python sessionId loose as store d) :
    Dead python sessionId loose as d := by
  obtain ⟨owed, hsound, -⟩ := h
  exact hsound.dead

/-! ### Boundaries -/

variable {b : Owed}

theorem Owing.sound {d' : Disk} {fates : BoundaryFates}
    (howing : Owing python es d d' b fates) (h : Sound python sessionId loose as es d (some b))
    (hkeeps : loose ∨ fates.Keeps F d) : Sound python sessionId loose as es d' (some b) := by
  refine ⟨howing.held, h.settled, ?_⟩
  intro hnone
  rcases howing.bare with hbare | hbare
  · rw [hbare]
    refine h.bare ?_
    rcases hnone with hnone | hloose
    · rcases hkeeps with hloose | hkeeps
      · exact .inr hloose
      · exact .inl (howing.kept hkeeps hnone)
    · exact .inr hloose
  · rw [hbare]
    exact h.settled

/-- What a reconciliation leaves. -/
structure Reconciles (python : Python F) (sessionId : String) (loose : Prop)
    (as : List (Attempt F)) (es : List (Members F)) (b : Owed) (r : Disk × Option Bool) :
    Prop where
  done : r.2 = some true → Sound python sessionId loose as es r.1 none ∧ Closed r.1.log
  failed : r.2 ≠ some true → Sound python sessionId loose as es r.1 (some b)

theorem Sound.reconcile (h : Sound python sessionId loose as es d (some b))
    (fates : BoundaryFates) (hkeeps : loose ∨ fates.Keeps F d) :
    Reconciles python sessionId loose as es b
      (SessionStore.reconcile sessionId (b.payload : Members F) fates d) := by
  have hrecords := h.held.records sessionId fates
  unfold SessionStore.reconcile
  generalize recordUncommittedBoundary sessionId (b.payload : Members F) fates d = r at hrecords
  cases hrecords with
  | marker held closed =>
    exact ⟨fun _ => ⟨held.sound h.settled, closed⟩, fun hne => absurd rfl hne⟩
  | sidecar owing hread | none owing | died owing =>
    exact ⟨fun hdone => absurd hdone (by simp), fun _ => owing.sound h hkeeps⟩

theorem Reconciles.dead {r : Disk × Option Bool}
    (h : Reconciles python sessionId loose as es b r) : Dead python sessionId loose as r.1 := by
  by_cases hdone : r.2 = some true
  · exact (h.done hdone).1.dead
  · exact (h.failed hdone).dead

end Sound

/-! ### Writing an event -/

variable {d : Disk}

theorem view_event (hclosed : Closed d.log) {event : Members F}
    (hdistinct : (Json.obj event).Distinct) (hevent : isMarker python event = false)
    (fate : Fate) :
    ((d.append (fate.written (dumps event ++ ['\n']))).view (F := F)).records = d.view.records ∧
        fate ≠ .done ∨
      Grows d.view (d.append (fate.written (dumps event ++ ['\n']))).view event python := by
  have hwritten := written_dumps hdistinct
  obtain ⟨n, hn, hdone⟩ := fate.written_eq_take (dumps event ++ ['\n'])
  have hrecords : iterLogLines (F := F) (d.log ++ (dumps event ++ ['\n']).take n) =
      iterLogLines d.log ++ if n < (dumps event).length then [] else [(d.log.length, event)] := by
    rw [iterLogLines, records_closed reads_readLine hclosed,
      hwritten.recordsFrom_take reads_readLine]
    rfl
  rw [hn]
  by_cases hlt : n < (dumps event).length
  · rw [if_pos hlt, List.append_nil] at hrecords
    refine .inl ⟨hrecords, ?_⟩
    intro hfate
    have hlength := hdone hfate
    rw [List.length_append] at hlength
    omega
  · rw [if_neg hlt] at hrecords
    refine .inr ⟨hrecords, hevent, ?_⟩
    have hmem : (d.log.length, event) ∈ iterLogLines (d.log ++ (dumps event ++ ['\n']).take n) := by
      rw [hrecords]
      exact List.mem_append_right _ List.mem_cons_self
    exact offset_lt reads_readLine hmem

section Write

variable {as : List (Attempt F)} {es : List (Members F)} {d : Disk}

/-- What the write of an event leaves, for a settled log. -/
structure Wrote (python : Python F) (es : List (Members F)) (event : Members F) (d d' : Disk) :
    Prop where
  /-- The event is in the log, or nothing is. -/
  held : Held python es d' none ∨ Held python (es ++ [event]) d' none
  disowned : ∀ b : Owed, b.start = d.log.length → b.stop = d'.log.length →
    d.log.length < d'.log.length → Held python es d' (some b)

variable {event : Members F}

theorem Held.wrote (h : Held python es d none) (hclosed : Closed d.log)
    (hdistinct : (Json.obj event).Distinct) (hevent : isMarker python event = false) (fate : Fate) :
    Wrote python es event d (d.append (fate.written (dumps event ++ ['\n']))) ∧ (fate = .done →
        Held python (es ++ [event]) (d.append (fate.written (dumps event ++ ['\n']))) none) := by
  have hside : ((d.append (fate.written (dumps event ++ ['\n']))).view (F := F)).sidecar = none :=
    h.geometry.sidecar_none
  rcases view_event hclosed hdistinct hevent fate with ⟨hrecords, hne⟩ | hgrows
  · have hgeometry : Geometry python (d.append (fate.written (dumps event ++ ['\n']))).view none :=
      h.geometry.idle hrecords (view_append_size d _) (fun raw hraw => by
        rw [hside] at hraw
        cases hraw)
    refine ⟨⟨.inl ⟨hgeometry, by rw [settled_congr hrecords, h.yields]⟩, ?_⟩,
      fun hfate => absurd hfate hne⟩
    intro b hstart hstop hlt
    refine ⟨h.geometry.disown hgeometry (by rw [hrecords]) hstart hstop hlt, ?_⟩
    rw [settled_congr hrecords]
    exact (h.geometry.settled_before hstart).trans h.bare_eq
  · have hgeometry := h.geometry.grow hgrows hside
    have hgrown : Held python (es ++ [event])
        (d.append (fate.written (dumps event ++ ['\n']))) none := by
      refine ⟨hgeometry, ?_⟩
      rw [settled_none, h.geometry.bare_grow hgrows, h.bare_eq]
    refine ⟨⟨.inr hgrown, ?_⟩, fun _ => hgrown⟩
    intro b hstart hstop hlt
    refine ⟨h.geometry.disown hgeometry (Geometry.marked_grows hgrows) hstart hstop hlt, ?_⟩
    exact (h.geometry.settled_disown hgrows hstart (by omega)).trans h.bare_eq

theorem Wrote.sound {d' : Disk} (h : Wrote python es event d d')
    (hagrees : Agrees sessionId loose as es) (hevent : a.event = event)
    (hreturned : a.outcome ≠ .returned) (hrefused : a.outcome ≠ .refused)
    (hid : Json.get event "event_id" = .str (eventId sessionId (es.length + 1))) :
    Dead python sessionId loose (as ++ [a]) d' := by
  rcases h.held with hheld | hheld
  · exact (hheld.sound (hagrees.dropped hreturned)).dead
  · refine (hheld.sound ?_).dead
    rw [← hevent] at hid ⊢
    exact hagrees.kept (fun h => absurd h hrefused) hid

variable {d' : Disk} {fates : BoundaryFates}

theorem Wrote.bare (h : Wrote python es event d d') :
    d'.view.bare python = es ∨ d'.view.bare python = es ++ [event] := by
  rcases h.held with hheld | hheld
  · exact .inl hheld.bare_eq
  · exact .inr hheld.bare_eq

theorem Owing.bare_of_wrote {d₁ : Disk} (h : Owing python es d₁ d' b fates)
    (hwrote : Wrote python es event d d₁) :
    d'.view.bare python = es ∨ d'.view.bare python = es ++ [event] := by
  rcases h.bare with hbare | hbare
  · rw [hbare]
    exact hwrote.bare
  · exact .inl hbare

theorem Owing.attempt {d₁ : Disk} (h : Owing python es d₁ d' b fates)
    (hwrote : Wrote python es event d d₁) (hagrees : Agrees sessionId loose as es)
    (hevent : a.event = event) (hreturned : a.outcome ≠ .returned)
    (hrefused : a.outcome = .refused → (readUncommittedSidecar (F := F) d').isSome = true)
    (hid : Json.get event "event_id" = .str (eventId sessionId (es.length + 1))) :
    Sound python sessionId loose (as ++ [a]) es d' (some b) := by
  refine ⟨h.held, hagrees.dropped hreturned, ?_⟩
  intro hnone
  rcases h.bare_of_wrote hwrote with hbare | hbare
  · rw [hbare]
    exact hagrees.dropped hreturned
  · rw [hbare]
    rw [← hevent] at hid ⊢
    refine hagrees.kept ?_ hid
    intro hout
    rcases hnone with hnone | hloose
    · have hsome := hrefused hout
      rw [hnone] at hsome
      cases hsome
    · exact hloose

end Write

/-! ### Appending -/

section Append

variable {as : List (Attempt F)} {store : Store F} {d : Disk}

def attempt (sessionId : String) (call : AppendCall F) (store : Store F) (outcome : Outcome) :
    Attempt F where
  event := call.event sessionId (store.events.length + 1)
  outcome := outcome

def KeptBy (python : Python F) (sessionId : String) (loose : Prop) (as : List (Attempt F))
    (call : AppendCall F) (store : Store F) (left : Left F × Outcome) : Prop :=
  Kept python sessionId loose (as ++ [attempt sessionId call store left.2]) left.1.disk left.1.store

variable {call : AppendCall F} {fates : AppendFates}

theorem discard_kept {written : List Char} (h : Held python store.events d none)
    (hpending : store.pendingUncommitted = none) (hagrees : Agrees sessionId loose as store.events)
    (hwrote : Wrote python store.events (call.event sessionId (store.events.length + 1)) d
      (d.append written)) :
    KeptBy python sessionId loose as call store
      (discardPartialRecord sessionId call fates d.log.length store (d.append written)) := by
  have hid := get_eventId call sessionId (store.events.length + 1)
  have hback : Live python sessionId loose
      (as ++ [attempt sessionId call store .refused]) { store with handle := false } d :=
    ⟨none, h.sound (hagrees.dropped (by simp [attempt])), hpending⟩
  unfold discardPartialRecord
  dsimp only
  split
  · rename_i hshort
    have hnil : written = [] := by
      have hlength : (d.log ++ written).length ≤ d.log.length := hshort
      rw [List.length_append] at hlength
      exact List.eq_nil_of_length_eq_zero (by omega)
    have hsame : d.append written = d := by
      rw [hnil, Disk.append, List.append_nil]
    rw [hsame]
    exact hback
  split
  · have hsame : { d.append written with
        log := (d.append written).log.take d.log.length } = d := by
      show ({ d with log := (d.log ++ written).take d.log.length } : Disk) = d
      rw [List.take_left]
    rw [hsame]
    exact hback
  let b : Owed :=
    { start := d.log.length, stop := (d.append written).log.length,
      eventType := call.eventType, ts := fates.ts }
  have hrecords := (hwrote.disowned b rfl rfl (by omega)).records sessionId fates.boundary
  have hpayload : (boundary d.log.length (d.append written).log.length call.eventType fates.ts :
      Members F) = b.payload := rfl
  rw [hpayload]
  generalize recordUncommittedBoundary sessionId (b.payload : Members F) fates.boundary
    (d.append written) = r at hrecords ⊢
  cases hrecords with
  | marker held closed =>
    exact ⟨none, held.sound (hagrees.dropped (by simp [attempt])), hpending⟩
  | sidecar owing hread =>
    refine ⟨some b, ?_, rfl⟩
    exact owing.attempt hwrote hagrees rfl (by simp [attempt]) (fun _ => by rw [hread]; rfl) hid
  | none owing =>
    refine ⟨some b, ?_, rfl⟩
    exact owing.attempt hwrote hagrees rfl (by simp [attempt]) (by simp [attempt]) hid
  | died owing =>
    have hsound : Sound python sessionId loose
        (as ++ [attempt sessionId call store .inFlight]) store.events _ (some b) :=
      owing.attempt hwrote hagrees rfl (by simp [attempt]) (by simp [attempt]) hid
    exact hsound.dead

theorem writeRecord_kept (h : Sound python sessionId loose as store.events d none)
    (hpending : store.pendingUncommitted = none) (hclosed : Closed d.log) :
    KeptBy python sessionId loose as call store (writeRecord sessionId call fates store d) := by
  have hid := get_eventId call sessionId (store.events.length + 1)
  obtain ⟨hwrote, hdone⟩ := h.held.wrote hclosed
    (distinct_event call sessionId (store.events.length + 1))
    (isMarker_event python call sessionId (store.events.length + 1)) fates.write
  unfold writeRecord
  split
  · exact ⟨none, h.dropped (by simp [attempt]), hpending⟩
  cases hfate : fates.write with
  | done =>
    rw [hfate] at hdone
    have hreturned : (attempt sessionId call store .returned).outcome = .refused → loose :=
      fun h => by cases h
    exact ⟨none, (hdone rfl).sound (h.settled.kept hreturned hid), hpending⟩
  | unopened | fails n =>
    rw [hfate] at hwrote
    exact discard_kept h.held hpending h.settled hwrote
  | dies n =>
    rw [hfate] at hwrote
    have hdead : Dead python sessionId loose (as ++ [attempt sessionId call store .inFlight]) _ :=
      hwrote.sound h.settled rfl (by simp [attempt]) (by simp [attempt]) hid
    exact hdead

theorem append_kept (h : Live python sessionId loose as store d)
    (hclosed : store.pendingUncommitted = none → Closed d.log)
    (hkeeps : store.pendingUncommitted ≠ none → loose ∨ fates.pending.Keeps F d) :
    KeptBy python sessionId loose as call store (append sessionId call fates store d) := by
  obtain ⟨owed, hsound, hpending⟩ := h
  unfold append
  cases owed with
  | none =>
    have hnone : store.pendingUncommitted = none := hpending
    rw [hnone]
    exact writeRecord_kept hsound hnone (hclosed hnone)
  | some b =>
    have hsome : store.pendingUncommitted = some b.payload := hpending
    rw [hsome]
    dsimp only
    have hreconciles := hsound.reconcile _ (hkeeps (by simp [hsome]))
    generalize reconcile sessionId (b.payload : Members F) fates.pending d = r at hreconciles
    obtain ⟨d', answer⟩ := r
    match answer with
    | none =>
      exact ((hreconciles.failed (by simp)).dropped (by simp [attempt])).dead
    | some false =>
      exact ⟨some b, (hreconciles.failed (by simp)).dropped (by simp [attempt]), hpending⟩
    | some true =>
      obtain ⟨hsound', hclosed'⟩ := hreconciles.done rfl
      have hkept : KeptBy python sessionId loose as call
          { store with pendingUncommitted := none } (writeRecord sessionId call fates
            { store with pendingUncommitted := none } d') :=
        writeRecord_kept hsound' rfl hclosed'
      exact hkept

end Append

/-! ### Runs -/

/-- The invariant of a run. -/
def WorldKept (python : Python F) (sessionId : String) (loose : Prop)
    (trace : List (Op F × Option (Attempt F))) (w : World F) : Prop :=
  Kept python sessionId loose (attempts trace) w.disk w.store

/-- An append begins where the log has its line end. -/
def Appends (w : World F) : Op F → Prop
  | .append _ _ => ∀ store ∈ w.store, store.pendingUncommitted = none → Closed w.disk.log
  | _ => True

/-- The sidecar is not written over in vain, while it can be read. -/
def Keeps (w : World F) : Op F → Prop
  | .opened fates =>
    w.store = none → fates.marker.answer = some false → fates.closing.Keeps F w.disk
  | .append _ fates =>
    ∀ store ∈ w.store, store.pendingUncommitted ≠ none → fates.pending.Keeps F w.disk
  | .reconcile fates =>
    ∀ store ∈ w.store, store.pendingUncommitted ≠ none → fates.Keeps F w.disk
  | .close fates => ∀ store ∈ w.store, store.pendingUncommitted ≠ none → fates.Keeps F w.disk
  | .dies => True

section Ops

variable {as : List (Attempt F)} {store : Store F} {d : Disk}

theorem open_kept (fates : OpenFates) (h : Dead python sessionId loose as d)
    (hkeeps : loose ∨ (fates.marker.answer = some false → fates.closing.Keeps F d)) :
    Kept python sessionId loose as (openStore python sessionId fates d).disk
      (openStore python sessionId fates d).store := by
  obtain ⟨es, owed, hsound, hnone⟩ := h
  have hreplay := readSessionEvents_eq hsound.held.geometry
  unfold openStore
  split
  · exact hsound.dead
  cases hside : readUncommittedSidecar (F := F) d with
  | none =>
    obtain rfl := hnone hside
    rw [hside, Option.isSome_none, if_neg Bool.false_ne_true, hsound.held.bare_eq] at hreplay
    refine ⟨none, ?_, rfl⟩
    rw [hreplay]
    exact hsound
  | some raw =>
    obtain ⟨b, hb, rfl⟩ := hsound.held.geometry.sidecar raw hside
    obtain rfl : owed = some b := hb
    rw [hside, Option.isSome_some, if_pos rfl, hsound.held.yields] at hreplay
    have hmarked := hsound.held.marker sessionId fates.ts fates.marker
    have hanswer : (writeUncommittedMarker sessionId fates.ts (b.payload : Members F)
      fates.marker d).2 = fates.marker.answer := rfl
    dsimp only
    generalize writeUncommittedMarker sessionId fates.ts (b.payload : Members F) fates.marker d =
      w at hmarked hanswer
    obtain ⟨d', answer⟩ := w
    obtain rfl : answer = fates.marker.answer := hanswer
    by_cases hdone : fates.marker = .done
    · obtain ⟨hheld, -⟩ := hmarked.done hdone
      rw [hdone]
      refine ⟨none, ?_, rfl⟩
      rw [hreplay]
      exact hheld.sound hsound.settled
    obtain ⟨hheld, hsidecar, hbare⟩ := hmarked.other hdone
    have hread : readUncommittedSidecar (F := F) d' = readUncommittedSidecar d := by
      unfold readUncommittedSidecar
      rw [hsidecar]
    have hsound' : Sound python sessionId loose as es d' (some b) := by
      refine ⟨hheld, hsound.settled, ?_⟩
      intro hfree
      rw [hread] at hfree
      rcases hbare with hbare | hbare
      · rw [hbare]
        exact hsound.bare hfree
      · rw [hbare]
        exact hsound.settled
    cases hfate : fates.marker with
    | done => exact absurd hfate hdone
    | dies n => exact hsound'.dead
    | unopened | fails n =>
      refine (hsound'.reconcile fates.closing ?_).dead
      refine hkeeps.imp_right fun h hfailed => ?_
      rw [hread]
      exact h (by rw [hfate]; rfl) hfailed

theorem reconcileStore_kept (fates : BoundaryFates) (h : Live python sessionId loose as store d)
    (hkeeps : store.pendingUncommitted ≠ none → loose ∨ fates.Keeps F d) :
    Kept python sessionId loose as (reconcileStore sessionId fates store d).disk
      (reconcileStore sessionId fates store d).store := by
  obtain ⟨owed, hsound, hpending⟩ := id h
  unfold reconcileStore
  cases owed with
  | none =>
    have hnone : store.pendingUncommitted = none := hpending
    rw [hnone]
    exact h
  | some b =>
    have hsome : store.pendingUncommitted = some b.payload := hpending
    rw [hsome]
    dsimp only
    have hreconciles := hsound.reconcile _ (hkeeps (by simp [hsome]))
    generalize reconcile sessionId (b.payload : Members F) fates d = r at hreconciles
    obtain ⟨d', answer⟩ := r
    match answer with
    | none => exact (hreconciles.failed (by simp)).dead
    | some false => exact ⟨some b, hreconciles.failed (by simp), hpending⟩
    | some true => exact ⟨none, (hreconciles.done rfl).1, rfl⟩

theorem close_kept (fates : BoundaryFates) (h : Live python sessionId loose as store d)
    (hkeeps : store.pendingUncommitted ≠ none → loose ∨ fates.Keeps F d) :
    Dead python sessionId loose as (close sessionId fates store d) := by
  obtain ⟨owed, hsound, hpending⟩ := h
  unfold close
  cases owed with
  | none =>
    have hnone : store.pendingUncommitted = none := hpending
    rw [hnone]
    exact hsound.dead
  | some b =>
    have hsome : store.pendingUncommitted = some b.payload := hpending
    rw [hsome]
    exact (hsound.reconcile _ (hkeeps (by simp [hsome]))).dead

theorem Kept.dead {store : Option (Store F)}
    (h : Kept python sessionId loose as d store) : Dead python sessionId loose as d := by
  cases store with
  | none => exact h
  | some store => exact Live.dead h

/-- **Every operation keeps replay and publication together.** -/
theorem exec_kept {w : World F} {op : Op F} (h : Kept python sessionId loose as w.disk w.store)
    (happends : Appends w op) (hkeeps : loose ∨ Keeps w op) :
    Kept python sessionId loose (as ++ (exec python sessionId op w).2.toList)
      (exec python sessionId op w).1.disk (exec python sessionId op w).1.store := by
  obtain ⟨d, store⟩ := w
  cases store with
  | none =>
    cases op with
    | opened fates =>
      have hopen := open_kept fates h (hkeeps.imp_right fun h => h rfl)
      simpa [exec] using hopen
    | append | reconcile | close | dies => simpa [exec] using h
  | some store =>
    cases op with
    | opened fates => simpa [exec] using h
    | append call fates =>
      refine append_kept h (happends store rfl) ?_
      exact fun hpending => hkeeps.imp_right fun h => h store rfl hpending
    | reconcile fates =>
      have hleft := reconcileStore_kept fates h
        fun hpending => hkeeps.imp_right fun h => h store rfl hpending
      simpa [exec] using hleft
    | close fates =>
      have hleft := close_kept fates h
        fun hpending => hkeeps.imp_right fun h => h store rfl hpending
      simpa [exec, Kept] using hleft
    | dies =>
      have hleft := Live.dead h
      simpa [exec, Kept] using hleft

end Ops

theorem start_kept : WorldKept python sessionId loose [] (World.start : World F) := by
  have hheld : Held python [] (World.start (F := F)).disk none := by
    have hnone : iterLogLines (F := F) [] = [] := by
      show entry readLine 0 [] = []
      exact entry_empty reads_readLine 0
    refine ⟨⟨?_, ?_, ?_, ?_, ?_⟩, ?_⟩
    · intro x hx
      rw [show (World.start (F := F)).disk.view.records = [] from hnone] at hx
      cases hx
    · intro x hx
      rw [show (World.start (F := F)).disk.view.records = [] from hnone] at hx
      cases hx
    · intro b hb
      cases hb
    · intro b hb
      cases hb
    · intro raw hraw
      cases hraw
    · show visible python _ (iterLogLines (F := F) []) = []
      rw [hnone]
      rfl
  exact ⟨[], none, hheld.sound .nil, fun _ => rfl⟩

omit [Json.Floats F] in
theorem attempts_snoc (trace : List (Op F × Option (Attempt F))) (op : Op F)
    (obs : Option (Attempt F)) : attempts (trace ++ [(op, obs)]) = attempts trace ++ obs.toList := by
  unfold attempts
  rw [List.filterMap_append]
  cases obs with
  | none | some a => rfl

theorem run_kept {C : World F → Op F → Prop}
    (hC : ∀ w op, C w op → Appends w op ∧ (loose ∨ Keeps w op))
    {trace : List (Op F × Option (Attempt F))} {w : World F}
    (hrun : Run (Step python sessionId) World.start trace w)
    (hcond : Throughout (Step python sessionId) World.start (fun _ w l => C w l.1) trace) :
    WorldKept python sessionId loose trace w := by
  refine hrun.throughout (I := WorldKept python sessionId loose) start_kept ?_ hcond
  rintro trace w ⟨op, obs⟩ w' - hw hc hstep
  obtain ⟨happends, hkeeps⟩ := hC w op hc
  have hkept := exec_kept hw happends hkeeps
  have hexec : exec python sessionId op w = (w', obs) := hstep
  rw [hexec] at hkept
  unfold WorldKept
  rw [attempts_snoc]
  exact hkept

theorem Kept.agrees {as : List (Attempt F)} {store : Option (Store F)}
    (h : Kept python sessionId loose as d store) :
    Agrees sessionId loose as (readSessionEvents python d) := by
  obtain ⟨es, owed, hsound, -⟩ := h.dead
  exact hsound.replay

end AlysisCode.SessionStore
