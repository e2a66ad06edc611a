/-
Replay and publication.

`Agrees` says which events a replay may yield for the appends there have been: each that
returned, and no refused one unless `loose`.  It holds of what is settled, and of what the log
alone says where no sidecar covers it; both are followed here through everything that can
become of the disk.
-/
import AlysisCode.SessionStore.Replay

namespace AlysisCode.SessionStore

variable {F : Type} {python : Python F} {sessionId : String} {loose : Prop}

/-! ### Appends and events -/

/-- The events are those of the appends that returned, and of some of the others, each with the
id of its place. -/
inductive Agrees (sessionId : String) (loose : Prop) :
    List (Attempt F) → List (Members F) → Prop
  | nil : Agrees sessionId loose [] []
  | kept {as : List (Attempt F)} {es : List (Members F)} {a : Attempt F}
      (h : Agrees sessionId loose as es) (hrefused : a.outcome = .refused → loose)
      (hid : Json.get a.event "event_id" = .str (eventId sessionId (es.length + 1))) :
      Agrees sessionId loose (as ++ [a]) (es ++ [a.event])
  | dropped {as : List (Attempt F)} {es : List (Members F)} {a : Attempt F}
      (h : Agrees sessionId loose as es) (hreturned : a.outcome ≠ .returned) :
      Agrees sessionId loose (as ++ [a]) es

variable {as : List (Attempt F)} {es : List (Members F)}

theorem Agrees.exists_kept (h : Agrees sessionId loose as es) :
    ∃ kept : List (Attempt F), kept.Sublist as ∧ kept.map (·.event) = es ∧
      (∀ a ∈ kept, a.outcome = .refused → loose) ∧
      (as.filter fun a => a.outcome = .returned).Sublist kept := by
  induction h with
  | nil => exact ⟨[], List.Sublist.refl _, rfl, by simp, List.Sublist.refl _⟩
  | @kept as es a _ hrefused _ ih =>
    obtain ⟨kept, hsub, hmap, hall, hreturned⟩ := ih
    refine ⟨kept ++ [a], hsub.append (List.Sublist.refl _), by rw [List.map_append, hmap]; rfl,
      ?_, ?_⟩
    · intro a' ha'
      rcases List.mem_append.mp ha' with ha' | ha'
      · exact hall a' ha'
      · rw [List.mem_singleton.mp ha']
        exact hrefused
    · rw [List.filter_append]
      exact hreturned.append List.filter_sublist
  | @dropped as es a _ hne ih =>
    obtain ⟨kept, hsub, hmap, hall, hreturned⟩ := ih
    refine ⟨kept, hsub.trans (List.sublist_append_left _ _), hmap, hall, ?_⟩
    rw [List.filter_append, List.filter_cons_of_neg (by simpa using hne), List.filter_nil,
      List.append_nil]
    exact hreturned

theorem Agrees.ids (h : Agrees sessionId loose as es) : es.map (Json.get · "event_id") =
      (List.range es.length).map fun n => .str (eventId sessionId (n + 1)) := by
  induction h with
  | nil => rfl
  | @kept as es a _ _ hid ih =>
    rw [List.map_append, ih, List.length_append, List.length_singleton, List.range_succ,
      List.map_append, List.map_singleton, List.map_singleton, hid]
  | dropped _ _ ih => exact ih

/-! ### What becomes of the disk -/

theorem settled_none (v : View F) : v.settled python none = v.bare python := by
  rw [View.settled, Option.toList_none, List.map_nil, List.append_nil]
  rfl

variable {owed : Option Owed} {v v' : View F} {b : Owed} {x : Nat × Members F} {event : Members F}

theorem Geometry.idle (h : Geometry python v owed) (hrecords : v'.records = v.records)
    (hsize : v.size ≤ v'.size)
    (hsidecar : ∀ raw, v'.sidecar = some raw → ∃ b ∈ owed, raw = b.payload) :
    Geometry python v' owed where
  inside x hx := by
    have hlt := h.inside x (hrecords ▸ hx)
    omega
  markers x hx := h.markers x (hrecords ▸ hx)
  bounded b hb := by
    obtain ⟨hlt, hle⟩ := h.bounded b hb
    exact ⟨hlt, by omega⟩
  same b hb range hrange := h.same b hb range (hrecords ▸ hrange)
  sidecar := hsidecar

theorem bare_congr (h : v'.records = v.records) : v'.bare python = v.bare python := by
  rw [View.bare, h, View.bare]

theorem settled_congr (h : v'.records = v.records) (owed : Option Owed) :
    v'.settled python owed = v.settled python owed := by
  rw [View.settled, h, View.settled]

theorem Geometry.forget (h : Geometry python v owed) (hsidecar : v.sidecar = none) :
    Geometry python v none where
  inside := h.inside
  markers := h.markers
  bounded b hb := by cases hb
  same b hb := by cases hb
  sidecar raw hraw := by
    rw [hsidecar] at hraw
    cases hraw

theorem Geometry.sidecar_none (h : Geometry python v none) : v.sidecar = none := by
  cases hside : v.sidecar with
  | none => rfl
  | some raw =>
    obtain ⟨b, hb, -⟩ := h.sidecar raw hside
    cases hb

structure Marks (v v' : View F) (b : Owed) (x : Nat × Members F) (python : Python F) : Prop where
  records : v'.records = v.records ++ [x]
  marker : isMarker python x.2 = true
  payload : Json.get x.2 "payload" = .obj b.payload
  behind : v.size ≤ x.1
  inside : x.1 < v'.size

theorem Geometry.mark (h : Geometry python v (some b)) (hmarks : Marks v v' b x python)
    (hsidecar : v'.sidecar = v.sidecar) : Geometry python v' (some b) := by
  obtain ⟨hlt, hstop⟩ := h.bounded b rfl
  have hbehind := hmarks.behind
  have hinside := hmarks.inside
  refine ⟨?_, ?_, ?_, ?_, ?_⟩
  · intro y hy
    rw [hmarks.records] at hy
    rcases List.mem_append.mp hy with hy | hy
    · have hy' := h.inside y hy
      omega
    · rw [List.mem_singleton.mp hy]
      exact hinside
  · intro y hy hmarker
    rw [hmarks.records] at hy
    rcases List.mem_append.mp hy with hy | hy
    · exact h.markers y hy hmarker
    · rw [List.mem_singleton.mp hy]
      exact ⟨b, hmarks.payload, hlt, by omega⟩
  · intro b' hb'
    cases hb'
    exact ⟨hlt, by omega⟩
  · intro b' hb' range hrange hstart
    cases hb'
    rw [hmarks.records, marked_append, marked_marker hmarks.marker hmarks.payload (by omega)] at hrange
    rcases List.mem_append.mp hrange with hrange | hrange
    · exact h.same b rfl range hrange hstart
    · rw [List.mem_singleton.mp hrange]
      rfl
  · rw [hsidecar]
    exact h.sidecar

/-- **With its marker in the log, the boundary is settled.** -/
theorem Geometry.bare_mark (h : Geometry python v (some b)) (hmarks : Marks v v' b x python) :
    v'.bare python = v.settled python (some b) := by
  obtain ⟨-, hstop⟩ := h.bounded b rfl
  have hbehind := hmarks.behind
  rw [View.bare, hmarks.records, marked_append,
    marked_marker hmarks.marker hmarks.payload (by omega), visible_append,
    visible_marker hmarks.marker, List.append_nil]
  rfl

theorem Geometry.settled_mark (h : Geometry python v (some b)) (hmarks : Marks v v' b x python) :
    v'.settled python (some b) = v.settled python (some b) := by
  obtain ⟨-, hstop⟩ := h.bounded b rfl
  have hbehind := hmarks.behind
  rw [View.settled, hmarks.records, marked_append,
    marked_marker hmarks.marker hmarks.payload (by omega), visible_append,
    visible_marker hmarks.marker, List.append_nil]
  refine visible_congr fun y _ => ?_
  show hides (marked python v.records ++ [b.range] ++ [b.range]) y.1 =
    hides (marked python v.records ++ [b.range]) y.1
  simp only [hides_append, Bool.or_assoc, Bool.or_self]

/-- An event is recorded where the log ended. -/
structure Grows (v v' : View F) (event : Members F) (python : Python F) : Prop where
  records : v'.records = v.records ++ [(v.size, event)]
  event : isMarker python event = false
  size : v.size < v'.size

theorem Geometry.marked_grows (hgrows : Grows v v' event python) :
    marked python v'.records = marked python v.records := by
  rw [hgrows.records, marked_append, marked_event hgrows.event, List.append_nil]

theorem Geometry.grow (h : Geometry python v none) (hgrows : Grows v v' event python)
    (hsidecar : v'.sidecar = none) :
    Geometry python v' none where
  inside x hx := by
    have hsize := hgrows.size
    rw [hgrows.records] at hx
    rcases List.mem_append.mp hx with hx | hx
    · have hlt := h.inside x hx
      omega
    · rw [List.mem_singleton.mp hx]
      exact hsize
  markers x hx hmarker := by
    rw [hgrows.records] at hx
    rcases List.mem_append.mp hx with hx | hx
    · exact h.markers x hx hmarker
    · rw [List.mem_singleton.mp hx, hgrows.event] at hmarker
      cases hmarker
  bounded b hb := by cases hb
  same b hb := by cases hb
  sidecar raw hraw := by
    rw [hsidecar] at hraw
    cases hraw

/-- **An event that is recorded is yielded, behind the others.** -/
theorem Geometry.bare_grow (h : Geometry python v owed) (hgrows : Grows v v' event python) :
    v'.bare python = v.bare python ++ [event] := by
  have hhides : hides (marked python v.records) v.size = false :=
    hides_behind fun range hrange => Nat.le_of_lt (h.marked_le range hrange)
  rw [View.bare, Geometry.marked_grows hgrows, hgrows.records, visible_append,
    visible_event hgrows.event, hhides]
  rfl

/-- The bytes behind a log are disowned. -/
theorem Geometry.disown (h : Geometry python v none) (h' : Geometry python v' none)
    (hmarked : marked python v'.records = marked python v.records) (hstart : b.start = v.size)
    (hstop : b.stop = v'.size) (hsize : v.size < v'.size) :
    Geometry python v' (some b) where
  inside := h'.inside
  markers := h'.markers
  bounded b' hb' := by
    cases hb'
    omega
  same b' hb' range hrange hrangeStart := by
    cases hb'
    rw [hmarked] at hrange
    -- a marker's range begins before it ends, and it ends before the log did
    obtain ⟨r, hr, hidentified⟩ := List.mem_filterMap.mp hrange
    obtain ⟨x, hx, rfl⟩ := List.mem_map.mp hr
    obtain ⟨hmem, hmarker⟩ := List.mem_filter.mp hx
    obtain ⟨b', hpayload, hlt, hle⟩ := h.markers x hmem hmarker
    rw [markerRange_of_payload hpayload hle] at hidentified
    cases hidentified
    have hinside := h.inside x hmem
    have hbegin : b'.start = b.start := hrangeStart
    omega
  sidecar raw hraw := by
    rw [h'.sidecar_none] at hraw
    cases hraw

theorem Geometry.settled_before (h : Geometry python v none) (hstart : b.start = v.size) :
    visible python (marked python v.records ++ [b.range]) v.records = v.bare python := by
  refine visible_congr fun x hx => ?_
  have hinside := h.inside x hx
  have hfree : hides [b.range] x.1 = false := by
    by_contra hhides
    obtain ⟨range, hmem, hle, -⟩ := hides_iff.mp (Bool.not_eq_false _ ▸ hhides)
    rw [List.mem_singleton.mp hmem] at hle
    have hle' : b.start ≤ x.1 := hle
    omega
  rw [hides_append, hfree, Bool.or_false]

/-- **What is disowned is not yielded, and nothing else is lost.** -/
theorem Geometry.settled_disown (h : Geometry python v none) (hgrows : Grows v v' event python)
    (hstart : b.start = v.size) (hlt : b.start < b.stop) :
    v'.settled python (some b) = v.bare python := by
  have hcovers : hides (marked python v.records ++ [b.range]) v.size = true :=
    hides_iff.mpr ⟨b.range, by simp, le_of_eq hstart, by show v.size < b.stop; omega⟩
  rw [View.settled, Geometry.marked_grows hgrows, hgrows.records, visible_append,
    visible_event hgrows.event]
  show visible python (marked python v.records ++ [b.range]) v.records ++
    (if hides (marked python v.records ++ [b.range]) v.size then [] else [event]) = _
  rw [hcovers, if_pos rfl, List.append_nil]
  exact h.settled_before hstart

end AlysisCode.SessionStore

/-! ### What writes leave on disk

What the writes of a store leave on disk, whatever becomes of them.

`Held` follows the events that are settled through the writes of a marker, a sidecar and an
event; the log may hold any part of what was written.
-/

namespace AlysisCode.SessionStore

open LineLog

variable {F : Type} [Json.Floats F] {python : Python F} {sessionId : String}

/-- The disk settles on these events, with the boundary that is owed. -/
structure Held (python : Python F) (es : List (Members F)) (d : Disk) (owed : Option Owed) :
    Prop where
  geometry : Geometry python d.view owed
  yields : d.view.settled python owed = es

theorem Fate.written_eq_take (fate : Fate) (text : List Char) :
    ∃ n, fate.written text = text.take n ∧ (fate = .done → n = text.length) := by
  cases fate with
  | done => exact ⟨text.length, List.take_length.symm, fun _ => rfl⟩
  | unopened => exact ⟨0, rfl, fun h => by cases h⟩
  | fails n | dies n => exact ⟨n, rfl, fun h => by cases h⟩

variable {es : List (Members F)} (d : Disk) {b : Owed}

theorem view_append_size (text : List Char) :
    (d.view (F := F)).size ≤ ((d.append text).view (F := F)).size := by
  show d.log.length ≤ (d.log ++ text).length
  rw [List.length_append]
  omega

/-! ### The marker -/

theorem view_marker (python : Python F) (sessionId : String) (d : Disk) (b : Owed) (ts : String) (fate : Fate) :
    (((d.append (fate.written (uncommittedMarkerLine sessionId ts
        (b.payload : Members F)))).view (F := F)).records = d.view.records ∧ fate ≠ .done) ∨
      Marks d.view (d.append (fate.written (uncommittedMarkerLine sessionId ts
        (b.payload : Members F)))).view b
        (d.log.length + 1, uncommittedMarker sessionId ts b.payload) python := by
  have hwritten : Written readLine (dumps (uncommittedMarker sessionId ts (b.payload : Members F)))
      (uncommittedMarker sessionId ts b.payload) :=
    written_dumps (distinct_marker (distinct_boundary _ _ _ _) _ _)
  obtain ⟨n, hn, hdone⟩ := fate.written_eq_take (uncommittedMarkerLine sessionId ts
    (b.payload : Members F))
  rw [hn]
  cases n with
  | zero =>
    refine .inl ⟨?_, ?_⟩
    · show iterLogLines (d.log ++ []) = iterLogLines d.log
      rw [List.append_nil]
    · intro hfate
      have hlength := hdone hfate
      rw [uncommittedMarkerLine, List.cons_append, List.length_cons] at hlength
      omega
  | succ n =>
    have hrecords : iterLogLines (F := F) (d.log ++ (uncommittedMarkerLine sessionId ts
        (b.payload : Members F)).take (n + 1)) = iterLogLines d.log ++
          if n < (dumps (uncommittedMarker sessionId ts (b.payload : Members F))).length then []
          else [(d.log.length + 1, uncommittedMarker sessionId ts b.payload)] := by
      rw [uncommittedMarkerLine, List.cons_append, List.take_succ_cons, iterLogLines,
        records_break reads_readLine, hwritten.recordsFrom_take reads_readLine]
      rfl
    by_cases hlt : n < (dumps (uncommittedMarker sessionId ts (b.payload : Members F))).length
    · rw [if_pos hlt, List.append_nil] at hrecords
      refine .inl ⟨hrecords, ?_⟩
      intro hfate
      have hlength := hdone hfate
      rw [uncommittedMarkerLine, List.cons_append, List.length_cons, List.length_append] at hlength
      omega
    · rw [if_neg hlt] at hrecords
      refine .inr ⟨hrecords, isMarker_marker _ _ _ _, rfl, Nat.le_succ _, ?_⟩
      have hmem : (d.log.length + 1, uncommittedMarker sessionId ts (b.payload : Members F)) ∈
          iterLogLines (d.log ++ (uncommittedMarkerLine sessionId ts
            (b.payload : Members F)).take (n + 1)) := by
        rw [hrecords]
        exact List.mem_append_right _ List.mem_cons_self
      exact offset_lt reads_readLine hmem

/-- What a marker's write leaves. -/
structure Marked (python : Python F) (es : List (Members F)) (d d' : Disk) (b : Owed)
    (fate : Fate) : Prop where
  done : fate = .done → Held python es d' none ∧ Closed d'.log
  other : fate ≠ .done → Held python es d' (some b) ∧ d'.sidecar = d.sidecar ∧
    (d'.view.bare python = d.view.bare python ∨ d'.view.bare python = es)

theorem Held.marker {d : Disk} (h : Held python es d (some b)) (sessionId ts : String) (fate : Fate) :
    Marked python es d (writeUncommittedMarker sessionId ts (b.payload : Members F) fate d).1 b
      fate := by
  have hview := view_marker python sessionId d b ts fate
  have hsize := view_append_size (F := F) d
    (fate.written (uncommittedMarkerLine sessionId ts (b.payload : Members F)))
  unfold writeUncommittedMarker
  dsimp only
  constructor
  · intro hfate
    rw [if_pos hfate]
    rcases hview with ⟨-, hne⟩ | hmarks
    · exact absurd hfate hne
    have hmarked := h.geometry.mark hmarks rfl
    refine ⟨⟨?_, ?_⟩, ?_⟩
    · have hidle : Geometry python (Disk.view { d.append (fate.written (uncommittedMarkerLine
          sessionId ts (b.payload : Members F))) with sidecar := none }) (some b) :=
        hmarked.idle rfl (le_refl _) fun raw hraw => by cases hraw
      exact hidle.forget rfl
    · rw [settled_none]
      exact (h.geometry.bare_mark hmarks).trans h.yields
    · subst hfate
      show Closed (d.log ++ ('\n' :: dumps _ ++ ['\n']))
      rw [← List.append_assoc]
      exact closed_append _
  · intro hfate
    rw [if_neg hfate]
    rcases hview with ⟨hrecords, -⟩ | hmarks
    · refine ⟨⟨h.geometry.idle hrecords hsize h.geometry.sidecar, ?_⟩, rfl,
        Or.inl (bare_congr hrecords)⟩
      rw [settled_congr hrecords, h.yields]
    · exact ⟨⟨h.geometry.mark hmarks rfl, (h.geometry.settled_mark hmarks).trans h.yields⟩, rfl,
        Or.inr ((h.geometry.bare_mark hmarks).trans h.yields)⟩

/-! ### The sidecar -/

theorem readUncommittedSidecar_some (text : List Char) :
    readUncommittedSidecar (F := F) { d with sidecar := some text } =
      loadsDict (String.ofList text) := rfl

theorem sidecar_written (b : Owed) (fate : Fate) : readUncommittedSidecar (F := F)
        { d with sidecar := some (fate.written (dumps (b.payload : Members F))) } = some b.payload ∨
      (readUncommittedSidecar (F := F)
        { d with sidecar := some (fate.written (dumps (b.payload : Members F))) } = none ∧
          fate ≠ .done) := by
  obtain ⟨n, hn, hdone⟩ := fate.written_eq_take (dumps (b.payload : Members F))
  have hdistinct := distinct_boundary (F := F) b.start b.stop b.eventType b.ts
  rw [hn, readUncommittedSidecar_some]
  by_cases hlt : n < (dumps (b.payload : Members F)).length
  · refine .inr ⟨?_, fun hfate => by have := hdone hfate; omega⟩
    exact loadsDict_cut hdistinct (List.take_append_drop n _) (by simp [hlt])
  · rw [List.take_of_length_le (by omega)]
    exact .inl (loadsDict_dumps hdistinct)

/-- What a sidecar's write leaves. -/
structure Sidecar (python : Python F) (es : List (Members F)) (d d' : Disk) (b : Owed)
    (fate : Fate) : Prop where
  held : Held python es d' (some b)
  bare : d'.view.bare python = d.view.bare python
  done : fate = .done → readUncommittedSidecar d' = some (b.payload : Members F)
  unopened : fate = .unopened → d' = d

theorem Held.sidecar {d : Disk} (h : Held python es d (some b)) (fate : Fate) :
    Sidecar python es d (writeUncommittedSidecar (b.payload : Members F) fate d).1 b fate := by
  unfold writeUncommittedSidecar
  split
  · rename_i hfate
    exact ⟨h, rfl, fun hdone => absurd (hfate.symm.trans hdone) (by decide), fun _ => rfl⟩
  · rename_i hfate
    have hread := sidecar_written (F := F) d b fate
    refine ⟨⟨h.geometry.idle rfl (le_refl _) ?_, h.yields⟩, rfl, ?_, fun h => absurd h hfate⟩
    · intro raw hraw
      refine ⟨b, rfl, ?_⟩
      rcases hread with hread | ⟨hread, -⟩
      · exact Option.some.inj (hraw.symm.trans hread)
      · cases hraw.symm.trans hread
    · intro hdone
      rcases hread with hread | ⟨-, hne⟩
      · exact hread
      · exact absurd hdone hne

/-! ### Both -/

/-- A sidecar that can be read is not written over in vain. -/
def BoundaryFates.Keeps (F : Type) [Json.Floats F] (fates : BoundaryFates) (d : Disk) : Prop :=
  fates.marker.answer = some false → (readUncommittedSidecar (F := F) d).isSome = true →
    fates.sidecar = .done ∨ fates.sidecar = .unopened

/-- What is left where the boundary does not stand in the log for certain. -/
structure Owing (python : Python F) (es : List (Members F)) (d d' : Disk) (b : Owed)
    (fates : BoundaryFates) : Prop where
  held : Held python es d' (some b)
  bare : d'.view.bare python = d.view.bare python ∨ d'.view.bare python = es
  kept : fates.Keeps F d → readUncommittedSidecar (F := F) d' = none →
    readUncommittedSidecar (F := F) d = none

inductive Records (python : Python F) (es : List (Members F)) (d : Disk) (b : Owed)
    (fates : BoundaryFates) : Disk × Option Recorded → Prop
  | marker {d' : Disk} (held : Held python es d' none) (closed : Closed d'.log) :
      Records python es d b fates (d', some .marker)
  | sidecar {d' : Disk} (owing : Owing python es d d' b fates)
      (hread : readUncommittedSidecar d' = some (b.payload : Members F)) :
      Records python es d b fates (d', some .sidecar)
  | none {d' : Disk} (owing : Owing python es d d' b fates) :
      Records python es d b fates (d', some .none)
  | died {d' : Disk} (owing : Owing python es d d' b fates) : Records python es d b fates (d', none)

theorem Held.records {d : Disk} (h : Held python es d (some b)) (sessionId : String)
    (fates : BoundaryFates) :
    Records python es d b fates
      (recordUncommittedBoundary sessionId (b.payload : Members F) fates d) := by
  have hmarked := h.marker sessionId fates.ts fates.marker
  have hanswer : (writeUncommittedMarker sessionId fates.ts (b.payload : Members F) fates.marker
      d).2 = fates.marker.answer := rfl
  unfold recordUncommittedBoundary
  generalize writeUncommittedMarker sessionId fates.ts (b.payload : Members F) fates.marker d = w
    at hmarked hanswer
  obtain ⟨d₁, answer⟩ := w
  obtain rfl : answer = fates.marker.answer := hanswer
  by_cases hdone : fates.marker = .done
  · obtain ⟨hheld, hclosed⟩ := hmarked.done hdone
    rw [hdone]
    exact .marker hheld hclosed
  obtain ⟨hheld, hside, hbare⟩ := hmarked.other hdone
  have hread : readUncommittedSidecar (F := F) d₁ = readUncommittedSidecar d := by
    unfold readUncommittedSidecar
    rw [hside]
  by_cases hdies : fates.marker.answer = none
  · rw [hdies]
    exact .died ⟨hheld, hbare, fun _ hnone => hread ▸ hnone⟩
  have hfailed : fates.marker.answer = some false := by
    cases hfate : fates.marker with
    | done => exact absurd hfate hdone
    | unopened | fails n => rfl
    | dies n =>
      rw [hfate] at hdies
      exact absurd rfl hdies
  rw [hfailed]
  dsimp only
  have hsidecar := hheld.sidecar fates.sidecar
  have howing : Owing python es d
      (writeUncommittedSidecar (b.payload : Members F) fates.sidecar d₁).1 b fates := by
    refine ⟨hsidecar.held, ?_, ?_⟩
    · rw [hsidecar.bare]
      exact hbare
    · intro hkeeps hnone
      by_contra hsome
      rcases hkeeps hfailed (Option.isSome_iff_ne_none.mpr hsome) with hfate | hfate
      · rw [hsidecar.done hfate] at hnone
        cases hnone
      · rw [hsidecar.unopened hfate, hread] at hnone
        exact hsome hnone
  have hanswer : (writeUncommittedSidecar (b.payload : Members F) fates.sidecar d₁).2 =
      fates.sidecar.answer := rfl
  have hdone' := hsidecar.done
  generalize writeUncommittedSidecar (b.payload : Members F) fates.sidecar d₁ = w
    at howing hanswer hdone'
  obtain ⟨d₂, answer⟩ := w
  obtain rfl : answer = fates.sidecar.answer := hanswer
  cases hfate : fates.sidecar with
  | done => exact .sidecar howing (hdone' hfate)
  | unopened | fails n => exact .none howing
  | dies n => exact .died howing

end AlysisCode.SessionStore
