/-
What the writer writes is what the reader reads.

An event, a marker and a sidecar are read back as they were written, no part of one is read as
a record, and none breaks its line.
-/
import AlysisCode.SessionStore.Append

namespace AlysisCode.SessionStore

variable {F : Type}

/-! ### Lines -/

section Lines

variable [Json.Floats F]

theorem strip_toList (t : List Char) :
    (strip (String.ofList t)).toList = Text.stripWhere isSpace t := by
  show (String.ofList (Text.stripWhere isSpace (String.ofList t).toList)).toList = _
  rw [String.toList_ofList, String.toList_ofList]

theorem strip_ofList (t : List Char) :
    strip (String.ofList t) = String.ofList (Text.stripWhere isSpace t) := by
  rw [← strip_toList, String.ofList_toList]

theorem reads_readLine : LineLog.Reads (readLine (F := F)) where
  empty := by
    have hstrip : strip (String.ofList []) = "" := by decide
    rw [readLine, hstrip]
    rfl
  ended line := by
    have hspace : isSpace '\n' = true := by decide
    have hstrip : strip (String.ofList (line ++ ['\n'])) = strip (String.ofList line) := by
      rw [strip_ofList, strip_ofList, Text.stripWhere_concat hspace]
    rw [readLine, readLine, hstrip]

variable (record : Members F)

theorem dumps_eq : dumps record = '\x7b' :: Json.renderMembers asciiStyle record ++ ['\x7d'] := by
  rw [dumps, Json.dumps, String.toList_ofList]
  rfl

theorem dumps_render : dumps record = (Json.obj record).render asciiStyle := by
  rw [dumps, Json.dumps, String.toList_ofList]
  rfl

theorem bare_dumps : Text.Bare isSpace (dumps record) := by
  rw [dumps_eq]
  refine ⟨?_, ?_⟩
  · intro c hc
    cases hc
    decide
  · intro c hc
    rw [List.getLast?_concat] at hc
    cases hc
    decide

theorem loadsDict_dumps {record : Members F} (h : (Json.obj record).Distinct) :
    loadsDict (String.ofList (dumps record)) = some record := by
  have hloads : Json.loads (Json.dumps asciiStyle (.obj record)) = some (.obj record) :=
    Json.loads_dumps h
  rw [loadsDict, dumps, String.ofList_toList, hloads]

theorem loadsDict_cut {record : Members F} (h : (Json.obj record).Distinct) {p q : List Char}
    (happend : p ++ q = dumps record) (hq : q ≠ []) :
    loadsDict (F := F) (String.ofList p) = none := by
  rw [dumps_render] at happend
  unfold loadsDict
  split
  · rename_i members hloads
    exact absurd hloads (Json.loads_prefix h happend hq members)
  · rfl

/-- **A record is read back, and no part of it is.** -/
theorem written_dumps {record : Members F} (h : (Json.obj record).Distinct) :
    LineLog.Written readLine (dumps record) record where
  whole := by
    have hstrip : strip (String.ofList (dumps record)) = String.ofList (dumps record) := by
      rw [strip_ofList, (bare_dumps record).stripWhere_eq]
    have hne : String.ofList (dumps record) ≠ "" := by
      intro hempty
      have hlist := congrArg String.toList hempty
      rw [String.toList_ofList, dumps_eq] at hlist
      cases hlist
    rw [readLine, hstrip, if_neg hne, loadsDict_dumps h]
  cut p q happend hq := by
    have hhead : ∀ c ∈ p.head?, isSpace c = false := by
      intro c hc
      refine (bare_dumps record).first c ?_
      rw [← happend, List.head?_append, hc]
      rfl
    obtain ⟨tail, htail⟩ := Text.stripWhere_prefix hhead
    have hcut : loadsDict (F := F) (String.ofList (Text.stripWhere isSpace p)) = none := by
      refine loadsDict_cut (q := tail ++ q) h ?_ (by simp [hq])
      rw [← List.append_assoc, htail, happend]
    rw [readLine, strip_ofList, hcut]
    exact ite_self none
  oneLine := by
    intro hmem
    rw [dumps_render] at hmem
    have hprinted := Json.printed_render asciiStyle (.obj record) '\n' hmem
    exact absurd hprinted (by decide)

end Lines

/-! ### Boundaries -/

theorem distinct_boundary (start stop : Nat) (eventType ts : String) :
    (Json.obj (boundary start stop eventType ts : Members F)).Distinct := by
  refine .obj (show ["from_offset", "to_offset", "event_type", "ts"].Nodup by decide) ?_
  intro m hm
  simp only [boundary, List.mem_cons, List.not_mem_nil, or_false] at hm
  rcases hm with rfl | rfl | rfl | rfl
  · exact .int
  · exact .int
  · exact .str
  · exact .str

theorem distinct_marker {boundary : Members F} (h : (Json.obj boundary).Distinct)
    (sessionId ts : String) : (Json.obj (uncommittedMarker sessionId ts boundary)).Distinct := by
  refine .obj (show ["type", "ts", "session_id", "payload"].Nodup by decide) ?_
  intro m hm
  simp only [uncommittedMarker, List.mem_cons, List.not_mem_nil, or_false] at hm
  rcases hm with rfl | rfl | rfl | rfl
  · exact .str
  · exact .str
  · exact .str
  · exact h

/-! ### Events -/

/-- The names of the members of an event, in order; those that are optional may be missing. -/
def eventKeys : List String :=
  ["type", "ts", "session_id", "cwd", "repo_root", "pid", "payload"] ++
  ["workspace_root", "owner", "focus_dir", "git_root", "workspace_kind", "binding_source",
    "binding_requested_path", "binding_risk_level", "binding_created_path", "runtime_kind",
    "active_workdir", "active_workdir_relpath"] ++ ["event_id"]

theorem keys_optionalMember (key : String) (value : Option (Json F)) :
    ((optionalMember key value).map (·.1)).Sublist [key] := by
  cases value with
  | none => exact List.nil_sublist _
  | some v => exact List.Sublist.refl _

variable (call : AppendCall F) (sessionId : String) (n : Nat)

theorem keys_event : ((call.event sessionId n).map (·.1)).Sublist eventKeys := by
  have hoptional : ((call.attributes.optional : Members F).map (·.1)).Sublist
      (["workspace_root"] ++ ["owner"] ++ ["focus_dir"] ++ ["git_root"] ++ ["workspace_kind"] ++
        ["binding_source"] ++ ["binding_requested_path"] ++ ["binding_risk_level"] ++
        ["binding_created_path"] ++ ["runtime_kind"] ++ ["active_workdir"] ++
        ["active_workdir_relpath"]) := by
    unfold Attributes.optional
    simp only [List.map_append]
    exact (((((((((((keys_optionalMember _ _).append (keys_optionalMember _ _)).append
      (keys_optionalMember _ _)).append (keys_optionalMember _ _)).append
      (keys_optionalMember _ _)).append (keys_optionalMember _ _)).append
      (keys_optionalMember _ _)).append (keys_optionalMember _ _)).append
      (keys_optionalMember _ _)).append (keys_optionalMember _ _)).append
      (keys_optionalMember _ _)).append (keys_optionalMember _ _)
  unfold AppendCall.event
  rw [List.map_append, List.map_append]
  exact ((List.Sublist.refl _).append hoptional).append (List.Sublist.refl _)

theorem nodup_event : ((call.event sessionId n).map (·.1)).Nodup :=
  (show eventKeys.Nodup by decide).sublist (keys_event call sessionId n)

theorem distinct_optional {key : String} {value : Option (Json F)}
    (h : ∀ v ∈ value, v.Distinct) : ∀ m ∈ optionalMember key value, m.2.Distinct := by
  intro m hm
  obtain ⟨v, hv, rfl⟩ := List.mem_map.mp hm
  exact h v (Option.mem_toList.mp hv)

theorem distinct_event : (Json.obj (call.event sessionId n)).Distinct := by
  refine .obj (nodup_event call sessionId n) ?_
  have htext (key : String) (value : Option String) :
      ∀ m ∈ optionalMember (F := F) key (value.map .str), m.2.Distinct :=
    distinct_optional fun v hv => by
      obtain ⟨s, -, rfl⟩ := Option.map_eq_some_iff.mp hv
      exact .str
  have hbool (key : String) (value : Option Bool) :
      ∀ m ∈ optionalMember (F := F) key (value.map .bool), m.2.Distinct :=
    distinct_optional fun v hv => by
      obtain ⟨b, -, rfl⟩ := Option.map_eq_some_iff.mp hv
      exact .bool
  have hoptional : ∀ m ∈ (call.attributes.optional : Members F), m.2.Distinct := by
    unfold Attributes.optional
    simp only [List.forall_mem_append]
    exact ⟨⟨⟨⟨⟨⟨⟨⟨⟨⟨⟨htext _ _, htext _ _⟩, htext _ _⟩, htext _ _⟩, htext _ _⟩, htext _ _⟩,
      htext _ _⟩, htext _ _⟩, hbool _ _⟩, htext _ _⟩, htext _ _⟩, htext _ _⟩
  unfold AppendCall.event
  simp only [List.forall_mem_append, List.forall_mem_cons]
  refine ⟨⟨⟨.str, .str, .str, .str, ?_, .int, call.distinct, by simp⟩, hoptional⟩, .str, by simp⟩
  cases call.attributes.repoRoot with
  | none => exact .null
  | some root => exact .str

theorem isMarker_event (python : Python F) (call : AppendCall F) (sessionId : String) (n : Nat) :
    isMarker python (call.event sessionId n) = false := by
  have hget : Json.get (call.event sessionId n) "type" = .str call.eventType := rfl
  rw [isMarker, hget]
  by_cases hempty : call.eventType = ""
  · rw [hempty]
    rfl
  · rw [python.orElse_str hempty]
    exact beq_eq_false_iff_ne.mpr call.notMarker

theorem get_eventId :
    Json.get (call.event sessionId n) "event_id" = .str (eventId sessionId n) := by
  have hmem : ("event_id", Json.str (eventId sessionId n)) ∈ call.event sessionId n := by
    unfold AppendCall.event
    exact List.mem_append_right _ List.mem_cons_self
  rw [Json.get, (Json.lookup_eq_some_iff (nodup_event call sessionId n)).mpr hmem]
  rfl

theorem isMarker_marker (python : Python F) (sessionId ts : String) (boundary : Members F) :
    isMarker python (uncommittedMarker sessionId ts boundary) = true := by
  have hget : Json.get (uncommittedMarker sessionId ts boundary) "type" =
      .str sessionStoreUncommittedEvent := rfl
  rw [isMarker, hget, python.orElse_str (by decide)]
  rfl

end AlysisCode.SessionStore

/-! ### Replays

What a replay of the log yields, while the log grows.

A boundary covers the bytes of the attempt that failed and nothing else: what is recorded later
begins behind it.  So the replay is the records before, with the failed attempt's among them
only as long as neither a marker nor the sidecar disowns it.
-/

namespace AlysisCode.SessionStore

variable {F : Type}

/-- A boundary that the store owes the log. -/
structure Owed where
  start : Nat
  stop : Nat
  eventType : String
  ts : String

def Owed.payload (b : Owed) : Members F := boundary b.start b.stop b.eventType b.ts

def Owed.range (b : Owed) : Nat × Nat := (b.start, b.stop)

/-- What a reader sees of the disk. -/
structure View (F : Type) where
  records : List (Nat × Members F)
  size : Nat
  sidecar : Option (Members F)

variable {offset : Nat} (python : Python F) {records : List (Nat × Members F)}

/-- The ranges of the markers. -/
def marked (records : List (Nat × Members F)) : List (Nat × Nat) :=
  (markerRanges python records).filterMap (·.identified)

/-- The records that no range covers, without the markers. -/
def visible (ranges : List (Nat × Nat)) (records : List (Nat × Members F)) : List (Members F) :=
  (records.filter fun x => !isMarker python x.2 && !hides ranges x.1).map (·.2)

/-- What is read without the sidecar. -/
def View.bare (v : View F) : List (Members F) :=
  visible python (marked python v.records) v.records

/-- What is read once the boundary that is owed stands in the log. -/
def View.settled (v : View F) (owed : Option Owed) : List (Members F) :=
  visible python (marked python v.records ++ owed.toList.map Owed.range) v.records

structure Geometry (python : Python F) (v : View F) (owed : Option Owed) : Prop where
  inside : ∀ x ∈ v.records, x.1 < v.size
  markers : ∀ x ∈ v.records, isMarker python x.2 = true →
    ∃ b : Owed, Json.get x.2 "payload" = .obj b.payload ∧ b.start < b.stop ∧ b.stop ≤ x.1
  bounded : ∀ b ∈ owed, b.start < b.stop ∧ b.stop ≤ v.size
  /-- The owed boundary may stand in the log already. -/
  same : ∀ b ∈ owed, ∀ range ∈ marked python v.records, range.1 = b.start → range.2 = b.stop
  sidecar : ∀ raw, v.sidecar = some raw → ∃ b ∈ owed, raw = b.payload

variable {python : Python F}

/-! ### Ranges -/

theorem hides_append (ranges ranges' : List (Nat × Nat)) (offset : Nat) :
    hides (ranges ++ ranges') offset = (hides ranges offset || hides ranges' offset) :=
  List.any_append

variable {ranges : List (Nat × Nat)} {x : Nat × Members F} {owed : Option Owed}

theorem hides_iff :
    hides ranges offset = true ↔ ∃ range ∈ ranges, range.1 ≤ offset ∧ offset < range.2 := by
  simp [hides]

theorem hides_behind (h : ∀ range ∈ ranges, range.2 ≤ offset) : hides ranges offset = false := by
  by_contra hhides
  obtain ⟨range, hmem, -, hlt⟩ := hides_iff.mp (Bool.not_eq_false _ ▸ hhides)
  have hle := h range hmem
  omega

theorem visible_append (ranges : List (Nat × Nat)) (records records' : List (Nat × Members F)) :
    visible python ranges (records ++ records') =
      visible python ranges records ++ visible python ranges records' := by
  rw [visible, List.filter_append, List.map_append]
  rfl

theorem visible_congr {ranges' : List (Nat × Nat)}
    (h : ∀ x ∈ records, hides ranges x.1 = hides ranges' x.1) :
    visible python ranges records = visible python ranges' records := by
  unfold visible
  congr 1
  exact List.filter_congr fun x hx => by rw [h x hx]

theorem visible_marker (h : isMarker python x.2 = true) : visible python ranges [x] = [] := by
  simp [visible, h]

theorem visible_event (h : isMarker python x.2 = false) :
    visible python ranges [x] = if hides ranges x.1 then [] else [x.2] := by
  cases hhides : hides ranges x.1 with
  | true => simp [visible, hhides]
  | false => simp [visible, h, hhides]

/-! ### Markers -/

theorem markerRange_of_payload {record : Members F} {b : Owed}
    (h : Json.get record "payload" = .obj b.payload) (hstop : b.stop ≤ offset) :
    markerRange offset record = { start := some b.start, stop := b.stop, source := .marker } := by
  have hboundary : boundaryOf record = b.payload := by rw [boundaryOf, h]
  have hoffset (n : Nat) : offsetOrNone (.int n : Json F) = some n := by
    rw [offsetOrNone, if_neg (by omega)]
    rfl
  have hfrom : offsetOrNone (Json.get (b.payload : Members F) "from_offset") = some b.start :=
    hoffset b.start
  have hto : offsetOrNone (Json.get (b.payload : Members F) "to_offset") = some b.stop :=
    hoffset b.stop
  rw [markerRange, hboundary, hfrom, hto]
  dsimp only
  rw [Nat.min_eq_left hstop]

theorem marked_append (records records' : List (Nat × Members F)) :
    marked python (records ++ records') = marked python records ++ marked python records' := by
  unfold marked markerRanges
  rw [List.filter_append, List.map_append, List.filterMap_append]

theorem marked_event (h : isMarker python x.2 = false) : marked python [x] = [] := by
  simp [marked, markerRanges, h]

theorem marked_marker (h : isMarker python x.2 = true) {b : Owed}
    (hpayload : Json.get x.2 "payload" = .obj b.payload) (hstop : b.stop ≤ x.1) :
    marked python [x] = [b.range] := by
  have hrange := markerRange_of_payload hpayload hstop
  simp [marked, markerRanges, h, hrange, UncommittedRange.identified, Owed.range]

theorem Geometry.marked_le {v : View F} (h : Geometry python v owed) :
    ∀ range ∈ marked python v.records, range.2 < v.size := by
  intro range hrange
  obtain ⟨r, hr, hidentified⟩ := List.mem_filterMap.mp hrange
  obtain ⟨x, hx, rfl⟩ := List.mem_map.mp hr
  obtain ⟨hmem, hmarker⟩ := List.mem_filter.mp hx
  obtain ⟨b, hpayload, -, hstop⟩ := h.markers x hmem hmarker
  rw [markerRange_of_payload hpayload hstop] at hidentified
  cases hidentified
  have hinside := h.inside x hmem
  show b.stop < v.size
  omega

theorem Geometry.start_isSome {v : View F} (h : Geometry python v owed) :
    ∀ range ∈ markerRanges python v.records, range.start.isSome = true := by
  intro range hrange
  obtain ⟨x, hx, rfl⟩ := List.mem_map.mp hrange
  obtain ⟨hmem, hmarker⟩ := List.mem_filter.mp hx
  obtain ⟨b, hpayload, -, hstop⟩ := h.markers x hmem hmarker
  rw [markerRange_of_payload hpayload hstop]
  rfl

/-! ### The replay -/

theorem flatMap_yielded (ranges : List (Nat × Nat)) (h : ∀ x ∈ records, isMarker python x.2 = true →
      ∃ b : Owed, Json.get x.2 "payload" = .obj b.payload) :
    records.flatMap (yielded python ranges) = visible python ranges records := by
  induction records with
  | nil => rfl
  | cons x rest ih =>
    have hrest := ih fun y hy => h y (List.mem_cons_of_mem x hy)
    have hx : yielded python ranges x = visible python ranges [x] := by
      by_cases hmarker : isMarker python x.2 = true
      · obtain ⟨b, hpayload⟩ := h x List.mem_cons_self hmarker
        have hfrom : offsetOrNone (Json.get (b.payload : Members F) "from_offset") ≠ none := by
          have hint : offsetOrNone (Json.get (b.payload : Members F) "from_offset") =
              if (b.start : Int) < 0 then none else some (b.start : Int).toNat := rfl
          rw [hint, if_neg (by omega)]
          exact Option.some_ne_none _
        rw [yielded, if_pos hmarker, hpayload, visible_marker hmarker]
        exact if_neg hfrom
      · rw [yielded, if_neg hmarker, visible_event (by simpa using hmarker)]
    rw [List.flatMap_cons, hrest, hx, ← visible_append]
    rfl

/-- The disk as a reader sees it. -/
def Disk.view [Json.Floats F] (disk : Disk) : View F where
  records := iterLogLines disk.log
  size := disk.log.length
  sidecar := readUncommittedSidecar disk

/-- **The replay yields what is settled, and without a sidecar what the log alone says.** -/
theorem readSessionEvents_eq [Json.Floats F] {disk : Disk} (h : Geometry python disk.view owed) :
    readSessionEvents python disk =
      if (readUncommittedSidecar (F := F) disk).isSome then disk.view.settled python owed
      else disk.view.bare python := by
  have hyielded (ranges : List (Nat × Nat)) :
      (iterLogLines disk.log).flatMap (yielded python ranges) =
        visible python ranges (iterLogLines disk.log) :=
    flatMap_yielded ranges fun x hx hmarker => by
      obtain ⟨b, hpayload, -⟩ := h.markers x hx hmarker
      exact ⟨b, hpayload⟩
  have hmarkers : ∀ range ∈ markerRanges python (iterLogLines disk.log),
      unidentifiedSidecar (F := F) range = [] := by
    intro range hrange
    have hsome := h.start_isSome range hrange
    refine if_neg fun hnone => ?_
    rw [hnone.1] at hsome
    cases hsome
  have hquiet (ranges : List UncommittedRange)
      (hall : ∀ range ∈ ranges, unidentifiedSidecar (F := F) range = []) :
      ranges.flatMap (unidentifiedSidecar (F := F)) = [] :=
    List.flatMap_eq_nil_iff.mpr hall
  unfold readSessionEvents uncommittedRanges
  dsimp only
  rw [hyielded]
  cases hside : readUncommittedSidecar (F := F) disk with
  | none =>
    rw [Option.isSome_none, if_neg Bool.false_ne_true, List.append_nil, hquiet _ hmarkers,
      List.append_nil]
    rfl
  | some raw =>
    obtain ⟨b, hb, rfl⟩ := h.sidecar raw hside
    have howed : owed = some b := hb
    subst howed
    have hfrom : offsetOrNone (Json.get (b.payload : Members F) "from_offset") = some b.start := by
      show (if (b.start : Int) < 0 then none else some (b.start : Int).toNat) = _
      rw [if_neg (by omega)]
      rfl
    have hto : offsetOrNone (Json.get (b.payload : Members F) "to_offset") = some b.stop := by
      show (if (b.stop : Int) < 0 then none else some (b.stop : Int).toNat) = _
      rw [if_neg (by omega)]
      rfl
    rw [Option.isSome_some, if_pos rfl]
    unfold sidecarRange
    dsimp only
    rw [hfrom, hto, Option.getD_some]
    split
    · rename_i hstart
      rw [List.append_nil, hquiet _ hmarkers, List.append_nil]
      -- the marker that begins there has the same end
      obtain ⟨range, hrange, hrangeStart⟩ := List.mem_map.mp hstart
      have hmem : (b.start, range.stop) ∈ marked python (iterLogLines disk.log) :=
        List.mem_filterMap.mpr ⟨range, hrange, by rw [UncommittedRange.identified, hrangeStart]; rfl⟩
      have hstop : range.stop = b.stop := h.same b rfl _ hmem rfl
      rw [hstop] at hmem
      refine visible_congr fun x _ => ?_
      show hides (marked python (iterLogLines disk.log)) x.1 =
        hides (marked python (iterLogLines disk.log) ++ [b.range]) x.1
      rw [hides_append]
      by_cases hcovers : hides [b.range] x.1 = true
      · have hhides : hides (marked python (iterLogLines disk.log)) x.1 = true := by
          obtain ⟨range', hrange', hle, hlt⟩ := hides_iff.mp hcovers
          rw [List.mem_singleton.mp hrange'] at hle hlt
          exact hides_iff.mpr ⟨_, hmem, hle, hlt⟩
        rw [hhides, hcovers]
        rfl
      · rw [Bool.not_eq_true] at hcovers
        rw [hcovers, Bool.or_false]
    · rw [List.filterMap_append, List.flatMap_append, hquiet _ hmarkers]
      have hnew : unidentifiedSidecar (F := F)
          { start := some b.start, stop := b.stop, source := .sidecar } = [] :=
        if_neg fun hnone => by cases hnone.1
      rw [List.flatMap_singleton, hnew, List.append_nil, List.append_nil]
      rfl

end AlysisCode.SessionStore
