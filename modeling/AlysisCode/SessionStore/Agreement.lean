/-
Replay agrees with publication, and ids identify events.

Both need that no append begins behind a line that was cut off: its record would stand on that
line and be lost, and its id given again.  The first needs also that a sidecar which holds a
boundary is not destroyed by the attempt to write it again.
-/
import AlysisCode.SessionStore.Durability

namespace AlysisCode.SessionStore

open LineLog Runs

variable {F : Type} [Json.Floats F] {python : Python F} {sessionId : String}

/-! ### Runs that lose an event, and bring one back -/

theorem iterLogLines_nil : iterLogLines (F := F) [] = [] := entry_empty reads_readLine 0

theorem readSessionEvents_plain {d : Disk}
    (hmarkers : ∀ x ∈ iterLogLines d.log, isMarker python x.2 = false)
    (hsidecar : readUncommittedSidecar (F := F) d = none) :
    readSessionEvents python d = (iterLogLines d.log).map (·.2) := by
  have hranges : uncommittedRanges python d = [] := by
    have hnone : (iterLogLines d.log).filter (fun x => isMarker python x.2) = [] :=
      List.filter_eq_nil_iff.mpr fun x hx => by rw [hmarkers x hx]; exact Bool.false_ne_true
    unfold uncommittedRanges markerRanges
    rw [hsidecar, hnone]
    rfl
  have hyielded : ∀ x ∈ iterLogLines d.log, yielded python [] x = [x.2] := by
    intro x hx
    rw [yielded, hmarkers x hx, if_neg Bool.false_ne_true]
    rfl
  unfold readSessionEvents
  dsimp only
  rw [hranges, List.filterMap_nil, List.flatMap_nil, List.append_nil]
  generalize iterLogLines (F := F) d.log = records at hyielded
  induction records with
  | nil => rfl
  | cons x rest ih =>
    rw [List.flatMap_cons, hyielded x List.mem_cons_self,
      ih fun y hy => hyielded y (List.mem_cons_of_mem x hy)]
    rfl

variable (call : AppendCall F)

theorem iterLogLines_event (n : Nat) : iterLogLines (dumps (call.event sessionId n) ++ ['\n']) =
      [(0, call.event sessionId n)] := by
  have htake := (written_dumps (distinct_event call sessionId n)).recordsFrom_take reads_readLine 0
    ((dumps (call.event sessionId n)).length + 1)
  rwa [if_neg (by omega), List.take_of_length_le (by simp)] at htake

theorem readLine_torn (record : Members F) : readLine (F := F) ('\x7b' :: dumps record) = none := by
  have hbare : Text.Bare isSpace ('\x7b' :: dumps record) := by
    refine ⟨?_, ?_⟩
    · intro c hc
      cases hc
      decide
    · rw [dumps_eq, ← List.cons_append, List.getLast?_concat]
      intro c hc
      cases hc
      decide
  have hloads : loadsDict (F := F) (String.ofList ('\x7b' :: dumps record)) = none := by
    rw [dumps_eq, loadsDict, List.cons_append, Json.loads_open_open]
  rw [readLine, strip_ofList, hbare.stripWhere_eq, hloads]
  exact ite_self none

theorem iterLogLines_torn {record : Members F} (h : (Json.obj record).Distinct) :
    iterLogLines (F := F) (['\x7b'] ++ (dumps record ++ ['\n'])) = [] := by
  have hread := readLine_torn record
  have hline : '\n' ∉ '\x7b' :: dumps record := by
    rw [List.mem_cons, not_or]
    exact ⟨by decide, (written_dumps h).oneLine⟩
  have hlog : ['\x7b'] ++ (dumps record ++ ['\n']) = ('\x7b' :: dumps record) ++ '\n' :: [] :=
    rfl
  rw [hlog]
  generalize '\x7b' :: dumps record = line at hread hline
  rw [iterLogLines, records_break reads_readLine, records, recordsFrom_line hline,
    List.nil_append, entry, hread, recordsFrom, entry_empty reads_readLine]
  rfl

theorem exec_opened {d : Disk} (h : readUncommittedSidecar (F := F) d = none) :
    exec python sessionId (.opened {}) ⟨d, none⟩ =
      (⟨d, some { events := readSessionEvents python d }⟩, none) := by
  unfold exec openStore
  dsimp only
  rw [h]
  rfl

theorem exec_append (d : Disk) (es : List (Members F)) :
    exec python sessionId (.append call {}) ⟨d, some { events := es }⟩ =
      (⟨d.append (dumps (call.event sessionId (es.length + 1)) ++ ['\n']),
          some { events := es ++ [call.event sessionId (es.length + 1)] }⟩,
        some ⟨call.event sessionId (es.length + 1), .returned⟩) := rfl

theorem exec_append_torn (d : Disk) (es : List (Members F)) :
    exec python sessionId (.append call { write := .dies 1 }) ⟨d, some { events := es }⟩ =
      (⟨d.append ['\x7b'], none⟩, some ⟨call.event sessionId (es.length + 1), .inFlight⟩) := by
  have htake : (dumps (call.event sessionId (es.length + 1)) ++ ['\n']).take 1 = ['\x7b'] := by
    rw [dumps_eq]
    rfl
  show (_, _) = _
  rw [← htake]
  rfl

/-- A process dies in its first append, and the next one appends a message. -/
def tornOps (sessionId : String) : List (Op F × Option (Attempt F)) :=
  [(.opened {}, none),
    (.append call { write := .dies 1 }, some ⟨call.event sessionId 1, .inFlight⟩),
    (.opened {}, none), (.append call {}, some ⟨call.event sessionId 1, .returned⟩)]

theorem replay_nil : readSessionEvents (F := F) python ⟨[], none⟩ = [] := by
  rw [readSessionEvents_plain]
  · rw [iterLogLines_nil]
    rfl
  · intro x hx
    rw [iterLogLines_nil] at hx
    cases hx
  · rfl

theorem replay_brace : readSessionEvents (F := F) python ⟨['\x7b'], none⟩ = [] := by
  have hwritten : Written readLine (dumps ([] : Members F)) [] :=
    written_dumps (.obj List.nodup_nil (by simp))
  have hread : readLine (F := F) ['\x7b'] = none :=
    hwritten.cut ['\x7b'] ['\x7d'] (by rw [dumps_eq]; rfl) (by simp)
  have hlines : iterLogLines (F := F) ['\x7b'] = [] := by
    rw [iterLogLines, records, recordsFrom_line (by decide), List.nil_append, entry, hread]
    rfl
  rw [readSessionEvents_plain]
  · rw [hlines]
    rfl
  · intro x hx
    rw [hlines] at hx
    cases hx
  · rfl

theorem replay_torn : readSessionEvents python
      ⟨['\x7b'] ++ (dumps (call.event sessionId 1) ++ ['\n']), none⟩ = [] := by
  have hlines := iterLogLines_torn (distinct_event call sessionId 1)
  rw [readSessionEvents_plain]
  · rw [hlines]
    rfl
  · intro x hx
    rw [hlines] at hx
    cases hx
  · rfl

theorem torn_run : Run (Step python sessionId) World.start (tornOps call sessionId)
      ⟨⟨['\x7b'] ++ (dumps (call.event sessionId 1) ++ ['\n']), none⟩,
        some { events := [call.event sessionId 1] }⟩ := by
  have hfirst : exec python sessionId (.opened {}) (World.start : World F) =
      (⟨⟨[], none⟩, some { events := [] }⟩, none) := by
    rw [World.start, exec_opened rfl, replay_nil]
  have hsecond : exec python sessionId (.opened {}) (⟨⟨['\x7b'], none⟩, none⟩ : World F) =
      (⟨⟨['\x7b'], none⟩, some { events := [] }⟩, none) := by
    rw [exec_opened rfl, replay_brace]
  exact (((Run.nil.snoc hfirst).snoc (exec_append_torn call ⟨[], none⟩ [])).snoc hsecond).snoc
    (exec_append call ⟨['\x7b'], none⟩ [])

/-- The sidecar of a refused append is written over in vain when the store is closed. -/
def vainOps (sessionId : String) : List (Op F × Option (Attempt F)) :=
  [(.opened {}, none), (.append call
      { write := .fails ((dumps (call.event sessionId 1) ++ ['\n']).length)
        truncates := false
        boundary := { marker := .unopened } },
      some ⟨call.event sessionId 1, .refused⟩),
    (.close { marker := .unopened, sidecar := .fails 0 }, none)]

theorem exec_append_vain {text : List Char}
    (htext : dumps (call.event sessionId 1) ++ ['\n'] = text) (hlong : ¬text.length ≤ 0) :
    exec python sessionId (.append call
          { write := .fails text.length, truncates := false, boundary := { marker := .unopened } })
        ⟨⟨[], none⟩, some { events := [] }⟩ =
      (⟨⟨text, some (dumps (boundary 0 text.length call.eventType "" : Members F))⟩,
          some { events := [],
                 pendingUncommitted := some (boundary 0 text.length call.eventType ""),
                 handle := false }⟩,
        some ⟨call.event sessionId 1, .refused⟩) := by
  let fates : AppendFates :=
    { write := .fails text.length, truncates := false, boundary := { marker := .unopened } }
  have hwritten : append sessionId call fates { events := [] } ⟨[], none⟩ =
      discardPartialRecord sessionId call fates 0 { events := [] } ⟨text, none⟩ := by
    have htake : fates.write.written (dumps (call.event sessionId 1) ++ ['\n']) = text := by
      rw [htext]
      exact List.take_length
    unfold append writeRecord
    rw [if_neg (by simp), List.length_nil, htake]
    rfl
  have hdiscard : discardPartialRecord sessionId call fates 0 { events := [] } ⟨text, none⟩ =
      (⟨⟨text, some (dumps (boundary 0 text.length call.eventType "" : Members F))⟩,
          some { events := [],
                 pendingUncommitted := some (boundary 0 text.length call.eventType ""),
                 handle := false }⟩, .refused) := by
    unfold discardPartialRecord
    rw [if_neg hlong, if_neg Bool.false_ne_true]
    unfold recordUncommittedBoundary writeUncommittedMarker
    simp only [fates, Fate.written, Disk.append, List.append_nil, Fate.answer]
    rfl
  unfold exec
  dsimp only
  rw [hwritten, hdiscard]
  rfl

theorem exec_close_vain (text sidecar : List Char) (owed : Members F) :
    exec python sessionId (.close { marker := .unopened, sidecar := .fails 0 })
        ⟨⟨text, some sidecar⟩,
          some { events := [], pendingUncommitted := some owed, handle := false }⟩ =
      (⟨⟨text, some []⟩, none⟩, none) := by
  unfold exec close
  unfold reconcile recordUncommittedBoundary writeUncommittedMarker
  simp only [Fate.written, Disk.append, List.append_nil, Fate.answer]
  rfl

theorem vain_run : Run (Step python sessionId) World.start (vainOps call sessionId)
      ⟨⟨dumps (call.event sessionId 1) ++ ['\n'], some []⟩, none⟩ := by
  have hfirst : exec python sessionId (.opened {}) (World.start : World F) =
      (⟨⟨[], none⟩, some { events := [] }⟩, none) := by
    rw [World.start, exec_opened rfl, replay_nil]
  have hlong : ¬(dumps (call.event sessionId 1) ++ ['\n']).length ≤ 0 := by simp
  unfold vainOps
  generalize htext : dumps (call.event sessionId 1) ++ ['\n'] = text at hlong ⊢
  exact ((Run.nil.snoc hfirst).snoc (exec_append_vain call htext hlong)).snoc
    (exec_close_vain text _ _)

theorem replay_vain : readSessionEvents python ⟨dumps (call.event sessionId 1) ++ ['\n'], some []⟩ =
      [call.event sessionId 1] := by
  have hlines : iterLogLines (dumps (call.event sessionId 1) ++ ['\n']) =
      [(0, call.event sessionId 1)] := iterLogLines_event call 1
  rw [readSessionEvents_plain]
  · rw [hlines]
    rfl
  · intro x hx
    rw [hlines] at hx
    rw [List.mem_singleton.mp hx]
    exact isMarker_event python call sessionId 1
  · rfl

/-! ### Replay and publication -/

/-- A value that no event has is never asked for its text. -/
def plainPython : Python Unit where
  str _ := ""
  isZero _ := false

/-- A message without content. -/
def plainCall : AppendCall Unit where
  eventType := "user_message"
  payload := []
  distinct := .obj List.nodup_nil (by simp)
  notMarker := by decide

/-- A message appended to a new log. -/
def plainOps (sessionId : String) : List (Op F × Option (Attempt F)) :=
  [(.opened {}, none), (.append call {}, some ⟨call.event sessionId 1, .returned⟩)]

theorem exec_opened_new : exec python sessionId (.opened {}) (World.start : World F) =
      (⟨⟨[], none⟩, some { events := [] }⟩, none) := by
  rw [World.start, exec_opened rfl, replay_nil]

theorem plain_run : Run (Step python sessionId) World.start (plainOps call sessionId)
      ⟨⟨dumps (call.event sessionId 1) ++ ['\n'], none⟩,
        some { events := [call.event sessionId 1] }⟩ := by
  refine (Run.nil.snoc exec_opened_new).snoc ?_
  show exec python sessionId (.append call {}) ⟨⟨[], none⟩, some { events := [] }⟩ = _
  rw [exec_append, Disk.append, List.nil_append, List.nil_append]
  rfl

theorem plain_throughout :
    Throughout (Step python sessionId) World.start (fun _ w l => Appends w l.1 ∧ Keeps w l.1)
      (plainOps call sessionId) := by
  have hopened : Throughout (Step python sessionId) World.start
      (fun _ w l => Appends w l.1 ∧ Keeps w l.1)
      [((.opened {} : Op F), (none : Option (Attempt F)))] := by
    refine Throughout.nil.snoc fun m _ => ⟨trivial, fun _ hfailed => ?_⟩
    exact absurd (Option.some.inj hfailed) (by simp)
  refine hopened.snoc fun m hm => ?_
  obtain ⟨m', hm', hstep⟩ := (show Run (Step python sessionId) World.start ([] ++ _) m from hm).last
  rw [hm'.of_nil, Step, exec_opened_new] at hstep
  rw [← (Prod.mk.inj hstep).1]
  refine ⟨fun store _ _ => .inl rfl, fun store hstore howed => ?_⟩
  exact absurd (by rw [← Option.some.inj hstore]) howed

theorem eventId_inj {n m : Nat} (h : eventId sessionId n = eventId sessionId m) : n = m := by
  have hlist (n : Nat) : (eventId sessionId n).toList =
      (sessionId ++ ":").toList ++ Nat.toDigits 10 n := by
    show (sessionId ++ ":" ++ Nat.repr n).toList = _
    rw [String.toList_append, Nat.toList_repr]
  have hdigits : Nat.toDigits 10 n = Nat.toDigits 10 m := by
    have happend := (hlist n).symm.trans ((congrArg String.toList h).trans (hlist m))
    exact List.append_cancel_left happend
  calc
    n = Nat.ofDigitChars 10 (Nat.toDigits 10 n) 0 := Nat.ofDigitChars_ten_toDigits.symm
    _ = Nat.ofDigitChars 10 (Nat.toDigits 10 m) 0 := by rw [hdigits]
    _ = m := Nat.ofDigitChars_ten_toDigits

/-- Another message without content. -/
def otherCall : AppendCall Unit where
  eventType := "assistant_message"
  payload := []
  distinct := .obj List.nodup_nil (by simp)
  notMarker := by decide

/-- The process that appended to a torn line is followed by one that appends again. -/
def repeatOps (call' : AppendCall F) (sessionId : String) : List (Op F × Option (Attempt F)) :=
  tornOps call sessionId ++ [(.dies, none), (.opened {}, none),
      (.append call' {}, some ⟨call'.event sessionId 1, .returned⟩)]

theorem repeat_run (call' : AppendCall F) :
    Run (Step python sessionId) World.start (repeatOps call call' sessionId)
      ⟨⟨['\x7b'] ++ (dumps (call.event sessionId 1) ++ ['\n']) ++
            (dumps (call'.event sessionId 1) ++ ['\n']), none⟩,
        some { events := [call'.event sessionId 1] }⟩ := by
  have htorn : Run (Step python sessionId) World.start (tornOps call sessionId) _ := torn_run call
  have hreplay : readSessionEvents python
    ⟨['\x7b'] ++ (dumps (call.event sessionId 1) ++ ['\n']), none⟩ = [] := replay_torn call
  unfold repeatOps
  generalize ['\x7b'] ++ (dumps (call.event sessionId 1) ++ ['\n']) = log at htorn hreplay ⊢
  have hopened : exec python sessionId (.opened {}) (⟨⟨log, none⟩, none⟩ : World F) =
      (⟨⟨log, none⟩, some { events := [] }⟩, none) := by
    rw [exec_opened rfl, hreplay]
  have hdies : exec python sessionId .dies
      (⟨⟨log, none⟩, some { events := [call.event sessionId 1] }⟩ : World F) =
      (⟨⟨log, none⟩, none⟩, none) := rfl
  exact htorn.append (((Run.nil.snoc hdies).snoc hopened).snoc (exec_append call' ⟨log, none⟩ []))

end AlysisCode.SessionStore
