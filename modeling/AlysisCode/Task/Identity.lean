/-
No identity is given twice, and the theorem about task identity.

A task's id names the session that gave it and a sequence, and can be read back.  A session
gives a sequence above every one its log records for it, so an id that it gives stands nowhere
in the log before.
-/
import AlysisCode.Task.Survival

namespace AlysisCode.Task

open Runs

variable {F : Type} {python : Python F} {session : Session}

/-! ### Ids -/

theorem toList_makeTaskId (sessionId : String) (sequence : Nat) :
    (makeTaskId sessionId sequence).toList =
      sessionId.toList ++ ":task:".toList ++ Nat.toDigits 10 sequence := by
  show (sessionId ++ ":task:" ++ Nat.repr sequence).toList = _
  rw [String.toList_append, String.toList_append, Nat.toList_repr]

/-- **An id names one session and one sequence.** -/
theorem makeTaskId_inj {sessionId sessionId' : String} {n n' : Nat}
    (h : makeTaskId sessionId n = makeTaskId sessionId' n') : sessionId = sessionId' ∧ n = n' := by
  have hlist := congrArg String.toList h
  rw [toList_makeTaskId, toList_makeTaskId] at hlist
  -- read backwards, the digits end at the colon
  have hspan (n : Nat) (s : String) :
      ((s.toList ++ ":task:".toList ++ Nat.toDigits 10 n).reverse.takeWhile Char.isDigit) =
        (Nat.toDigits 10 n).reverse := by
    have hdigits : ∀ c ∈ (Nat.toDigits 10 n).reverse, c.isDigit = true := fun c hc =>
      Nat.isDigit_of_mem_toDigits (by omega) (le_refl 10) (List.mem_reverse.mp hc)
    rw [List.reverse_append, List.reverse_append, List.takeWhile_append_of_pos hdigits]
    simp
  have hdigits : Nat.toDigits 10 n = Nat.toDigits 10 n' := by
    rw [← List.reverse_inj, ← hspan n sessionId, hlist, hspan n' sessionId']
  have hn : n = n' :=
    calc
      n = Nat.ofDigitChars 10 (Nat.toDigits 10 n) 0 := Nat.ofDigitChars_ten_toDigits.symm
      _ = Nat.ofDigitChars 10 (Nat.toDigits 10 n') 0 := by rw [hdigits]
      _ = n' := Nat.ofDigitChars_ten_toDigits
  rw [hdigits] at hlist
  have hprefix := List.append_cancel_right (List.append_cancel_right hlist)
  exact ⟨String.toList_inj.mp hprefix, hn⟩

/-! ### What the log names -/

def Named (log : List (Event F)) (id : String) : Prop :=
  ∃ event ∈ log, event.type = taskStateEvent ∧ ∃ state,
    payloadGet event.payload "state" = .obj state ∧ Json.get state "task_id" = .str id

/-- A task-state event records no state, or one whose id is its own. -/
def Records (event : Event F) : Prop :=
  event.type = taskStateEvent →
    payloadGet event.payload "state" = .null ∨
      ∃ s : SessionTaskState, payloadGet event.payload "state" = .obj s.toPayload ∧
        s.taskId = makeTaskId s.sessionId s.sequence

/-- The invariant of a session's runs, whatever fails. -/
structure Numbered (w : World F) : Prop where
  records : ∀ event ∈ w.log, Records event
  live : ∀ memory, w.live = some memory → ∀ s, memory.taskState = some s →
    s.taskId = makeTaskId s.sessionId s.sequence ∧ Named w.log s.taskId

variable {log : List (Event F)} {memory : Memory} {t : TaskTransition} {persists : Bool}
  {w : World F} {s : SessionTaskState}

theorem Named.append {id : String} (h : Named log id) (events : List (Event F)) :
    Named (log ++ events) id := by
  obtain ⟨event, hevent, hnamed⟩ := h
  exact ⟨event, List.mem_append_left _ hevent, hnamed⟩

variable {call : RestoreCall} {event : Event F} {instruction relation : String}

theorem records_append (h : ∀ event ∈ log, Records event) (hevent : Records event) :
    ∀ event' ∈ log ++ [event], Records event' := by
  intro event' hmem
  rcases List.mem_append.mp hmem with hmem | hmem
  · exact h event' hmem
  · rw [List.mem_singleton.mp hmem]
    exact hevent

variable {current : Option SessionTaskState} {offer : Offer} {e : TaskError} {reason : String}
  {state : Option SessionTaskState} {extra : List (String × Json F)}

theorem records_transition (h : ∀ event ∈ log, Records event) {t : String}
    (hid : ∀ s, state = some s → s.taskId = makeTaskId s.sessionId s.sequence) :
    ∀ event ∈ session.append log taskStateEvent (transitionPayload t relation state reason extra),
      Records event := by
  refine records_append h ?_
  intro _
  cases state with
  | none => exact Or.inl rfl
  | some s => exact Or.inr ⟨s, rfl, hid s rfl⟩

theorem named_transition (log : List (Event F)) (t relation reason : String)
    (s : SessionTaskState) (extra : List (String × Json F)) :
    Named (session.append log taskStateEvent (transitionPayload t relation (some s) reason extra))
      s.taskId := by
  refine ⟨_, List.mem_append_right _ List.mem_cons_self, rfl, s.toPayload, rfl, rfl⟩

theorem records_other (h : ∀ event ∈ log, Records event) {type : String}
    (htype : type ≠ taskStateEvent) (payload : List (String × Json F)) :
    ∀ event ∈ session.append log type payload, Records event :=
  records_append h fun heq => absurd heq htype

/-! ### Every operation keeps the numbering -/

def NumberedLive (log : List (Event F)) (memory : Memory) : Prop :=
  Numbered ⟨log, some memory⟩

theorem NumberedLive.intro (hrecords : ∀ event ∈ log, Records event)
    (hlive : ∀ s, memory.taskState = some s →
      s.taskId = makeTaskId s.sessionId s.sequence ∧ Named log s.taskId) :
    NumberedLive log memory :=
  ⟨hrecords, fun m hm => by
    cases hm
    exact hlive⟩

theorem numbered_transition (h : ∀ event ∈ log, Records event) {t : String}
    (hmemory : memory.taskState = state)
    (hid : ∀ s, state = some s → s.taskId = makeTaskId s.sessionId s.sequence) :
    NumberedLive
      (session.append log taskStateEvent (transitionPayload t relation state reason extra))
      memory := by
  refine .intro (records_transition h hid) ?_
  intro s hs
  rw [hmemory] at hs
  refine ⟨hid s hs, ?_⟩
  rw [hs]
  exact named_transition log t relation reason s extra

theorem NumberedLive.of_taskState {memory' : Memory} (h : NumberedLive log memory)
    (heq : memory'.taskState = memory.taskState) :
    NumberedLive log memory' :=
  .intro h.records fun s hs => h.live memory rfl s (heq ▸ hs)

theorem changes_id (hcurrent : ∀ s, current = some s → s.taskId = makeTaskId s.sessionId s.sequence)
    (h : Changes current offer t) :
    ∀ s, t.state = some s → s.taskId = makeTaskId s.sessionId s.sequence := by
  intro s hs
  cases h with
  | accepted | replaced => exact Option.some.inj hs ▸ rfl
  | @amended c hsome =>
    cases hs
    exact hcurrent c hsome

theorem accept_numbered (h : NumberedLive log memory) (call : AcceptCall) (persists : Bool) :
    NumberedLive (acceptSessionTask python session call persists log memory).log
      (acceptSessionTask python session call persists log memory).memory := by
  unfold acceptSessionTask
  cases validateTaskRelation call.relation with
  | none => exact h
  | some relation =>
    dsimp only
    split
    · exact h
    rename_i hchanged
    split
    · exact h
    obtain ⟨-, hchanges⟩ := changes_of_changed (not_not.mp hchanged)
    exact numbered_transition h.records (by simp)
      (changes_id (fun s hs => (h.live memory rfl s hs).1) hchanges)

theorem clear_numbered (h : NumberedLive log memory) (persists clears : Bool) :
    NumberedLive (resetConversation session persists clears log memory).log
      (resetConversation session persists clears log memory).memory := by
  have hboundary {log : List (Event F)} {memory : Memory} (h : NumberedLive log memory) :
      NumberedLive (session.append log "conversation_cleared" [("trigger", .str "user_command")])
        memory := by
    refine .intro (records_other h.records (by decide) _) ?_
    intro s hs
    obtain ⟨hid, hnamed⟩ := h.live memory rfl s hs
    exact ⟨hid, hnamed.append _⟩
  unfold resetConversation clearSessionTask
  cases hstate : memory.taskState with
  | some current =>
    cases persists with
    | false => exact h.of_taskState (remember_taskState _ _)
    | true =>
      have hcleared : NumberedLive
          (session.append log taskStateEvent (transitionPayload "cleared" "host" none
            "conversation_reset:user_command" []))
          { memory.remember session (some current) with
            taskState := none, taskStateUnrecovered := false } :=
        numbered_transition h.records rfl (fun s hs => by cases hs)
      cases clears with
      | false => exact hcleared
      | true => exact hboundary hcleared
  | none =>
    have hcleared : NumberedLive log
        { memory with taskState := none, taskStateUnrecovered := false } :=
      h.of_taskState hstate.symm
    cases clears with
    | false => exact hcleared
    | true => exact hboundary hcleared

theorem recovered_id {events : List (Event F)} {sessionId : Option String}
    {state : SessionTaskState}
    (h : (recoverTaskStateFromEvents python events sessionId).state = some state) :
    state.taskId = makeTaskId state.sessionId state.sequence := by
  have hsound := replay_sound python events
  unfold recoverTaskStateFromEvents Replay.recovered at h
  split at h
  · cases houtcome : (replay python events).latest.outcome with
    | unrecoverable | none =>
      rw [houtcome] at h
      cases h
    | valid =>
      rw [houtcome] at h
      obtain ⟨s, hs, hvalid⟩ := hsound.valid houtcome
      rw [hs] at h
      exact Option.some.inj h ▸ hvalid.taskId
  · split at h
    · exact Option.some.inj h ▸ rfl
    · cases h

theorem restore_numbered (hrecords : ∀ event ∈ log, Records event)
    (hmemory : persists = false → NumberedLive log memory)
    (hid : ∀ s, call.recovered.state = some s → s.taskId = makeTaskId s.sessionId s.sequence) :
    NumberedLive (restoreSessionTaskState session call persists log memory).log
      (restoreSessionTaskState session call persists log memory).memory := by
  unfold restoreSessionTaskState
  split
  · rename_i hpersists
    exact hmemory (by simpa using hpersists)
  split
  · exact numbered_transition hrecords rfl fun s hs => by cases hs
  · refine numbered_transition hrecords (by simp) ?_
    intro s hs
    obtain ⟨state, hstate, heq⟩ := Option.map_eq_some_iff.mp hs
    split at heq
    · subst heq
      exact hid state hstate
    · exact heq ▸ hid state hstate

theorem restart_numbered (h : Numbered w) (starts persists : Bool) :
    Numbered (restart python session starts persists w) := by
  have hstarted : ∀ event ∈ session.append w.log "session_start" startPayload, Records event :=
    records_other h.records (by decide) _
  unfold restart
  split
  · exact ⟨h.records, fun memory hm => by cases hm⟩
  cases persists with
  | false => exact ⟨hstarted, fun memory hm => by cases hm⟩
  | true => exact restore_numbered hstarted (fun h => by cases h) fun s hs => recovered_id hs

theorem note_numbered (h : Numbered w) (note : Note F) :
    Numbered { w with log := w.log ++ [note.event] } where
  records := records_append h.records fun heq => absurd heq note.notTaskState
  live memory hm s hs := by
    obtain ⟨hid, hnamed⟩ := h.live memory hm s hs
    exact ⟨hid, hnamed.append _⟩

theorem exec_numbered (h : Numbered w) (op : Op F) :
    Numbered (exec python session op w) := by
  obtain ⟨log, live⟩ := w
  cases live with
  | none =>
    cases op with
    | accept | clear | restore => exact h
    | restart starts persists => exact restart_numbered h starts persists
    | note note => exact note_numbered h note
  | some memory =>
    cases op with
    | accept call persists => exact accept_numbered h call persists
    | clear persists clears => exact clear_numbered h persists clears
    | restore events source persists =>
      exact restore_numbered h.records (fun _ => h) fun s hs => recovered_id hs
    | restart starts persists => exact restart_numbered h starts persists
    | note note => exact note_numbered h note

theorem numbered_of_history {ops : List (Op F)} (h : History python session ops w) :
    Numbered w := by
  refine Run.invariant (I := Numbered) ?_ ?_ h
  · refine ⟨records_other (by simp) (by decide) _, ?_⟩
    intro memory hm s hs
    cases hm
    cases hs
  · rintro w op w' hw rfl
    exact exec_numbered hw op

/-! ### New ids -/

theorem le_foldl_max {ns : List Nat} {n start : Nat} (h : n ∈ ns ∨ n ≤ start) :
    n ≤ ns.foldl max start := by
  induction ns generalizing start with
  | nil => simpa using h
  | cons m rest ih =>
    refine ih ?_
    rcases h with h | h
    · rcases List.mem_cons.mp h with rfl | h
      · exact Or.inr (le_max_right start n)
      · exact Or.inl h
    · exact Or.inr (le_max_of_le_left h)

theorem strip_session_id (session : Session) : strip session.id = session.id := by
  unfold Session.id
  cases h : stripped session.storeSessionId with
  | none => decide
  | some s =>
    unfold stripped at h
    split at h
    · cases h
    · rw [Option.getD_some, ← Option.some.inj h, strip_strip]

theorem lt_nextTaskSequence (hmem : event ∈ log) (htype : event.type = taskStateEvent)
    (hpayload : payloadGet event.payload "state" = .obj s.toPayload)
    (hown : s.sessionId = session.id) (memory : Memory) :
    s.sequence < nextTaskSequence python session log memory := by
  have hne : s.sessionId ≠ "" := by
    have hblank := isBlank_session_id session
    rw [← hown] at hblank
    rintro heq
    rw [heq] at hblank
    cases hblank
  have hsession : python.orElse (Json.get s.toPayload "session_id") (.str "") = .str s.sessionId :=
    python.orElse_str hne _
  have hsequence : ownSequence python session.id event = s.sequence := by
    unfold ownSequence
    rw [if_neg (not_not.mpr htype), hpayload]
    dsimp only
    rw [hsession]
    show (if strip s.sessionId ≠ session.id then 0 else _) = _
    rw [hown, strip_session_id, if_neg (not_not.mpr rfl)]
    rfl
  have hhigh : s.sequence ≤ persistedHighWater python session.id log := by
    refine le_foldl_max (Or.inl ?_)
    rw [← hsequence]
    exact List.mem_map_of_mem hmem
  unfold nextTaskSequence
  dsimp only
  split
  · split
    · omega
    · omega
  · omega

theorem changes_new (h : Changes current offer t) (hkind : t.kind = .accepted ∨ t.kind = .replaced)
    (hs : t.state = some s) :
    (current = none ∨ offer.relation = .newTask) ∧ s.sessionId = offer.sessionId ∧
      s.taskId = makeTaskId s.sessionId s.sequence ∧
        offer.nextSequence.getD 0 ≤ s.sequence := by
  cases h with
  | accepted hnone =>
    cases hs
    refine ⟨Or.inl hnone, rfl, rfl, ?_⟩
    show offer.nextSequence.getD 0 ≤ max 1 (offer.nextSequence.getD 1)
    cases offer.nextSequence with
    | none => exact Nat.zero_le _
    | some n => exact le_max_right 1 n
  | replaced _ hrelation =>
    cases hs
    exact ⟨Or.inr hrelation, rfl, rfl, le_max_right _ _⟩
  | amended => rcases hkind with h | h <;> cases h

/-- **A new id stands nowhere in the log before.** -/
theorem accept_fresh (h : NumberedLive log memory) {call : AcceptCall}
    (hanswer : (acceptSessionTask python session call persists log memory).answer = .ok t)
    (hkind : t.kind = .accepted ∨ t.kind = .replaced) (hs : t.state = some s) :
    ¬Named log s.taskId ∧
      Named (acceptSessionTask python session call persists log memory).log s.taskId := by
  unfold acceptSessionTask at hanswer ⊢
  cases hrelation : validateTaskRelation call.relation with
  | none =>
    rw [hrelation] at hanswer
    cases hanswer
  | some relation =>
    rw [hrelation] at hanswer
    dsimp only at hanswer ⊢
    split at hanswer
    · rename_i hchanged
      cases hanswer
      exact absurd (by rcases hkind with hkind | hkind <;> simp [TaskTransition.changed, hkind]) hchanged
    rename_i hchanged
    split at hanswer
    · cases hanswer
    rename_i hpersists
    cases hanswer
    rw [if_neg hchanged, if_neg hpersists]
    obtain ⟨-, hchanges⟩ := changes_of_changed (not_not.mp hchanged)
    obtain ⟨hnew, hsession, hid, hsequence⟩ := changes_new hchanges hkind hs
    refine ⟨?_, ?_⟩
    · rintro ⟨event, hmem, htype, state, hpayload, hstate⟩
      rcases h.records event hmem htype with hnull | ⟨s', hpayload', hid'⟩
      · rw [hnull] at hpayload
        cases hpayload
      rw [hpayload', Json.obj.injEq] at hpayload
      subst hpayload
      have hsame : s'.taskId = s.taskId := Json.str.inj hstate
      rw [hid', hid] at hsame
      obtain ⟨hsid, hseq⟩ := makeTaskId_inj hsame
      have hlt : s'.sequence < nextTaskSequence python session log memory :=
        lt_nextTaskSequence hmem htype hpayload' (hsid.trans hsession) memory
      have hnext : (call.offer python session log memory relation).nextSequence =
          some (nextTaskSequence python session log memory) := by
        refine if_pos ?_
        rcases hnew with hnone | hnew
        · exact Or.inl (by rw [hnone]; rfl)
        · exact Or.inr hnew
      rw [hnext, Option.getD_some] at hsequence
      omega
    · rw [hs]
      exact named_transition log _ _ "" s []

/-! ### What a failed append leaves -/

theorem accept_failed {call : AcceptCall}
    (h : (acceptSessionTask python session call persists log memory).answer = .error e) :
    (acceptSessionTask python session call persists log memory).log = log ∧
      (acceptSessionTask python session call persists log memory).memory = memory := by
  unfold acceptSessionTask at h ⊢
  cases hrelation : validateTaskRelation call.relation with
  | none => exact ⟨rfl, rfl⟩
  | some relation =>
    rw [hrelation] at h
    dsimp only at h ⊢
    split at h
    · cases h
    rename_i hchanged
    rw [if_neg hchanged]
    split at h
    · rename_i hpersists
      rw [if_pos hpersists]
      exact ⟨rfl, rfl⟩
    · cases h

theorem clear_failed (h : (clearSessionTask session reason persists log memory).answer = .error e) :
    (clearSessionTask session reason persists log memory).log = log ∧
      (clearSessionTask session reason persists log memory).memory.taskState = memory.taskState ∧
      (clearSessionTask session reason persists log memory).memory.taskStateUnrecovered =
        memory.taskStateUnrecovered := by
  unfold clearSessionTask at h ⊢
  split at h
  · rename_i current hstate
    rw [hstate]
    cases persists with
    | true => cases h
    | false => exact ⟨rfl, (remember_taskState _ _).trans hstate, remember_taskStateUnrecovered _ _⟩
  · cases h

theorem restore_failed
    (h : (restoreSessionTaskState session call persists log memory).answer = .error e) :
    (restoreSessionTaskState session call persists log memory).log = log ∧
      (restoreSessionTaskState session call persists log memory).memory = memory := by
  unfold restoreSessionTaskState at h ⊢
  split at h
  · rename_i hpersists
    rw [if_pos hpersists]
    exact ⟨rfl, rfl⟩
  · split at h
    · cases h
    · cases h

/-- A value that no event of these runs has is never asked for its text. -/
def plainPython : Python Unit where
  str _ := ""
  isZero _ := false

def plainSession : Session where
  storeSessionId := "s"
  named := by decide

theorem readPayload_blank (hid : s.taskId = makeTaskId s.sessionId s.sequence)
    (hblank : isBlank s.objective = true) :
    (readPayload python (.obj (transitionPayload "accepted" "auto" (some s) "" []))).1 =
      .unrecoverable := by
  have hread := readPayload_transition python (show "accepted" ∈ knownTransitions by decide)
    (show "auto" ∈ transitionRelations by decide) (some s) "" []
  have hactive : activeStateTransitions.contains "accepted" = true := by decide
  dsimp only at hread
  rw [readActiveState, if_neg (not_not.mpr hactive), validate_of_blank hid hblank] at hread
  rw [hread]

theorem transition_none
    (hcandidate : instructionIsTaskCandidate offer.instruction offer.provenance = true)
    (hknown : offer.unrecovered = false) :
    transitionTaskState none offer =
      { kind := .accepted, relation := offer.relation,
        state := some (offer.newTask (max 1 (offer.nextSequence.getD 1)) []) } := by
  rw [transitionTaskState, if_neg (not_not.mpr hcandidate), hknown]
  rfl

theorem accepted_blank (session : Session) (h : Modern (replay python log))
    (hcandidate : instructionIsTaskCandidate instruction .acceptedTurn = true)
    (hblank : isBlank (acceptedObjective instruction).1 = true) :
    (acceptSessionTask python session { instruction := instruction } true log
        {}).memory.taskState.isSome = true ∧
      (recoverTaskStateFromEvents python (acceptSessionTask python session
        { instruction := instruction } true log {}).log none).recovery = .unrecoverable := by
  have hrelation : validateTaskRelation none = some .auto := by decide
  have htransition : transitionTaskState none (AcceptCall.offer python session log {}
      { instruction := instruction } .auto) = _ := transition_none hcandidate rfl
  unfold acceptSessionTask
  rw [hrelation]
  dsimp only
  rw [htransition]
  refine ⟨by simp [TaskTransition.changed], ?_⟩
  obtain ⟨hafter, houtcome, -⟩ := replay_transition session h (transitionPayload "accepted" "auto"
    (some ((AcceptCall.offer python session log {} { instruction := instruction } .auto).newTask
      (max 1 (nextTaskSequence python session log {})) [])) "" [])
  exact (hafter.recovered none).2.mpr (houtcome.trans (readPayload_blank rfl hblank))

theorem exec_accept (python : Python F) (session : Session) (call : AcceptCall) (persists : Bool)
    (log : List (Event F)) (memory : Memory) :
    exec python session (.accept call persists) ⟨log, some memory⟩ =
      ⟨(acceptSessionTask python session call persists log memory).log,
        some (acceptSessionTask python session call persists log memory).memory⟩ := rfl

theorem lost_of_blank (python : Python F) (session : Session)
    (hcandidate : instructionIsTaskCandidate instruction .acceptedTurn = true)
    (hblank : isBlank (acceptedObjective instruction).1 = true) :
    ∃ w memory, History python session [.accept { instruction := instruction } true] w ∧
      w.live = some memory ∧ memory.taskState.isSome = true ∧
      (recoverTaskStateFromEvents python w.log none).recovery = .unrecoverable := by
  obtain ⟨hsome, hlost⟩ := accepted_blank session
    (start_survives python session).modern hcandidate hblank
  have hstart : World.start (F := F) session = ⟨(World.start session).log, some {}⟩ := rfl
  have hrun : History python session [.accept { instruction := instruction } true]
      (exec python session (.accept { instruction := instruction } true) (World.start session)) :=
    Run.nil.snoc rfl
  rw [hstart, exec_accept] at hrun
  -- what the call computes is not looked at
  generalize acceptSessionTask python session { instruction := instruction } true
    (World.start session).log {} = r at hrun hsome hlost
  exact ⟨_, _, hrun, rfl, hsome, hlost⟩

/-- Blanks up to the limit, and a letter behind them. -/
def farInstruction : String :=
  String.ofList (List.replicate taskObjectiveMaxChars ' ' ++ ['x'])

theorem farInstruction_candidate :
    instructionIsTaskCandidate farInstruction .acceptedTurn = true := by
  have hstrip : strip farInstruction = "x" := by
    have hdrop : (List.replicate taskObjectiveMaxChars ' ' ++ ['x']).dropWhile isSpace = ['x'] := by
      rw [List.dropWhile_append_of_pos]
      · decide
      · intro c hc
        rw [List.eq_of_mem_replicate hc]
        decide
    unfold strip farInstruction
    rw [String.toList_ofList, hdrop]
    decide
  unfold instructionIsTaskCandidate
  rw [hstrip]
  decide

theorem farInstruction_blank : isBlank (acceptedObjective farInstruction).1 = true := by
  have hlength : farInstruction.toList.length = taskObjectiveMaxChars + 1 := by
    simp [farInstruction]
  have hcut : (acceptedObjective farInstruction).1 =
      String.ofList (List.replicate taskObjectiveMaxChars ' ') := by
    rw [acceptedObjective, if_neg (by omega), farInstruction, String.toList_ofList,
      List.take_left' List.length_replicate]
  rw [hcut, isBlank_iff, String.toList_ofList]
  intro c hc
  rw [List.eq_of_mem_replicate hc]
  decide

/-- A log that ends in a task-state event nobody can read. -/
def unreadable : List (Event Unit) := [{ type := taskStateEvent, payload := .null }]

end AlysisCode.Task
