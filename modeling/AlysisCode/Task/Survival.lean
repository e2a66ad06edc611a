/-
Task identity survives a restart.

After every operation the replay of the log stands where memory stands: `Agrees` is that
relation, and each operation that appends a transition makes the replay read it.  That a
transition is read at all needs a state the strict reader accepts, and two things the machine
installs or forgets without asking it are excluded: an objective that is blank as far as it is
kept, and an unrecovered task that is cleared while the conversation's boundary fails.

Identities never run into each other, whatever fails: a new sequence is above every sequence
the log has recorded.
-/
import AlysisCode.Task.Payload
import AlysisCode.Task.Session

namespace AlysisCode.Task

open Runs

variable {F : Type} {python : Python F} {session : Session}

/-! ### What a payload is read as -/

/-- A record of the log asserts a valid state or none. -/
structure Sound (outcome : Outcome) (state : Option SessionTaskState) : Prop where
  valid : outcome = .valid → ∃ s, state = some s ∧ Valid s
  none : outcome ≠ .valid → state = none

theorem sound_none : Sound .none none where
  valid h := by cases h
  none _ := rfl

theorem sound_unrecoverable : Sound .unrecoverable none where
  valid h := by cases h
  none _ := rfl

theorem readNullState_sound (python : Python F) (transition : String) (reason : Json F) :
    Sound (readNullState python transition reason).1 (readNullState python transition reason).2.1 := by
  unfold readNullState
  split_ifs
  · exact sound_none
  · exact sound_unrecoverable
  · exact sound_unrecoverable

theorem readActiveState_sound (transition : String) (payload : Json F) :
    Sound (readActiveState transition payload).1 (readActiveState transition payload).2.1 := by
  unfold readActiveState
  split
  · exact sound_unrecoverable
  · split
    · rename_i state hstate
      exact ⟨fun _ => ⟨state, rfl, valid_of_validate hstate⟩, fun h => absurd rfl h⟩
    · exact sound_unrecoverable

theorem readPayload_sound (python : Python F) (payload : Json F) :
    Sound (readPayload python payload).1 (readPayload python payload).2.1 := by
  unfold readPayload readTransition
  split
  · split
    · dsimp only
      split
      · exact sound_unrecoverable
      split
      · exact sound_unrecoverable
      split
      · exact readNullState_sound python _ _
      · exact readActiveState_sound _ _
    · exact sound_unrecoverable
  · exact sound_unrecoverable

/-- What the host writes is read as it was meant. -/
theorem readPayload_transition (python : Python F) {t relation : String} (ht : t ∈ knownTransitions)
    (hrelation : relation ∈ transitionRelations) (state : Option SessionTaskState) (reason : String)
    (extra : List (String × Json F)) :
    readPayload python (.obj (transitionPayload t relation state reason extra)) =
      match state with
      | none => readNullState python t
          (Json.get (transitionPayload t relation none reason extra) "reason")
      | some s => readActiveState t (.obj s.toPayload : Json F) := by
  have hstrip : ∀ t ∈ knownTransitions, strip t = t := by decide
  have hrelations : ∀ r ∈ transitionRelations, strip r = r := by decide
  have htransition : transitionOf (transitionPayload t relation state reason extra) = t :=
    hstrip t ht
  have hvalid : validRelation (Json.get (transitionPayload t relation state reason extra)
      "relation") = true := by
    show transitionRelations.contains (strip relation) = true
    rw [hrelations relation hrelation]
    simpa using hrelation
  have hany : (transitionPayload t relation state reason extra).any (·.1 == "state") = true := by
    simp [transitionPayload]
  have hknown : knownTransitions.contains t = true := by simpa using ht
  unfold readPayload readTransition
  dsimp only
  rw [if_pos hany, htransition, if_neg (not_not.mpr hknown), if_neg (not_not.mpr hvalid)]
  cases state with
  | none | some s => rfl

variable {s : SessionTaskState} {r : Replay} {event : Event F}

theorem readActiveState_valid {t : String} (ht : t ∈ activeStateTransitions)
    (h : Valid s) : readActiveState t (.obj s.toPayload : Json F) = (.valid, some s, "") := by
  have hactive : activeStateTransitions.contains t = true := by simpa using ht
  rw [readActiveState, if_neg (not_not.mpr hactive), validate_toPayload h]

/-! ### The replay of a log -/

theorem replay_append (log : List (Event F)) (event : Event F) :
    replay python (log ++ [event]) = (replay python log).step python event := by
  simp [replay]

/-- A log that task state knows of: nothing is read off its messages, and no boundary in it is
unidentified. -/
structure Modern (r : Replay) : Prop where
  modern : r.modernLog = true
  legacy : r.firstUserInstruction = none
  identified : r.latest.unidentifiedUncommitted = false
  unseen : r.latest.seen = false → r.latest.outcome = .none
  sound : Sound r.latest.outcome r.latest.state

theorem Modern.recovered (h : Modern r) (sessionId : Option String) :
    (r.recovered sessionId).state = r.latest.state ∧
      ((r.recovered sessionId).recovery = .unrecoverable ↔ r.latest.outcome = .unrecoverable) := by
  unfold Replay.recovered
  by_cases hseen : r.latest.seen = true
  · rw [if_pos hseen]
    cases houtcome : r.latest.outcome with
    | valid => simp
    | none | unrecoverable => simp [h.sound.none (by rw [houtcome]; decide)]
  · rw [if_neg hseen, h.legacy]
    have houtcome := h.unseen (by simpa using hseen)
    rw [houtcome]
    simp [h.sound.none (by rw [houtcome]; decide)]

variable {r : Replay} {w : World F} {call : RestoreCall} {offer : Offer} {persists : Bool}

theorem Modern.taskState (h : Modern r) (htype : event.type = taskStateEvent) :
    Modern (r.step python event) ∧
      (r.step python event).latest.outcome = (readPayload python event.payload).1 ∧
      (r.step python event).latest.state = (readPayload python event.payload).2.1 := by
  have hstep : r.step python event =
      { r with modernLog := true, latest := readTaskStateEvent python event r.latest } := by
    unfold Replay.step
    rw [htype, if_neg (by decide), if_neg (by decide), if_neg (by decide), if_pos rfl]
  have hlatest : readTaskStateEvent python event r.latest =
      { seen := true
        outcome := (readPayload python event.payload).1
        state := (readPayload python event.payload).2.1
        reason := (readPayload python event.payload).2.2
        sessionId := eventSession python event } := by
    unfold readTaskStateEvent
    rw [h.identified]
    rfl
  rw [hstep, hlatest]
  refine ⟨⟨rfl, h.legacy, rfl, ?_, readPayload_sound python _⟩, rfl, rfl⟩
  intro hseen
  cases hseen

theorem Modern.boundary (h : Modern r) (htype : event.type = "conversation_cleared")
    (hboundary : isTaskBoundary python event.payload = true) :
    Modern (r.step python event) ∧ (r.step python event).latest = {} := by
  have hstep : r.step python event =
      { r with latest := {}, firstUserInstruction := none, firstUserEventId := none,
               firstUserEventSession := none } := by
    unfold Replay.step
    rw [htype, if_neg (by decide), if_neg (by decide), if_pos rfl, if_pos hboundary]
  rw [hstep]
  exact ⟨⟨h.modern, rfl, rfl, fun _ => rfl, sound_none⟩, rfl⟩

theorem userMessage_latest (r : Replay) (event : Event F) :
    (r.userMessage python event).latest = r.latest := by
  unfold Replay.userMessage
  dsimp only
  split
  · rfl
  split
  · rfl
  split
  · rfl
  split
  · rfl
  split
  · rfl
  · rfl

theorem Modern.userMessage (h : Modern r) (event : Event F) :
    Modern (r.userMessage python event) := by
  unfold Replay.userMessage
  dsimp only
  split
  · exact ⟨h.modern, h.legacy, h.identified, h.unseen, h.sound⟩
  · rw [h.modern, Bool.or_true, if_pos rfl]
    exact ⟨rfl, h.legacy, h.identified, h.unseen, h.sound⟩

theorem Modern.other (h : Modern r)
    (htype : event.type ≠ taskStateEvent) (huncommitted : event.type ≠ uncommittedBoundaryEvent)
    (hboundary : event.type = "conversation_cleared" →
      isTaskBoundary python event.payload = false) :
    (r.step python event).latest = r.latest ∧ Modern (r.step python event) := by
  unfold Replay.step
  rw [if_neg htype, if_neg huncommitted]
  split
  · split
    · exact ⟨rfl, h⟩
    · exact ⟨rfl, ⟨rfl, h.legacy, h.identified, h.unseen, h.sound⟩⟩
  split
  · exact ⟨rfl, ⟨rfl, h.legacy, h.identified, h.unseen, h.sound⟩⟩
  split
  · rename_i hcleared
    rw [hboundary hcleared, if_neg Bool.false_ne_true]
    exact ⟨rfl, h⟩
  split
  · exact ⟨userMessage_latest r event, h.userMessage event⟩
  · exact ⟨rfl, h⟩

/-! ### Memory and replay -/

/-- Memory holds the task that the newest record asserts. -/
structure Agrees (latest : LatestTaskRecord) (memory : Memory) : Prop where
  state : memory.taskState = latest.state
  unrecovered : memory.taskStateUnrecovered = true ↔ latest.outcome = .unrecoverable

/-- The log is read, and memory stands where it ends. -/
structure Survives (python : Python F) (log : List (Event F)) (memory : Memory) : Prop where
  modern : Modern (replay python log)
  agrees : Agrees (replay python log).latest memory

variable {log events : List (Event F)} {memory : Memory} {sessionId : Option String}
  {state : SessionTaskState}

theorem Survives.valid (h : Survives python log memory)
    (hs : memory.taskState = some s) : Valid s := by
  have hsound := h.modern.sound
  rw [← h.agrees.state, hs] at hsound
  by_cases houtcome : (replay python log).latest.outcome = .valid
  · obtain ⟨s', heq, hvalid⟩ := hsound.valid houtcome
    rw [Option.some.inj heq]
    exact hvalid
  · cases hsound.none houtcome

theorem replay_transition (session : Session) (h : Modern (replay python log))
    (payload : List (String × Json F)) :
    Modern (replay python (session.append log taskStateEvent payload)) ∧
      (replay python (session.append log taskStateEvent payload)).latest.outcome =
        (readPayload python (.obj payload)).1 ∧
      (replay python (session.append log taskStateEvent payload)).latest.state =
        (readPayload python (.obj payload)).2.1 := by
  unfold Session.append
  rw [replay_append]
  exact h.taskState rfl

theorem survives_append (h : Modern (replay python log)) {payload : List (String × Json F)}
    (hstate : memory.taskState = (readPayload python (.obj payload)).2.1)
    (hflag : memory.taskStateUnrecovered = true ↔
      (readPayload python (.obj payload)).1 = .unrecoverable) :
    Survives python (session.append log taskStateEvent payload) memory := by
  obtain ⟨hmodern, houtcome, hlatest⟩ := replay_transition session h payload
  exact ⟨hmodern, ⟨by rw [hstate, hlatest], by rw [hflag, houtcome]⟩⟩

section Append

variable {log : List (Event F)} {t relation reason : String} {extra : List (String × Json F)}
  {memory : Memory}

theorem survives_active (h : Modern (replay python log)) (ht : t ∈ activeStateTransitions)
    (hrelation : relation ∈ transitionRelations) (hvalid : Valid s)
    (hstate : memory.taskState = some s) (hflag : memory.taskStateUnrecovered = false) :
    Survives python
      (session.append log taskStateEvent (transitionPayload t relation (some s) reason extra))
      memory := by
  have hknown : t ∈ knownTransitions := List.mem_append_left _ (List.mem_append_left _ ht)
  have hread := readPayload_transition python hknown hrelation (some s) reason extra
  dsimp only at hread
  rw [readActiveState_valid ht hvalid] at hread
  refine survives_append h ?_ ?_
  · rw [hread, hstate]
  · rw [hread, hflag]
    simp

theorem survives_none (h : Modern (replay python log)) (ht : t ∈ noTaskTransitions)
    (hrelation : relation ∈ transitionRelations) (hstate : memory.taskState = none)
    (hflag : memory.taskStateUnrecovered = false) :
    Survives python
      (session.append log taskStateEvent (transitionPayload t relation none reason extra))
      memory := by
  have hknown : t ∈ knownTransitions := List.mem_append_left _ (List.mem_append_right _ ht)
  have hread := readPayload_transition python hknown hrelation none reason extra
  have hcleared : noTaskTransitions.contains t = true := by simpa using ht
  dsimp only at hread
  rw [readNullState, if_pos hcleared] at hread
  refine survives_append h ?_ ?_
  · rw [hread, hstate]
  · rw [hread, hflag]
    decide

theorem survives_unrecovered (h : Modern (replay python log)) (ht : t ∈ unrecoveredTransitions)
    (hrelation : relation ∈ transitionRelations) (hstate : memory.taskState = none)
    (hflag : memory.taskStateUnrecovered = true) :
    Survives python
      (session.append log taskStateEvent (transitionPayload t relation none reason extra))
      memory := by
  have hknown : t ∈ knownTransitions := List.mem_append_right _ ht
  have hread := readPayload_transition python hknown hrelation none reason extra
  have hdisjoint : ∀ t ∈ unrecoveredTransitions, noTaskTransitions.contains t = false := by decide
  have hlost : unrecoveredTransitions.contains t = true := by simpa using ht
  rw [readNullState, hdisjoint t ht, if_neg Bool.false_ne_true, if_pos hlost] at hread
  refine survives_append h ?_ ?_
  · rw [hread, hstate]
  · rw [hread, hflag]
    simp

end Append

/-! ### What is installed -/

theorem isBlank_session_id (session : Session) : isBlank session.id = false := by
  unfold Session.id
  cases h : stripped session.storeSessionId with
  | none => rfl
  | some s => exact isBlank_of_stripped h

theorem newTask_valid {sequence : Nat} {prior : List String}
    (hsession : isBlank offer.sessionId = false) (hsequence : 1 ≤ sequence)
    (horigin : offer.origin ∈ taskOrigins)
    (hobjective : isBlank (acceptedObjective offer.instruction).1 = false)
    (hevent : ∀ id ∈ offer.originEventId, isBlank id = false)
    (hparent : ∀ id ∈ offer.parentSessionId, isBlank id = false)
    (hprior : ∀ t ∈ prior, isBlank t = false) (hlength : prior.length ≤ taskPriorObjectivesMax) :
    Valid (offer.newTask sequence prior) where
  taskId := rfl
  objective := hobjective
  sessionId := hsession
  sequence := hsequence
  origin := horigin
  originEventId := hevent
  resumedFromSessionId := by simp [Offer.newTask]
  requestId := by
    intro id hid
    obtain ⟨raw, -, hraw⟩ := Option.bind_eq_some_iff.mp hid
    exact isBlank_of_stripped hraw
  parentSessionId := hparent
  amendments := by simp [Offer.newTask]
  priorObjectives := hprior
  priorLength := hlength

inductive Changes (current : Option SessionTaskState) (offer : Offer) : TaskTransition → Prop
  | accepted (hnone : current = none) (hknown : offer.unrecovered = true → offer.relation = .newTask) :
      Changes current offer
        { kind := .accepted, relation := offer.relation,
          state := some (offer.newTask (max 1 (offer.nextSequence.getD 1)) []) }
  | replaced {c : SessionTaskState} (hsome : current = some c) (hrelation : offer.relation = .newTask)
      (hrequest : ¬(offer.cleanRequestId.isSome = true ∧ c.requestId = offer.cleanRequestId)) :
      Changes current offer
        { kind := .replaced, relation := .newTask,
          state := some (offer.newTask (max (c.sequence + 1) (offer.nextSequence.getD 0))
            ((c.objective :: c.priorObjectives).take taskPriorObjectivesMax)) }
  | amended {c : SessionTaskState} (hsome : current = some c) : Changes current offer
        { kind := .amended, relation := .amendment,
          state := some { c with amendments := offer.instruction :: c.amendments } }

/-- **The state machine changes the task in one of three ways**, for a candidate. -/
theorem changes_of_changed {current : Option SessionTaskState}
    (h : (transitionTaskState current offer).changed = true) :
    instructionIsTaskCandidate offer.instruction offer.provenance = true ∧
      Changes current offer (transitionTaskState current offer) := by
  unfold transitionTaskState at h ⊢
  split at h
  · cases h
  rename_i hcandidate
  rw [if_neg hcandidate]
  refine ⟨not_not.mp hcandidate, ?_⟩
  cases current with
  | none =>
    dsimp only at h ⊢
    split at h
    · cases h
    · rename_i hknown
      rw [if_neg hknown]
      refine .accepted rfl ?_
      intro hunrecovered
      by_contra hrelation
      exact hknown ⟨hunrecovered, hrelation⟩
  | some c =>
    dsimp only at h ⊢
    split at h
    · cases h
    · rename_i hrequest
      rw [if_neg hrequest]
      unfold replaceOrAmend at h ⊢
      cases hrelation : offer.relation with
      | newTask => exact .replaced rfl hrelation hrequest
      | amendment =>
        rw [hrelation] at h
        dsimp only at h ⊢
        split at h
        · cases h
        · rename_i hnew
          rw [if_neg hnew]
          exact .amended rfl
      | auto | continuation =>
        rw [hrelation] at h
        cases h

/-! ### The condition -/

/-- The instruction becomes the objective of a task. -/
def Becomes (memory : Memory) (call : AcceptCall) : Prop :=
  instructionIsTaskCandidate call.instruction .acceptedTurn = true ∧
    match memory.taskState with
    | none =>
      memory.taskStateUnrecovered = true → validateTaskRelation call.relation = some .newTask
    | some current =>
      validateTaskRelation call.relation = some .newTask ∧
        ¬((call.requestId.bind stripped).isSome = true ∧
          current.requestId = call.requestId.bind stripped)

/-- What becomes an objective is not blank as far as it is kept, and the ids that the host hands
over are not blank; and when an unrecovered task is cleared, the conversation is. -/
def Recoverable (python : Python F) (session : Session) : World F → Op F → Prop
  | ⟨_, some memory⟩, .accept call persists =>
    persists = true → Becomes memory call → isBlank (acceptedObjective call.instruction).1 = false ∧
        ∀ id ∈ call.originEventId, isBlank id = false
  | ⟨_, some memory⟩, .clear _ clears =>
    memory.taskState = none → memory.taskStateUnrecovered = true → clears = true
  | ⟨_, some _⟩, .restore events source persists =>
    let call := restoreCall python events source
    persists = true → call.refusal = "" → ∀ state ∈ call.recovered.state,
      isBlank state.objective = false ∧ (∀ id ∈ state.originEventId, isBlank id = false) ∧
        ∀ id ∈ source.sourceSessionId, id ≠ "" → id ≠ session.id → isBlank id = false
  | _, _ => True

/-! ### The operations -/

@[simp] theorem remember_taskState (memory : Memory) (state : Option SessionTaskState) :
    (memory.remember session state).taskState = memory.taskState := by
  unfold Memory.remember
  split
  · split
    · rfl
    · rfl
  · rfl

@[simp] theorem remember_taskStateUnrecovered (memory : Memory) (state : Option SessionTaskState) :
    (memory.remember session state).taskStateUnrecovered = memory.taskStateUnrecovered := by
  unfold Memory.remember
  split
  · split
    · rfl
    · rfl
  · rfl

theorem changes_valid {call : AcceptCall} (hvalid : ∀ s, memory.taskState = some s → Valid s)
    {relation : TaskRelation} (hrelation : validateTaskRelation call.relation = some relation)
    (hcandidate : instructionIsTaskCandidate call.instruction .acceptedTurn = true)
    (hcond : Becomes memory call → isBlank (acceptedObjective call.instruction).1 = false ∧
      ∀ id ∈ call.originEventId, isBlank id = false) {t : TaskTransition}
    (h : Changes memory.taskState (call.offer python session log memory relation) t) :
    ∃ s, t.state = some s ∧ Valid s ∧ t.kind.text ∈ activeStateTransitions := by
  have horigin : (call.offer python session log memory relation).origin ∈ taskOrigins := by
    show (if session.subagentDepth > 0 then "delegated" else "user_instruction") ∈ taskOrigins
    split
    · decide
    · decide
  have hparent : ∀ id ∈ (call.offer python session log memory relation).parentSessionId,
      isBlank id = false := fun id hid => isBlank_of_stripped hid
  have hsession := isBlank_session_id session
  cases h with
  | accepted hnone hknown =>
    have hbecomes : Becomes memory call := by
      refine ⟨hcandidate, ?_⟩
      rw [hnone]
      intro hunrecovered
      rw [hrelation]
      exact congrArg some (hknown hunrecovered)
    obtain ⟨hobjective, hevent⟩ := hcond hbecomes
    exact ⟨_, rfl, newTask_valid hsession (le_max_left 1 _) horigin hobjective hevent hparent
      (by simp) (by simp), show "accepted" ∈ activeStateTransitions by decide⟩
  | @replaced c hsome hnew hrequest =>
    have hbecomes : Becomes memory call := by
      refine ⟨hcandidate, ?_⟩
      rw [hsome]
      exact ⟨hrelation.trans (congrArg some hnew), hrequest⟩
    obtain ⟨hobjective, hevent⟩ := hcond hbecomes
    have hc := hvalid c hsome
    refine ⟨_, rfl, newTask_valid hsession (by omega) horigin hobjective hevent hparent ?_ ?_,
      show "replaced" ∈ activeStateTransitions by decide⟩
    · intro text htext
      rcases List.mem_cons.mp (List.mem_of_mem_take htext) with rfl | hprior
      · exact hc.objective
      · exact hc.priorObjectives text hprior
    · exact List.length_take_le _ _
  | @amended c hsome =>
    have hc := hvalid c hsome
    have hblank : isBlank call.instruction = false := by
      by_contra hblank
      rw [Bool.not_eq_false, isBlank, beq_iff_eq] at hblank
      rw [instructionIsTaskCandidate, hblank] at hcandidate
      cases hcandidate
    refine ⟨_, rfl, { hc with amendments := ?_ },
      show "amended" ∈ activeStateTransitions by decide⟩
    intro text htext
    rcases List.mem_cons.mp htext with rfl | hold
    · exact hblank
    · exact hc.amendments text hold

theorem relation_text_mem (relation : TaskRelation) : relation.text ∈ transitionRelations := by
  cases relation with
  | auto | newTask | continuation | amendment => decide

theorem accept_survives (h : Survives python log memory) {call : AcceptCall}
    (hcond : Recoverable python session ⟨log, some memory⟩ (.accept call persists)) :
    Survives python (acceptSessionTask python session call persists log memory).log
      (acceptSessionTask python session call persists log memory).memory := by
  unfold acceptSessionTask
  cases hrelation : validateTaskRelation call.relation with
  | none => exact h
  | some relation =>
    dsimp only
    split
    · exact h
    rename_i hchanged
    split
    · exact h
    rename_i hpersists
    obtain ⟨hcandidate, hchanges⟩ := changes_of_changed (not_not.mp hchanged)
    obtain ⟨s, hs, hvalid, hkind⟩ := changes_valid (fun s hs => h.valid hs) hrelation hcandidate
      (hcond (not_not.mp hpersists)) hchanges
    rw [hs]
    exact survives_active h.modern hkind (relation_text_mem _) hvalid (by simp) rfl

theorem survives_boundary (h : Modern (replay python log)) (hstate : memory.taskState = none)
    (hflag : memory.taskStateUnrecovered = false) :
    Survives python
      (session.append log "conversation_cleared" [("trigger", .str "user_command")]) memory := by
  have hboundary : isTaskBoundary python (.obj [("trigger", .str "user_command")]) = true := by
    have htrigger : python.orElse (payloadGet (.obj [("trigger", .str "user_command")]) "trigger")
        (.str "") = .str "user_command" := python.orElse_str (by decide) _
    rw [isTaskBoundary, htrigger]
    rfl
  have hboundary : Modern (replay python (session.append log "conversation_cleared"
        [("trigger", .str "user_command")])) ∧
      (replay python (session.append log "conversation_cleared"
        [("trigger", .str "user_command")])).latest = {} := by
    unfold Session.append
    rw [replay_append]
    exact h.boundary rfl hboundary
  obtain ⟨hmodern, hlatest⟩ := hboundary
  exact ⟨hmodern, ⟨by rw [hlatest, hstate], by rw [hlatest, hflag]; simp⟩⟩

theorem clear_survives (h : Survives python log memory) {clears : Bool}
    (hcond : Recoverable python session ⟨log, some memory⟩ (.clear persists clears)) :
    Survives python (resetConversation session persists clears log memory).log
      (resetConversation session persists clears log memory).memory := by
  unfold resetConversation clearSessionTask
  cases hstate : memory.taskState with
  | some current =>
    cases persists with
    | false =>
      refine ⟨h.modern, ⟨?_, ?_⟩⟩
      · exact (remember_taskState _ _).trans h.agrees.state
      · exact (iff_of_eq (congrArg (· = true) (remember_taskStateUnrecovered _ _))).trans
          h.agrees.unrecovered
    | true =>
      have hcleared : Survives python
          (session.append log taskStateEvent (transitionPayload "cleared" "host" none
            "conversation_reset:user_command" []))
          { memory.remember session (some current) with
            taskState := none, taskStateUnrecovered := false } :=
        survives_none h.modern (by decide) (by decide) rfl rfl
      cases clears with
      | false => exact hcleared
      | true => exact survives_boundary hcleared.modern rfl rfl
  | none =>
    cases clears with
    | true => exact survives_boundary h.modern rfl rfl
    | false =>
      have hflag : ¬memory.taskStateUnrecovered = true := fun hflag => by
        cases hcond hstate hflag
      have hagrees : Agrees (replay python log).latest
          { memory with taskState := none, taskStateUnrecovered := false } :=
        ⟨hstate.symm.trans h.agrees.state, iff_of_false Bool.false_ne_true
          fun hlost => hflag (h.agrees.unrecovered.mpr hlost)⟩
      exact ⟨h.modern, hagrees⟩

theorem restore_survives (h : Modern (replay python log))
    (hmemory : persists = false → Agrees (replay python log).latest memory)
    (hvalid : persists = true → call.refusal = "" → ∀ state, call.installed session = some state →
        Valid state ∧ call.recovered.recovery ≠ .unrecoverable)
    (hnone : call.recovered.state = none →
      call.recovered.recovery = .none ∨ call.recovered.recovery = .unrecoverable) :
    Survives python (restoreSessionTaskState session call persists log memory).log
      (restoreSessionTaskState session call persists log memory).memory := by
  unfold restoreSessionTaskState
  split
  · rename_i hpersists
    exact ⟨h, hmemory (by simpa using hpersists)⟩
  rename_i hpersists
  split
  · exact survives_unrecovered h (by decide) (by decide) rfl rfl
  rename_i hrefusal
  cases hstate : call.installed session with
  | some state =>
    obtain ⟨hstate', hrecovery⟩ :=
      hvalid (not_not.mp hpersists) (not_ne_iff.mp hrefusal) state hstate
    refine survives_active h (show "restored" ∈ activeStateTransitions by decide) (by decide)
      hstate' (by simp) ?_
    exact decide_eq_false hrecovery
  | none =>
    rcases hnone (Option.map_eq_none_iff.mp hstate) with hrecovery | hrecovery
    · rw [hrecovery]
      exact survives_none h (by decide) (by decide) rfl rfl
    · rw [hrecovery]
      exact survives_unrecovered h (by decide) (by decide) rfl rfl

/-! ### What a log is recovered as -/

theorem step_sound (h : Sound r.latest.outcome r.latest.state) (event : Event F) :
    Sound (r.step python event).latest.outcome (r.step python event).latest.state := by
  unfold Replay.step
  split
  · split
    · exact h
    · exact h
  split
  · exact h
  split
  · split
    · exact sound_none
    · exact h
  split
  · show Sound (readTaskStateEvent python event r.latest).outcome
      (readTaskStateEvent python event r.latest).state
    unfold readTaskStateEvent
    split
    · exact h
    · exact readPayload_sound python event.payload
  split
  · split
    · exact sound_unrecoverable
    · exact h
  split
  · rw [userMessage_latest]
    exact h
  · exact h

theorem replay_sound (python : Python F) (events : List (Event F)) :
    Sound (replay python events).latest.outcome (replay python events).latest.state := by
  induction events using List.reverseRecOn with
  | nil => exact sound_none
  | append_singleton events event ih =>
    rw [replay_append]
    exact step_sound ih event

theorem recovered_valid
    (h : (recoverTaskStateFromEvents python events sessionId).state = some state)
    (hobjective : isBlank state.objective = false)
    (hevent : ∀ id ∈ state.originEventId, isBlank id = false) :
    Valid state ∧
      (recoverTaskStateFromEvents python events sessionId).recovery ≠ .unrecoverable := by
  have hsound := replay_sound python events
  unfold recoverTaskStateFromEvents Replay.recovered at h ⊢
  split at h
  · rename_i hseen
    rw [if_pos hseen]
    cases houtcome : (replay python events).latest.outcome with
    | unrecoverable | none =>
      rw [houtcome] at h
      cases h
    | valid =>
      rw [houtcome] at h
      obtain ⟨s, hs, hvalid⟩ := hsound.valid houtcome
      rw [hs] at h
      exact ⟨Option.some.inj h ▸ hvalid, by simp⟩
  · rename_i hseen
    rw [if_neg hseen]
    cases hfirst : (replay python events).firstUserInstruction with
    | none =>
      rw [hfirst] at h
      cases h
    | some instruction =>
      rw [hfirst] at h
      cases h
      refine ⟨?_, by simp⟩
      have howner : isBlank ((sessionId.bind stripped).getD "legacy-session") = false := by
        cases howner : sessionId.bind stripped with
        | none => decide
        | some owner =>
          obtain ⟨raw, -, hraw⟩ := Option.bind_eq_some_iff.mp howner
          exact isBlank_of_stripped hraw
      exact
        { taskId := rfl
          objective := hobjective
          sessionId := howner
          sequence := le_refl 1
          origin := show "recovered_legacy_user_events" ∈ taskOrigins by decide
          originEventId := hevent
          resumedFromSessionId := by simp [legacyState]
          requestId := by simp [legacyState]
          parentSessionId := by simp [legacyState]
          amendments := by simp [legacyState]
          priorObjectives := by simp [legacyState]
          priorLength := by simp [legacyState] }

theorem Modern.recovered_valid (h : Modern (replay python events))
    (hstate : (recoverTaskStateFromEvents python events sessionId).state = some state) :
    Valid state := by
  have heq := (h.recovered sessionId).1.symm.trans hstate
  have hsound := h.sound
  rw [heq] at hsound
  by_cases houtcome : (replay python events).latest.outcome = .valid
  · obtain ⟨s, hs, hvalid⟩ := hsound.valid houtcome
    exact Option.some.inj hs ▸ hvalid
  · cases hsound.none houtcome

theorem recovered_none (h : (recoverTaskStateFromEvents python events sessionId).state = none) :
    (recoverTaskStateFromEvents python events sessionId).recovery = .none ∨
      (recoverTaskStateFromEvents python events sessionId).recovery = .unrecoverable := by
  have hsound := replay_sound python events
  unfold recoverTaskStateFromEvents Replay.recovered at h ⊢
  split at h
  · rename_i hseen
    rw [if_pos hseen]
    cases houtcome : (replay python events).latest.outcome with
    | unrecoverable => exact Or.inr rfl
    | none => exact Or.inl rfl
    | valid =>
      rw [houtcome] at h
      obtain ⟨s, hs, -⟩ := hsound.valid houtcome
      rw [hs] at h
      cases h
  · rename_i hseen
    rw [if_neg hseen]
    cases hfirst : (replay python events).firstUserInstruction with
    | none => exact Or.inl rfl
    | some instruction =>
      rw [hfirst] at h
      cases h

theorem installed_valid (h : call.installed session = some state)
    (hvalid : ∀ s, call.recovered.state = some s → Valid s)
    (hsource : ∀ id ∈ call.sourceSessionId, id ≠ "" → id ≠ session.id → isBlank id = false) :
    Valid state := by
  obtain ⟨s, hs, heq⟩ := Option.map_eq_some_iff.mp h
  have hs' := hvalid s hs
  split at heq
  · rename_i hgiven
    subst heq
    refine { hs' with origin := ?_, resumedFromSessionId := ?_ }
    · exact show "resumed" ∈ taskOrigins by decide
    · intro id hid
      have hid' : call.sourceSessionId = some id := hid
      rw [hid'] at hgiven
      simp only [given, Option.any_some, Bool.and_eq_true, bne_iff_ne, ne_eq,
        Option.some.injEq] at hgiven
      exact hsource id hid hgiven.1 hgiven.2
  · exact heq ▸ hs'

/-! ### Runs -/

/-- The invariant of a session's runs. -/
structure WorldSurvives (python : Python F) (w : World F) : Prop where
  modern : Modern (replay python w.log)
  agrees : ∀ memory, w.live = some memory → Agrees (replay python w.log).latest memory

theorem Survives.world (h : Survives python log memory) :
    WorldSurvives python ⟨log, some memory⟩ where
  modern := h.modern
  agrees _ hm := Option.some.inj hm ▸ h.agrees

theorem start_survives (python : Python F) (session : Session) :
    WorldSurvives python (World.start session) where
  modern := ⟨rfl, rfl, rfl, fun _ => rfl, sound_none⟩
  agrees memory hm := by
    cases hm
    exact ⟨rfl, iff_of_false Bool.false_ne_true fun h => by cases h⟩

theorem note_survives (h : WorldSurvives python w) (note : Note F) :
    WorldSurvives python { w with log := w.log ++ [note.event] } := by
  have hboundary : note.event.type = "conversation_cleared" →
      isTaskBoundary python note.event.payload = false := by
    intro htype
    obtain ⟨trigger, htrigger, hne, hmem⟩ := note.notBoundary htype
    rw [isTaskBoundary, htrigger, python.orElse_str hne]
    simp [Python.text, hne, hmem]
  have hother := h.modern.other note.notTaskState note.notUncommitted hboundary
  rw [← replay_append] at hother
  obtain ⟨hlatest, hmodern⟩ := hother
  refine ⟨hmodern, fun memory hm => ?_⟩
  rw [hlatest]
  exact h.agrees memory hm

theorem restart_survives (h : WorldSurvives python w) (starts persists : Bool) :
    WorldSurvives python (restart python session starts persists w) := by
  unfold restart
  split
  · exact ⟨h.modern, fun memory hm => by cases hm⟩
  have hstarted : Modern (replay python (session.append w.log "session_start" startPayload)) := by
    unfold Session.append
    rw [replay_append]
    refine (h.modern.other ?_ ?_ ?_).2
    · exact show "session_start" ≠ taskStateEvent by decide
    · exact show "session_start" ≠ uncommittedBoundaryEvent by decide
    · exact fun htype => absurd htype (show "session_start" ≠ "conversation_cleared" by decide)
  cases persists with
  | false => exact ⟨hstarted, fun memory hm => by cases hm⟩
  | true =>
    refine (restore_survives hstarted (fun h => by cases h) ?_ recovered_none).world
    intro _ _ state hstate
    obtain ⟨s, hs, -⟩ := Option.map_eq_some_iff.mp hstate
    have hvalid := hstarted.recovered_valid hs
    have hown : ∀ s', (restoreCall python (session.append w.log "session_start" startPayload)
        session.ownSource).recovered.state = some s' → Valid s' := fun s' hs' =>
      hstarted.recovered_valid hs'
    refine ⟨installed_valid hstate hown ?_, (recovered_valid hs hvalid.objective
      hvalid.originEventId).2⟩
    rintro id hid - -
    exact Option.some.inj hid ▸ session.named

theorem exec_survives (h : WorldSurvives python w) {op : Op F}
    (hcond : Recoverable python session w op) :
    WorldSurvives python (exec python session op w) := by
  obtain ⟨log, live⟩ := w
  cases live with
  | none =>
    cases op with
    | accept | clear | restore => exact h
    | restart starts persists => exact restart_survives h starts persists
    | note note => exact note_survives h note
  | some memory =>
    have hs : Survives python log memory := ⟨h.modern, h.agrees memory rfl⟩
    cases op with
    | accept call persists => exact (accept_survives hs hcond).world
    | clear persists clears => exact (clear_survives hs hcond).world
    | restore events source persists =>
      refine (restore_survives hs.modern (fun _ => hs.agrees) ?_ recovered_none).world
      intro hpersists hrefusal state hstate
      obtain ⟨s, hs, -⟩ := Option.map_eq_some_iff.mp hstate
      obtain ⟨hobjective, hevent, hsource⟩ := hcond hpersists hrefusal s hs
      obtain ⟨hvalid, hrecovery⟩ := recovered_valid hs hobjective hevent
      refine ⟨installed_valid hstate ?_ hsource, hrecovery⟩
      intro s' hs'
      rw [hs] at hs'
      exact Option.some.inj hs' ▸ hvalid
    | restart starts persists => exact restart_survives h starts persists
    | note note => exact note_survives h note

end AlysisCode.Task
