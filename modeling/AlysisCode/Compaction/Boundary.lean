/-
What a restarted compactor remembers is what it remembered before.

Runs are made of rounds, of boundaries that cut the history, and of restarts; a process may die
in a round.  The memory survives as long as no round commits without pins over a file that has
some, and no round leaves a summary or pins behind without committing them.
-/
import AlysisCode.Compaction.Round
import AlysisCode.Library.Runs

namespace AlysisCode.Compaction

open Runs

variable {F S : Type} [Json.Floats F] [LinearOrder S] [Zero S]

/-! ### Runs -/

/-- A compactor, and whether its process is alive. -/
structure World (F S : Type) where
  live : Live F S
  running : Bool

inductive BoundaryKind where
  | cleared
  | rolloverArmed
  deriving DecidableEq

def BoundaryKind.event : BoundaryKind → LogEvent
  | .cleared => .conversationCleared
  | .rolloverArmed => .subagentHistoryRolloverArmed

inductive Op (F S : Type) where
  | round (working : List (Message F)) (plans : List (ChunkPlan S)) (calls : ChunkPlan S → Call F)
    (fates : CommitFates)
  | boundary (kind : BoundaryKind)
  /-- Another event of the session. -/
  | logged (type : String)
  | restart (pinnedPrefixLen : Nat)

def RoundEnd.survived : RoundEnd F S → Bool
  | .died _ => false
  | _ => true

section Exec

variable (host : Host F S) (settings : Settings S)

/-- A new compactor on the same artifacts and the same log. -/
def restart (pinnedPrefixLen : Nat) (live : Live F S) : Live F S where
  state := restoreState host.python settings pinnedPrefixLen live.events live.artifacts
  artifacts := live.artifacts
  events := live.events ++ [.other "compaction_state_restored"]

/-- An operation, if its process is alive, and how the round ended, if it was one. -/
def exec : Op F S → World F S → Option (World F S × Option (RoundEnd F S))
  | .round working plans calls fates, ⟨live, true⟩ =>
    let result := compactRound host settings working plans calls fates live
    some (⟨result.1, result.2.survived⟩, some result.2)
  | .boundary kind, ⟨live, true⟩ =>
    some (⟨{ live with
      state := live.state.reset
      events := live.events ++ [kind.event, .other "compaction_state_reset"] }, true⟩, none)
  | .logged type, ⟨live, true⟩ =>
    some (⟨{ live with events := live.events ++ [.other type] }, true⟩, none)
  | .restart pinnedPrefixLen, ⟨live, _⟩ =>
    some (⟨restart host settings pinnedPrefixLen live, true⟩, none)
  | _, ⟨_, false⟩ => none

abbrev Label (F S : Type) := Op F S × Option (RoundEnd F S)

def Step (w : World F S) (l : Label F S) (w' : World F S) : Prop :=
  exec host settings l.1 w = some (w', l.2)

/-- A session without a past. -/
def World.start (pinnedPrefixLen : Nat) : World F S where
  live :=
    { state :=
        { summary := []
          historyChunkIndex := 0
          memoryMessageIndex := none
          pinnedPrefixLen := pinnedPrefixLen
          pins := []
          pinsMessageIndex := none }
      artifacts := { history := [], summary := .absent, pins := .absent }
      events := [] }
  running := true

end Exec

/-! ### What was recorded -/

variable (events : List LogEvent) (l : Label F S)

def isBoundary : Bool :=
  match l.1 with
  | .boundary _ => true
  | _ => false

def RoundEnd.preview : RoundEnd F S → Option (Preview F S)
  | .committed preview => some preview
  | .raised preview => some preview
  | .died preview => preview
  | .refused => none

def recordedSummary : Option (Members F) :=
  (l.2.bind RoundEnd.preview).map (·.summary)

def recordedPins : List (Pin S) :=
  ((l.2.bind RoundEnd.preview).map (·.extracted)).getD []

/-! ### The log -/

theorem latestIndices_append (rest : List LogEvent) (boundary summary : Int) (index : Nat) :
    latestIndices boundary summary index (events ++ rest) =
      latestIndices (latestIndices boundary summary index events).1
        (latestIndices boundary summary index events).2 (index + events.length) rest := by
  induction events generalizing boundary summary index with
  | nil => rfl
  | cons event events ih =>
    have hindex : index + (event :: events).length = index + 1 + events.length := by
      rw [List.length_cons]
      omega
    rw [List.cons_append, latestIndices, latestIndices, hindex]
    by_cases hboundary : event.isBoundary = true
    · rw [if_pos hboundary, if_pos hboundary, ih]
    · rw [if_neg hboundary, if_neg hboundary]
      by_cases hsummary : event = .conversationSummaryUpdated
      · rw [if_pos hsummary, if_pos hsummary, ih]
      · rw [if_neg hsummary, if_neg hsummary, ih]

variable {index : Nat} {fates : CommitFates} {pins : List (Pin S)} {preview : Preview F S}

theorem latestIndices_lt {events : List LogEvent} {boundary summary : Int}
    (hboundary : boundary < index) (hsummary : summary < index) :
    (latestIndices boundary summary index events).1 < index + events.length ∧
      (latestIndices boundary summary index events).2 < index + events.length := by
  induction events generalizing boundary summary index with
  | nil =>
    rw [latestIndices, List.length_nil]
    omega
  | cons event events ih =>
    rw [latestIndices, List.length_cons]
    have hnext : ((index + 1 : Nat) : Int) + events.length = index + (events.length + 1 : Nat) := by
      omega
    rw [← hnext]
    by_cases h : event.isBoundary = true
    · rw [if_pos h]
      exact ih (by omega) (by omega)
    · rw [if_neg h]
      by_cases h' : event = .conversationSummaryUpdated
      · rw [if_pos h']
        exact ih (by omega) (by omega)
      · rw [if_neg h']
        exact ih (by omega) (by omega)

theorem historyBoundaryIsNewer_snoc (event : LogEvent) :
    historyBoundaryIsNewer (events ++ [event]) =
      if event.isBoundary then true
      else if event = .conversationSummaryUpdated then false
      else historyBoundaryIsNewer events := by
  have hlt : (latestIndices (-1) (-1) 0 events).1 < (0 : Nat) + events.length ∧
      (latestIndices (-1) (-1) 0 events).2 < (0 : Nat) + events.length :=
    latestIndices_lt (by decide) (by decide)
  unfold historyBoundaryIsNewer
  rw [latestIndices_append, latestIndices]
  by_cases hboundary : event.isBoundary = true
  · rw [if_pos hboundary, if_pos hboundary, latestIndices]
    simpa using hlt.2
  · rw [if_neg hboundary, if_neg hboundary]
    by_cases hsummary : event = .conversationSummaryUpdated
    · rw [if_pos hsummary, if_pos hsummary, latestIndices]
      have := hlt.1
      simp only [decide_eq_false_iff_not, not_lt]
      omega
    · rw [if_neg hsummary, if_neg hsummary, latestIndices]

theorem historyBoundaryIsNewer_other (type : String) :
    historyBoundaryIsNewer (events ++ [.other type]) = historyBoundaryIsNewer events := by
  rw [historyBoundaryIsNewer_snoc]
  rfl

/-! ### What a commit leaves -/

/-- Every step that the commit needs is done. -/
def CommitFates.commits (fates : CommitFates) (pins : List (Pin S)) : Prop :=
  fates.staged = .done ∧ fates.history = .done ∧ fates.summary = .done ∧
    (pins ≠ [] → fates.pins = .done)

/-- The commit ends before the summary is published, or the summary is put back. -/
def CommitFates.undone (fates : CommitFates) : Prop :=
  fates.staged ≠ .done ∨ fates.history ≠ .done ∨ fates.summary ≠ .done ∨
    fates.pins = .fails ∧ fates.unlinked ≠ .dies ∧ fates.restored = .done

omit [Json.Floats F] [LinearOrder S] [Zero S] in
theorem commit_of_commits {entries : List (HistoryEntry F)}
    {summary : Members F} {a : Artifacts F} (h : fates.commits pins) :
    ∃ a', commitExecutionArtifacts fates index entries summary pins a = (a', some true) ∧
      a'.summary = .holds summary ∧
      a'.pins = if pins = [] then a.pins else .holds (pins.map publicPin) := by
  obtain ⟨hstaged, hhistory, hsummary, hpins⟩ := h
  unfold commitExecutionArtifacts
  rw [hstaged, hhistory, hsummary]
  by_cases hempty : pins = []
  · rw [if_pos hempty, if_pos hempty]
    exact ⟨_, rfl, rfl, rfl⟩
  · rw [if_neg hempty, if_neg hempty, hpins hempty]
    exact ⟨_, rfl, rfl, rfl⟩

omit [Json.Floats F] [LinearOrder S] [Zero S] in
theorem commit_of_not_commits {entries : List (HistoryEntry F)} {summary : Members F}
    {a : Artifacts F} (h : ¬fates.commits pins) :
    ∃ a' committed, commitExecutionArtifacts fates index entries summary pins a = (a', committed) ∧
        committed ≠ some true ∧ (fates.undone → a'.summary = a.summary ∧ a'.pins = a.pins) := by
  unfold commitExecutionArtifacts
  split
  iterate 5 exact ⟨_, _, rfl, by simp, fun _ => ⟨rfl, rfl⟩⟩
  · split <;> exact ⟨_, _, rfl, by simp, fun _ => ⟨rfl, rfl⟩⟩
  · rename_i hstaged hhistory hsummary
    -- the summary is published: the pins decide
    have hundone : fates.undone →
        fates.pins = .fails ∧ fates.unlinked ≠ .dies ∧ fates.restored = .done := by
      rintro (hne | hne | hne | hundone)
      · exact absurd hstaged hne
      · exact absurd hhistory hne
      · exact absurd hsummary hne
      · exact hundone
    have hpins : pins ≠ [] ∧ fates.pins ≠ .done := by
      constructor
      · intro hempty
        exact h ⟨hstaged, hhistory, hsummary, fun hne => absurd hempty hne⟩
      · intro hdone
        exact h ⟨hstaged, hhistory, hsummary, fun _ => hdone⟩
    rw [if_neg hpins.1]
    split
    · rename_i hdone
      exact absurd hdone hpins.2
    · rename_i hdies
      refine ⟨_, _, rfl, by simp, fun hu => ?_⟩
      rw [(hundone hu).1] at hdies
      cases hdies
    · rename_i hunlinked
      exact ⟨_, _, rfl, by simp, fun hu => absurd hunlinked (hundone hu).2.1⟩
    · refine ⟨_, _, rfl, by split <;> simp, fun hu => ?_⟩
      rw [(hundone hu).2.2]
      refine ⟨rfl, ?_⟩
      split
      · rfl
      · rfl

/-! ### The condition -/

section Kept

variable (host : Host F S) (settings : Settings S)

/-- A round that commits has pins, or the file has none, and its event is appended, or no
boundary is newer than the last summary; one that does not commit is undone, or a boundary is
newer than the last summary. -/
def Keeps (w : World F S) : Op F S → Prop
  | .round working plans calls fates =>
    ∀ plan preview, selectPreview host settings w.live.state working plans calls =
        some (plan, preview) →
      (fates.commits preview.pins →
        (preview.pins = [] → (restoredPins settings w.live.artifacts : List (Pin S)) = []) ∧
        (fates.appended ≠ .done → historyBoundaryIsNewer w.live.events = false)) ∧
      (¬fates.commits preview.pins → fates.undone ∨ historyBoundaryIsNewer w.live.events = true)
  | _ => True

/-- What a new compactor would remember is what this one does. -/
structure Restorable (live : Live F S) : Prop where
  summary : ∀ n, (restoreState host.python settings n live.events live.artifacts).summary =
    live.state.summary
  pins : ∀ n, (restoreState host.python settings n live.events live.artifacts).pins.map publicPin =
    live.state.pins.map publicPin

structure Recent (trace : List (Label F S)) (state : State F S) : Prop where
  summary : state.summary = (latest recordedSummary (since isBoundary trace)).getD []
  pins : ∀ pin ∈ state.pins, ∃ l ∈ since isBoundary trace, ∃ recorded ∈ recordedPins l,
    publicPin recorded = publicPin pin

/-- The invariant of the runs that meet the condition. -/
structure Kept (trace : List (Label F S)) (w : World F S) : Prop where
  restorable : Restorable host settings w.live
  clean : w.live.state.summary ≠ [] → CleanSummary w.live.state.summary
  bounded : Bounded F settings w.live.state.pins
  recent : Recent trace w.live.state

variable {host settings} {events : List LogEvent} {state : State F S} {w : World F S}
  {plans : List (ChunkPlan S)} {calls : ChunkPlan S → Call F} {live' : Live F S}
  {plan : ChunkPlan S}

theorem restoreState_of_newer (h : historyBoundaryIsNewer events = true) (n : Nat) (a : Artifacts F) :
    (restoreState host.python settings n events a).summary = [] ∧
      (restoreState host.python settings n events a).pins = [] := by
  unfold restoreState
  rw [h]
  exact ⟨rfl, rfl⟩

theorem restoreState_of_not_newer (h : historyBoundaryIsNewer events = false) (n : Nat)
    (a : Artifacts F) :
    (restoreState host.python settings n events a).summary = restoredSummary host.python a ∧
      (restoreState host.python settings n events a).pins = restoredPins settings a := by
  unfold restoreState
  rw [h]
  exact ⟨rfl, rfl⟩

variable {live : Live F S} {working : List (Message F)}

theorem restorable_of_newer (hnewer : historyBoundaryIsNewer live.events = true)
    (hsummary : live.state.summary = []) (hpins : live.state.pins = []) :
    Restorable host settings live where
  summary n := by rw [(restoreState_of_newer hnewer n _).1, hsummary]
  pins n := by rw [(restoreState_of_newer hnewer n _).2, hpins]

theorem restorable_of_not_newer (hnewer : historyBoundaryIsNewer live.events = false)
    (hsummary : restoredSummary host.python live.artifacts = live.state.summary)
    (hpins : (restoredPins settings live.artifacts : List (Pin S)).map publicPin =
      live.state.pins.map publicPin) : Restorable host settings live where
  summary n := by rw [(restoreState_of_not_newer hnewer n _).1, hsummary]
  pins n := by rw [(restoreState_of_not_newer hnewer n _).2, hpins]

theorem Restorable.of_newer (h : Restorable host settings live)
    (hnewer : historyBoundaryIsNewer live.events = true) :
    live.state.summary = [] ∧ live.state.pins = [] := by
  have hrestored : (restoreState host.python settings 0 live.events live.artifacts).summary = [] ∧
      (restoreState host.python settings 0 live.events live.artifacts).pins = [] :=
    restoreState_of_newer hnewer 0 live.artifacts
  obtain ⟨hsummary, hpins⟩ := hrestored
  constructor
  · rw [← h.summary 0, hsummary]
  · have hshown := h.pins 0
    rw [hpins] at hshown
    exact List.map_eq_nil_iff.mp hshown.symm

theorem Restorable.of_not_newer (h : Restorable host settings live)
    (hnewer : historyBoundaryIsNewer live.events = false) :
    restoredSummary host.python live.artifacts = live.state.summary ∧
      (restoredPins settings live.artifacts : List (Pin S)).map publicPin =
        live.state.pins.map publicPin := by
  have hrestored : (restoreState host.python settings 0 live.events live.artifacts).summary =
        restoredSummary host.python live.artifacts ∧
      (restoreState host.python settings 0 live.events live.artifacts).pins =
        restoredPins settings live.artifacts := restoreState_of_not_newer hnewer 0 live.artifacts
  exact ⟨hrestored.1 ▸ h.summary 0, hrestored.2 ▸ h.pins 0⟩

theorem Restorable.congr (h : Restorable host settings live)
    (hevents : historyBoundaryIsNewer live'.events = historyBoundaryIsNewer live.events)
    (hsummary : live'.artifacts.summary = live.artifacts.summary)
    (hpins : live'.artifacts.pins = live.artifacts.pins)
    (hstate : live'.state.summary = live.state.summary)
    (hstate' : live'.state.pins.map publicPin = live.state.pins.map publicPin) :
    Restorable host settings live' := by
  cases hnewer : historyBoundaryIsNewer live.events with
  | true =>
    obtain ⟨hnone, hnone'⟩ := h.of_newer hnewer
    refine restorable_of_newer (hevents.trans hnewer) (hstate.trans hnone) ?_
    rw [hnone'] at hstate'
    exact List.map_eq_nil_iff.mp hstate'
  | false =>
    obtain ⟨hread, hread'⟩ := h.of_not_newer hnewer
    refine restorable_of_not_newer (hevents.trans hnewer) ?_ ?_
    · rw [hstate, ← hread, restoredSummary, hsummary]
      rfl
    · rw [hstate', ← hread', restoredPins, hpins]
      rfl

/-! ### What a round leaves -/

theorem mem_boundedPins {pin : Pin S} (h : pin ∈ boundedPins F settings pins) : pin ∈ pins := by
  unfold boundedPins at h
  obtain ⟨m, hm⟩ := fitPins_eq_take (F := F) settings.maxPinsChars
    (((Collect.best (fun next existing => decide (scoreOf existing < scoreOf next)) pinKey
      (pins.filter fun pin => pinKey pin ≠ [])).insertionSort
        fun a b => scoreOf b ≤ scoreOf a).take settings.maxPins) _
  rw [hm] at h
  have hmem := (List.perm_insertionSort _ _).mem_iff.mp
    (List.mem_of_mem_take (List.mem_of_mem_take h))
  exact (List.mem_filter.mp (Collect.mem_best hmem)).1

/-- What a preview holds. -/
structure Sound (settings : Settings S) (state : State F S) (preview : Preview F S) : Prop where
  clean : CleanSummary preview.summary
  bounded : Bounded F settings state.pins → Bounded F settings preview.pins
  pins : ∀ pin ∈ preview.pins, pin ∈ state.pins ∨ pin ∈ preview.extracted

theorem sound_of_stage {call : Call F}
    (h : stagePreview host settings state working plan call = some preview) :
    Sound settings state preview := by
  unfold stagePreview at h
  obtain ⟨summary, hsummary, h⟩ := Option.bind_eq_some_iff.mp h
  have hclean : CleanSummary summary := by
    have hcall {reply : Option (Json F)}
        (h : callCompactor host.python state.summary reply = some summary) :
        CleanSummary summary := by
      obtain ⟨value, -, hvalue⟩ := Option.bind_eq_some_iff.mp h
      exact cleanSummary_normalize hvalue
    cases hfirst : callCompactor host.python state.summary call.reply with
    | none =>
      rw [hfirst] at hsummary
      exact hcall hsummary
    | some first =>
      rw [hfirst] at hsummary
      rw [← Option.some.inj hsummary]
      obtain ⟨value, -, hvalue⟩ := Option.bind_eq_some_iff.mp hfirst
      exact cleanSummary_normalize hvalue
  generalize extractPinsForChunk settings (host.historyPath (state.historyChunkIndex + 1))
    plan.scoredTurns = extracted at h
  by_cases hshrinks : call.shrinks = true
  · rw [if_pos hshrinks] at h
    cases h
    by_cases hextracted : extracted = []
    · exact
        { clean := hclean
          bounded := by
            intro hbounded
            rwa [if_pos hextracted]
          pins := by
            intro pin hpin
            rw [if_pos hextracted] at hpin
            exact Or.inl hpin }
    · exact
        { clean := hclean
          bounded := by
            intro _
            rw [if_neg hextracted]
            exact bounded_boundedPins settings _
          pins := by
            intro pin hpin
            rw [if_neg hextracted] at hpin
            exact List.mem_append.mp (mem_boundedPins hpin) }
  · rw [if_neg hshrinks] at h
    cases h

theorem sound_of_select
    (h : selectPreview host settings state working plans calls = some (plan, preview)) :
    Sound settings state preview := by
  obtain ⟨plan', -, hplan⟩ := List.exists_of_findSome?_eq_some h
  obtain ⟨preview', hstaged, heq⟩ := Option.map_eq_some_iff.mp hplan
  obtain ⟨-, rfl⟩ := Prod.mk.inj heq
  exact sound_of_stage hstaged

/-- What a round can do: nothing that counts, commit, or leave something without committing. -/
theorem compactRound_cases {ended : RoundEnd F S}
    (h : compactRound host settings working plans calls fates live = (live', ended)) :
    (live' = live ∧ ended.preview = none) ∨ ∃ plan preview,
        selectPreview host settings live.state working plans calls = some (plan, preview) ∧
        ((fates.commits preview.pins ∧ ended.preview = some preview ∧
            live'.state = live.state.commit preview ∧
            live'.artifacts.summary = .holds preview.summary ∧
            live'.artifacts.pins = (if preview.pins = [] then live.artifacts.pins
                else .holds (preview.pins.map publicPin)) ∧
            live'.events = live.events ++
              (if fates.appended = .done then [.conversationSummaryUpdated] else [])) ∨
          (¬fates.commits preview.pins ∧ ended.preview = none ∧ live'.state = live.state ∧
            live'.events = live.events ∧
            (fates.undone → live'.artifacts.summary = live.artifacts.summary ∧
              live'.artifacts.pins = live.artifacts.pins))) := by
  unfold compactRound at h
  cases hselect : selectPreview host settings live.state working plans calls with
  | none =>
    rw [hselect] at h
    cases h
    exact Or.inl ⟨rfl, rfl⟩
  | some selected =>
    obtain ⟨plan, preview⟩ := selected
    rw [hselect] at h
    refine Or.inr ⟨plan, preview, rfl, ?_⟩
    dsimp only at h
    by_cases hcommits : fates.commits preview.pins
    · left
      obtain ⟨a, ha, hsummary, hpins⟩ := commit_of_commits hcommits
      rw [ha] at h
      cases happended : fates.appended with
      | done =>
        rw [happended] at h
        cases h
        exact ⟨hcommits, rfl, rfl, hsummary, hpins, rfl⟩
      | fails | dies =>
        rw [happended] at h
        cases h
        exact ⟨hcommits, rfl, rfl, hsummary, hpins, by simp⟩
    · right
      obtain ⟨a, committed, ha, hnot, hundone⟩ := commit_of_not_commits hcommits
      rw [ha] at h
      match committed, hnot with
      | none, _ | some false, _ =>
        cases h
        exact ⟨hcommits, rfl, rfl, rfl, hundone⟩
      | some true, hnot => exact absurd rfl hnot

/-! ### What was recorded behind the latest boundary -/

variable {trace : List (Label F S)} {l : Label F S} {state state' : State F S}

omit [Json.Floats F] [LinearOrder S] [Zero S] in
theorem Recent.congr (h : Recent trace state) (hsummary : state'.summary = state.summary)
    (hpins : state'.pins.map publicPin = state.pins.map publicPin) : Recent trace state' where
  summary := hsummary.trans h.summary
  pins := by
    intro pin hpin
    have hmem : publicPin pin ∈ state.pins.map publicPin :=
      hpins ▸ List.mem_map_of_mem hpin
    obtain ⟨pin', hpin', heq⟩ := List.mem_map.mp hmem
    obtain ⟨l', hl', recorded, hrecorded, hshown⟩ := h.pins pin' hpin'
    exact ⟨l', hl', recorded, hrecorded, hshown.trans heq⟩

omit [Json.Floats F] [LinearOrder S] [Zero S] in
theorem Recent.unrecorded (h : Recent trace state) (hl : isBoundary l = false)
    (hnone : l.2.bind RoundEnd.preview = none) : Recent (trace ++ [l]) state where
  summary := by
    have hrecorded : recordedSummary l = none := by rw [recordedSummary, hnone]; rfl
    rw [since_snoc_of_neg hl, latest_snoc_none hrecorded]
    exact h.summary
  pins := by
    intro pin hpin
    obtain ⟨l', hl', hrecorded⟩ := h.pins pin hpin
    rw [since_snoc_of_neg hl]
    exact ⟨l', List.mem_append_left _ hl', hrecorded⟩

omit [LinearOrder S] [Zero S] in
theorem Recent.recorded (h : Recent trace state)
    (hl : isBoundary l = false) (hsome : l.2.bind RoundEnd.preview = some preview)
    (hsound : Sound settings state preview) :
    Recent (trace ++ [l]) (state.commit preview) where
  summary := by
    have hrecorded : recordedSummary l = some preview.summary := by
      rw [recordedSummary, hsome]
      rfl
    rw [since_snoc_of_neg hl, latest_snoc_some hrecorded]
    rfl
  pins := by
    intro pin hpin
    have hrecorded : recordedPins l = preview.extracted := by
      rw [recordedPins, hsome]
      rfl
    rw [since_snoc_of_neg hl]
    rcases hsound.pins pin hpin with hpin | hpin
    · obtain ⟨l', hl', hl''⟩ := h.pins pin hpin
      exact ⟨l', List.mem_append_left _ hl', hl''⟩
    · exact ⟨l, List.mem_append_right _ List.mem_cons_self, pin, hrecorded ▸ hpin, rfl⟩

omit [Json.Floats F] [LinearOrder S] [Zero S] in
theorem Recent.boundary (hl : isBoundary l = true) : Recent (trace ++ [l]) (state.reset) where
  summary := by
    rw [since_snoc_of_pos hl]
    rfl
  pins := by
    intro pin hpin
    cases hpin

/-! ### Every step keeps the memory -/

theorem Kept.round {w : World F S} {working : List (Message F)} {plans : List (ChunkPlan S)}
    {calls : ChunkPlan S → Call F} {live' : Live F S}
    {ended : RoundEnd F S} {running : Bool} (h : Kept host settings trace w)
    (hkeeps : Keeps host settings w (.round working plans calls fates))
    (hround : compactRound host settings working plans calls fates w.live = (live', ended)) :
    Kept host settings (trace ++ [(.round working plans calls fates, some ended)])
      ⟨live', running⟩ := by
  have hl : isBoundary ((.round working plans calls fates, some ended) : Label F S) = false := rfl
  rcases compactRound_cases hround with ⟨rfl, hended⟩ | ⟨plan, preview, hselect, hcases⟩
  · exact
      { restorable := h.restorable
        clean := h.clean
        bounded := h.bounded
        recent := h.recent.unrecorded hl hended }
  · obtain ⟨hcommit, hundo⟩ := hkeeps plan preview hselect
    have hsound := sound_of_select hselect
    rcases hcases with ⟨hcommits, hended, hstate, hsummary, hpins, hevents⟩ |
        ⟨hcommits, hended, hstate, hevents, hundone⟩
    · obtain ⟨hempty, happended⟩ := hcommit hcommits
      have hnewer : historyBoundaryIsNewer live'.events = false := by
        by_cases hdone : fates.appended = .done
        · rw [hevents, if_pos hdone, historyBoundaryIsNewer_snoc]
          rfl
        · rw [hevents, if_neg hdone, List.append_nil]
          exact happended hdone
      exact
        { restorable := by
            refine restorable_of_not_newer hnewer ?_ ?_
            · rw [restoredSummary, hsummary, hstate]
              dsimp only
              rw [hsound.clean.normalize_eq]
              rfl
            · rw [hstate]
              by_cases hnone : preview.pins = []
              · have hold : (restoredPins settings live'.artifacts : List (Pin S)) = [] := by
                  rw [← hempty hnone, restoredPins, hpins, if_pos hnone]
                  rfl
                rw [hold]
                show [] = preview.pins.map publicPin
                rw [hnone]
                rfl
              · rw [restoredPins, hpins, if_neg hnone]
                dsimp only
                rw [List.map_map]
                have hread := (hsound.bounded h.bounded).restore_eq
                rw [show (preview.pins.map (restoredPin ∘ publicPin) : List (Pin S)) =
                  preview.pins.map fun pin => restoredPin (publicPin pin) from rfl, hread,
                  List.map_map]
                exact List.map_congr_left fun pin _ => publicPin_restored pin
          clean := by
            rw [hstate]
            exact fun _ => hsound.clean
          bounded := by
            rw [hstate]
            exact hsound.bounded h.bounded
          recent := by
            rw [hstate]
            exact h.recent.recorded hl hended hsound }
    · exact
        { restorable := by
            rcases hundo hcommits with hundo | hnewer
            · obtain ⟨hsummary, hpins⟩ := hundone hundo
              exact h.restorable.congr (by rw [hevents]) hsummary hpins (by rw [hstate])
                (by rw [hstate])
            · obtain ⟨hsummary, hpins⟩ := h.restorable.of_newer hnewer
              exact restorable_of_newer (hevents ▸ hnewer) (hstate ▸ hsummary) (hstate ▸ hpins)
          clean := hstate ▸ h.clean
          bounded := hstate ▸ h.bounded
          recent := hstate ▸ h.recent.unrecorded hl hended }

theorem kept_boundary (w : World F S) (kind : BoundaryKind) :
    Kept host settings (trace ++ [(.boundary kind, none)]) ⟨{ w.live with
        state := w.live.state.reset
        events := w.live.events ++ [kind.event, .other "compaction_state_reset"] }, true⟩ where
  restorable := by
    refine restorable_of_newer ?_ rfl rfl
    have hevents : w.live.events ++ [kind.event, .other "compaction_state_reset"] =
        w.live.events ++ [kind.event] ++ [.other "compaction_state_reset"] := by simp
    have hboundary : kind.event.isBoundary = true := by
      cases kind with
      | cleared | rolloverArmed => rfl
    rw [hevents, historyBoundaryIsNewer_other, historyBoundaryIsNewer_snoc, if_pos hboundary]
  clean := fun hne => absurd rfl hne
  bounded := bounded_nil settings
  recent := Recent.boundary rfl

theorem Kept.logged (h : Kept host settings trace w) (type : String) :
    Kept host settings (trace ++ [(.logged type, none)])
      ⟨{ w.live with events := w.live.events ++ [.other type] }, true⟩ where
  restorable := h.restorable.congr (historyBoundaryIsNewer_other _ type) rfl rfl rfl rfl
  clean := h.clean
  bounded := h.bounded
  recent := h.recent.unrecorded rfl rfl

theorem Kept.restart (h : Kept host settings trace w) (n : Nat) :
    Kept host settings (trace ++ [(.restart n, none)])
      ⟨Compaction.restart host settings n w.live, true⟩ where
  restorable := h.restorable.congr (historyBoundaryIsNewer_other _ _) rfl rfl
    (h.restorable.summary n) (h.restorable.pins n)
  clean := by
    show (restoreState host.python settings n w.live.events w.live.artifacts).summary ≠ [] →
      CleanSummary (restoreState host.python settings n w.live.events w.live.artifacts).summary
    rw [h.restorable.summary n]
    exact h.clean
  bounded := by
    show Bounded F settings
      (restoreState host.python settings n w.live.events w.live.artifacts).pins
    cases hnewer : historyBoundaryIsNewer w.live.events with
    | true =>
      rw [(restoreState_of_newer hnewer n _).2]
      exact bounded_nil settings
    | false =>
      rw [(restoreState_of_not_newer hnewer n _).2, restoredPins]
      split
      · exact bounded_boundedPins settings _
      · exact bounded_nil settings
  recent := (h.recent.unrecorded rfl rfl).congr (h.restorable.summary n) (h.restorable.pins n)

theorem kept_start (n : Nat) : Kept host settings [] (World.start n) where
  restorable := restorable_of_not_newer rfl rfl rfl
  clean := fun hne => absurd rfl hne
  bounded := bounded_nil settings
  recent := ⟨rfl, by intro pin hpin; cases hpin⟩

theorem Kept.step {w w' : World F S} (h : Kept host settings trace w)
    (hkeeps : Keeps host settings w l.1) (hstep : Step host settings w l w') :
    Kept host settings (trace ++ [l]) w' := by
  obtain ⟨op, ended⟩ := l
  obtain ⟨live, running⟩ := w
  cases op with
  | restart n =>
    cases hstep
    exact h.restart n
  | round working plans calls fates =>
    cases running with
    | false => cases hstep
    | true =>
      cases hstep
      exact h.round hkeeps rfl
  | boundary kind =>
    cases running with
    | false => cases hstep
    | true =>
      cases hstep
      exact kept_boundary ⟨live, true⟩ kind
  | logged type =>
    cases running with
    | false => cases hstep
    | true =>
      cases hstep
      exact h.logged type

end Kept

/-- A host for which every turn is worth nothing. -/
def plainHost : Host Unit Nat where
  python :=
    { str := fun _ => ""
      isZero := fun _ => true }
  scoreTurn := fun _ => (0, [], "")
  estimateTurnTokens := fun _ => 0
  density := fun _ _ => 0
  historyPath := fun _ => "history"

def plainSettings : Settings Nat where
  recentUserTurnsToKeep := 8
  maxChunkMessages := 60
  executionMinRemovableMessages := 2
  executionMinRemovableTokens := 1024
  importanceEnabled := true
  importanceStrategy := .lowestDensity
  pinScoreThreshold := 6
  maxPins := 20
  maxPinsChars := 8000
  pinSnippetChars := 600
  recentUserTurnsToKeep_pos := by decide
  maxChunkMessages_pos := by decide

/-- A turn that is worth a pin. -/
def pinnedTurn : ScoredTurn Nat where
  start := 0
  stop := 1
  tokenEstimate := 1
  score := 9
  density := 9
  reasons := []
  userPreview := "never"

def pinnedPlan : ChunkPlan Nat := { start := 0, stop := 0, scoredTurns := [pinnedTurn] }

def restPlan : ChunkPlan Nat := { start := 0, stop := 0, scoredTurns := [] }

/-- A reply that says nothing. -/
def plainCall : Call Unit := { reply := some (.obj []), retry := none, shrinks := true }

def plainSummary : Members Unit := summaryOf "" [] [] [] [] []

/-- The preview of a plan whose reply says nothing. -/
def plainPreview (state : State Unit Nat) (plan : ChunkPlan Nat) : Preview Unit Nat :=
  let extracted := extractPinsForChunk plainSettings "history" plan.scoredTurns
  let pins :=
    if extracted = [] then state.pins
    else boundedPins Unit plainSettings (state.pins ++ extracted)
  { updated := upsertContextMessages plainHost.python state.pinnedPrefixLen
      (without [] plan.start plan.stop) plainSummary pins
    summary := plainSummary
    extracted := extracted
    pins := pins }

theorem selectPreview_plain {state : State Unit Nat} (hstate : state.summary = [])
    (plan : ChunkPlan Nat) :
    selectPreview plainHost plainSettings state [] [plan] (fun _ => plainCall) =
      some (plan, plainPreview state plan) := by
  have hcall : callCompactor plainHost.python state.summary plainCall.reply =
      some plainSummary := by
    rw [hstate]
    rfl
  have hstage : stagePreview plainHost plainSettings state [] plan plainCall =
      some (plainPreview state plan) := by
    unfold stagePreview
    rw [hcall]
    rfl
  rw [selectPreview, List.findSome?_cons, hstage]
  rfl

theorem exec_plain {live : Live Unit Nat} (hstate : live.state.summary = [])
    (plan : ChunkPlan Nat) :
    ∃ a, exec plainHost plainSettings (.round [] [plan] (fun _ => plainCall) {}) ⟨live, true⟩ =
        some (⟨⟨live.state.commit (plainPreview live.state plan), a,
          live.events ++ [.conversationSummaryUpdated]⟩, true⟩,
          some (.committed (plainPreview live.state plan))) ∧
      a.pins = (if (plainPreview live.state plan).pins = [] then live.artifacts.pins
          else .holds ((plainPreview live.state plan).pins.map publicPin)) := by
  have hselect := selectPreview_plain hstate plan
  generalize plainPreview live.state plan = preview at hselect ⊢
  have hcommits : CommitFates.commits {} preview.pins := ⟨rfl, rfl, rfl, fun _ => rfl⟩
  obtain ⟨a, ha, -, hpins⟩ : ∃ a, commitExecutionArtifacts {} (live.state.historyChunkIndex + 1)
      (historyChunk (slice [] plan.start plan.stop) plan.start) preview.summary preview.pins
        live.artifacts = (a, some true) ∧ a.summary = .holds preview.summary ∧
      a.pins = if preview.pins = [] then live.artifacts.pins
        else .holds (preview.pins.map publicPin) := commit_of_commits hcommits
  have hround : compactRound plainHost plainSettings [] [plan] (fun _ => plainCall) {} live =
      (⟨live.state.commit preview, a, live.events ++ [.conversationSummaryUpdated]⟩,
        .committed preview) := by
    unfold compactRound
    rw [hselect]
    dsimp only
    rw [ha]
  refine ⟨a, ?_, hpins⟩
  show some (World.mk (compactRound plainHost plainSettings [] [plan] _ {} live).1
    (compactRound plainHost plainSettings [] [plan] _ {} live).2.survived,
      some (compactRound plainHost plainSettings [] [plan] _ {} live).2) = _
  rw [hround]
  rfl

/-- A round with pins, a boundary, and a round without. -/
def cutTrace : List (Label Unit Nat) :=
  let first := plainPreview (World.start 0).live.state pinnedPlan
  let second := plainPreview ((World.start 0).live.state.commit first).reset restPlan
  [(.round [] [pinnedPlan] (fun _ => plainCall) {}, some (.committed first)),
    (.boundary .cleared, none),
    (.round [] [restPlan] (fun _ => plainCall) {}, some (.committed second))]

theorem pinned_ne_nil :
    (plainPreview (World.start 0 : World Unit Nat).live.state pinnedPlan).pins ≠ [] := by
  have hone : (plainPreview (World.start 0 : World Unit Nat).live.state pinnedPlan).pins.length =
      1 := by decide +kernel
  intro h
  rw [h] at hone
  cases hone

end AlysisCode.Compaction
