/-
Staging the artifacts of a compaction, and reading what they held.

A staging goes well, is refused before there is a temporary file, or is spoiled: it raises, or
it returns and its file stays.  A refusal is undone completely; what is spoiled is not.
-/
import AlysisCode.Compaction.Artifacts

namespace AlysisCode.Compaction.Artifacts

open Json PromptQueue

variable {F : Type}

/-! ### What a text says of what is written -/

theorem literal_encodes (text : String) : (literal text).any CodePoint.isSurrogate = false := by
  unfold literal PyStr.ofString
  rw [List.any_map, List.any_eq_false]
  intro c _
  exact Bool.false_ne_true

theorem mentionsItems_iff {str : PyStr → Bool} {int : Int → Bool} {items : List (JsonValue F)} :
    JsonValue.mentionsItems str int items = true ↔ ∃ v ∈ items, v.mentions str int = true := by
  induction items with
  | nil => simp [JsonValue.mentionsItems]
  | cons v rest ih => simp [JsonValue.mentionsItems, ih]

theorem text_eq_none [Floats F] (call : Call F) (a : Artifact) :
    call.text a = none ↔ ¬ call.Encodes a := by
  cases a with
  | history index =>
    have hitems := encodeItems_eq_none call.historyRows
    rw [mentionsItems_iff] at hitems
    show (JsonValue.encodeItems call.historyRows).map _ = none ↔ _
    rw [Option.map_eq_none_iff, hitems]
    unfold Call.Encodes JsonValue.hasSurrogate
    simp
  | summary =>
    show (JsonValue.encode (.obj call.summary)).map _ = none ↔ _
    rw [Option.map_eq_none_iff, encode_eq_none]
    unfold Call.Encodes
    simp
  | pins =>
    show (JsonValue.encode call.pinsPayload).map _ = none ↔ _
    rw [Option.map_eq_none_iff, encode_eq_none]
    unfold Call.Encodes JsonValue.hasSurrogate Call.pinsPayload
    simp only [JsonValue.mentions, JsonValue.mentionsMembers, literal_encodes, Bool.false_or,
      Bool.or_false, mentionsItems_iff, List.mem_map, exists_exists_and_eq_and]
    simp

/-! ### Faults -/

variable {α : Type} (w : World) {b : Artifact} {raised : Raised}

variable {fault : Fault} {a : Artifact}

theorem Fault.at_eq_some {step : Step} :
    fault.at step = some raised ↔ ∃ f, fault = some f ∧ f.step = step ∧ f.raised = raised := by
  unfold Fault.at
  cases fault with
  | none => simp
  | some f =>
    by_cases hstep : f.step = step
    · simp [hstep]
    · simp [hstep, Option.filter_some]

theorem Fault.at_unique {step step' : Step} {raised' : Raised}
    (h : fault.at step = some raised) (h' : fault.at step' = some raised') : step = step' := by
  obtain ⟨f, rfl, rfl, -⟩ := Fault.at_eq_some.mp h
  obtain ⟨f', hf, rfl, -⟩ := Fault.at_eq_some.mp h'
  cases hf
  rfl

/-- Staging is refused before there is a file. -/
def Refuses (fault : Fault) (a : Artifact) : Prop :=
  ∃ step error, (step = .mkdir ∨ step = .create) ∧ fault.at (.stage a step) = some (.osError error)

/-- A step of the staging fails. -/
def Stumbles (fault : Fault) (a : Artifact) : Prop :=
  ∃ step raised, fault.at (.stage a step) = some raised

theorem Refuses.stumbles (h : Refuses fault a) : Stumbles fault a := by
  obtain ⟨step, error, -, hat⟩ := h
  exact ⟨step, _, hat⟩

theorem Stumbles.unique (h : Stumbles fault a) (h' : Stumbles fault b) : a = b := by
  obtain ⟨step, raised, hat⟩ := h
  obtain ⟨step', raised', hat'⟩ := h'
  exact (Step.stage.inj (Fault.at_unique hat hat')).1

/-! ### Staging -/

variable {call : Call F} (path : FilePath)

@[simp] theorem put_files (bytes : Option Bytes) :
    (w.put path bytes).files = Function.update w.files path bytes := rfl

@[simp] theorem put_historyChunkIndex (bytes : Option Bytes) :
    (w.put path bytes).historyChunkIndex = w.historyChunkIndex := rfl

theorem handle_osError (error warning : String) (a : Artifact) (chunk : Option (Nat × Nat))
    (value : α) :
    ∃ w', w.handle (.osError error) warning a chunk value = (.ok value, w') ∧
      w'.files = w.files ∧ w'.historyChunkIndex = w.historyChunkIndex :=
  ⟨_, rfl, rfl, rfl⟩

theorem handle_other (h : raised.isOSError = false) (warning : String) (a : Artifact)
    (chunk : Option (Nat × Nat)) (value : α) :
    w.handle raised warning a chunk value = (.error raised, w) := by
  cases raised with
  | osError => cases h
  | unicodeEncodeError | other => rfl

/-- The result of a step, when it did not go well: an exception, or a file too many. -/
def Spoiled (value : α) (outcome : Outcome α) : Prop :=
  (∃ raised w', outcome = (.error raised, w')) ∨
    ∃ w', outcome = (.ok value, w') ∧ w'.files path ≠ none

theorem spoiled_handle (raised : Raised) (warning : String) (a : Artifact)
    (chunk : Option (Nat × Nat)) (value : α) (path : FilePath) (bytes : Bytes) :
    Spoiled path value ((w.put path (some bytes)).handle raised warning a chunk value) := by
  cases hraised : raised.isOSError with
  | false => exact .inl ⟨_, _, handle_other _ hraised _ _ _ _⟩
  | true =>
    cases raised with
    | osError error =>
      obtain ⟨w', hw', hfiles, -⟩ :=
        handle_osError (w.put path (some bytes)) error warning a chunk value
      refine .inr ⟨w', hw', ?_⟩
      rw [hfiles, put_files, Function.update_self]
      exact Option.some_ne_none bytes
    | unicodeEncodeError | other => cases hraised

variable {fault : Fault} {files : Files} {temp : TempNames files}

theorem stage_cases (fault : Fault) (temp : TempNames files) (a : Artifact) (contents : Option String) (warning : String)
    (chunk : Option (Nat × Nat)) (w : World) :
    (¬ Stumbles fault a ∧ ∃ text, contents = some text ∧
      stageArtifactText fault temp a contents warning chunk w =
        (.ok (some (temp.path a)), w.put (temp.path a) (some (bytesOf text)))) ∨
    (Refuses fault a ∧ ∃ w', stageArtifactText fault temp a contents warning chunk w =
      (.ok none, w') ∧ w'.files = w.files ∧ w'.historyChunkIndex = w.historyChunkIndex) ∨
    (¬ Refuses fault a ∧ (Stumbles fault a ∨ contents = none) ∧
      Spoiled (temp.path a) none (stageArtifactText fault temp a contents warning chunk w)) := by
  have hearly (step : StageStep) (hstep : step = .mkdir ∨ step = .create) (raised : Raised)
      (hat : fault.at (.stage a step) = some raised)
      (hwritten : writeStaged fault a contents = (some raised, none)) :
      (Refuses fault a ∧ ∃ w', stageArtifactText fault temp a contents warning chunk w =
        (.ok none, w') ∧ w'.files = w.files ∧ w'.historyChunkIndex = w.historyChunkIndex) ∨
      (¬ Refuses fault a ∧ (Stumbles fault a ∨ contents = none) ∧
        Spoiled (temp.path a) none (stageArtifactText fault temp a contents warning chunk w)) := by
    have houtcome : stageArtifactText fault temp a contents warning chunk w =
        w.handle raised warning a chunk none := by
      unfold stageArtifactText
      rw [hwritten]
      rfl
    rw [houtcome]
    cases hraised : raised.isOSError with
    | true =>
      cases raised with
      | osError error =>
        exact .inl ⟨⟨step, error, hstep, hat⟩, handle_osError w error warning a chunk none⟩
      | unicodeEncodeError | other => cases hraised
    | false =>
      refine .inr ⟨?_, .inl ⟨step, raised, hat⟩, Or.inl ⟨_, _, handle_other w hraised _ _ _ _⟩⟩
      rintro ⟨step', error, -, hat'⟩
      obtain rfl := (Step.stage.inj (Fault.at_unique hat hat')).2
      rw [hat] at hat'
      cases hat'
      cases hraised
  cases hmkdir : fault.at (.stage a .mkdir) with
  | some raised =>
    right
    refine hearly .mkdir (.inl rfl) raised hmkdir ?_
    unfold writeStaged
    rw [hmkdir]
  | none =>
    cases hcreate : fault.at (.stage a .create) with
    | some raised =>
      right
      refine hearly .create (.inr rfl) raised hcreate ?_
      unfold writeStaged
      rw [hmkdir, hcreate]
    | none =>
      have hnot : ¬ Refuses fault a := by
        rintro ⟨step, error, rfl | rfl, hat⟩
        · rw [hmkdir] at hat
          cases hat
        · rw [hcreate] at hat
          cases hat
      have hlate (raised : Raised) (bytes : Bytes)
          (hwritten : writeStaged fault a contents = (some raised, some bytes)) :
          Spoiled (temp.path a) none (stageArtifactText fault temp a contents warning chunk w) := by
        have houtcome : stageArtifactText fault temp a contents warning chunk w =
            (w.put (temp.path a) (some bytes)).handle raised warning a chunk none := by
          unfold stageArtifactText
          rw [hwritten]
          rfl
        rw [houtcome]
        exact spoiled_handle w raised warning a chunk none _ bytes
      cases contents with
      | none =>
        right
        right
        refine ⟨hnot, .inr rfl, ?_⟩
        cases hclose : fault.at (.stage a .close) with
        | none =>
          refine hlate .unicodeEncodeError [] ?_
          unfold writeStaged
          rw [hmkdir, hcreate, hclose]
          rfl
        | some raised =>
          refine hlate raised [] ?_
          unfold writeStaged
          rw [hmkdir, hcreate, hclose]
          rfl
      | some text =>
        cases hwrite : fault.at (.stage a .write) with
        | some raised =>
          right
          right
          refine ⟨hnot, .inl ⟨_, _, hwrite⟩, hlate raised fault.leaves ?_⟩
          unfold writeStaged
          rw [hmkdir, hcreate, hwrite]
          rfl
        | none =>
          cases hclose : fault.at (.stage a .close) with
          | some raised =>
            right
            right
            refine ⟨hnot, .inl ⟨_, _, hclose⟩, hlate raised fault.leaves ?_⟩
            unfold writeStaged
            rw [hmkdir, hcreate, hwrite, hclose]
            rfl
          | none =>
            left
            refine ⟨?_, text, rfl, ?_⟩
            · rintro ⟨step, raised, hat⟩
              cases step with
              | mkdir =>
                rw [hmkdir] at hat
                cases hat
              | create =>
                rw [hcreate] at hat
                cases hat
              | write =>
                rw [hwrite] at hat
                cases hat
              | close =>
                rw [hclose] at hat
                cases hat
            · unfold stageArtifactText writeStaged
              rw [hmkdir, hcreate, hwrite, hclose]
              rfl

/-! ### The three staged files -/

def Artifact.earlier (index : Nat) : Artifact → List Artifact
  | .history _ => []
  | .summary => [.history index]
  | .pins => [.history index, .summary]

theorem mem_artifacts {index : Nat} : a ∈ call.artifacts index ↔
      a = .history index ∨ a = .summary ∨ (a = .pins ∧ call.pins ≠ []) := by
  unfold Call.artifacts
  by_cases hpins : call.pins = []
  · simp [hpins]
  · simp [hpins]

theorem earlier_total {index : Nat} (ha : a ∈ call.artifacts index)
    (hb : b ∈ call.artifacts index) (hne : a ≠ b) :
    a ∈ b.earlier index ∨ b ∈ a.earlier index := by
  rcases mem_artifacts.mp ha with rfl | rfl | ⟨rfl, -⟩
  · rcases mem_artifacts.mp hb with rfl | rfl | ⟨rfl, -⟩
    · exact absurd rfl hne
    · exact .inl List.mem_cons_self
    · exact .inl List.mem_cons_self
  · rcases mem_artifacts.mp hb with rfl | rfl | ⟨rfl, -⟩
    · exact .inr List.mem_cons_self
    · exact absurd rfl hne
    · exact .inl (List.mem_cons_of_mem _ List.mem_cons_self)
  · rcases mem_artifacts.mp hb with rfl | rfl | ⟨rfl, -⟩
    · exact .inr List.mem_cons_self
    · exact .inr (List.mem_cons_of_mem _ List.mem_cons_self)
    · exact absurd rfl hne

/-- The temporary files are there, with the texts. -/
def World.stagedAt [Floats F] (w : World) (temp : TempNames files) (call : Call F)
    (artifacts : List Artifact) : World :=
  artifacts.foldl (fun w a => w.put (temp.path a) ((call.text a).map bytesOf)) w

theorem path_injective (temp : TempNames files) (h : temp.path a = temp.path b) : a = b :=
  (FilePath.staged.inj h).1

theorem cleanup_files (paths : List FilePath) (path : FilePath) :
    (w.cleanup paths).files path = if path ∈ paths then none else w.files path := by
  unfold World.cleanup
  induction paths generalizing w with
  | nil => simp
  | cons first rest ih =>
    rw [List.foldl_cons, ih]
    by_cases hrest : path ∈ rest
    · rw [if_pos hrest, if_pos (List.mem_cons_of_mem _ hrest)]
    · rw [if_neg hrest, put_files]
      by_cases hfirst : path = first
      · rw [hfirst, Function.update_self, if_pos List.mem_cons_self]
      · rw [Function.update_of_ne hfirst, if_neg]
        rw [List.mem_cons, not_or]
        exact ⟨hfirst, hrest⟩

@[simp] theorem cleanup_historyChunkIndex (paths : List FilePath) :
    (w.cleanup paths).historyChunkIndex = w.historyChunkIndex := by
  unfold World.cleanup
  induction paths generalizing w with
  | nil => rfl
  | cons first _ ih => exact ih (w.put first none)

section Staged

variable [Floats F]

variable (call : Call F) (artifacts : List Artifact) {a : Artifact}

theorem stagedAt_files_of_notMem {artifacts : List Artifact} (w : World) {path : FilePath}
    (h : ∀ a ∈ artifacts, path ≠ temp.path a) :
    (w.stagedAt temp call artifacts).files path = w.files path := by
  unfold World.stagedAt
  induction artifacts generalizing w with
  | nil => rfl
  | cons a rest ih =>
    rw [List.foldl_cons, ih _ fun b hb => h b (List.mem_cons_of_mem _ hb), put_files,
      Function.update_of_ne (h a List.mem_cons_self)]

theorem stagedAt_files_path {artifacts : List Artifact} (w : World) (hnodup : artifacts.Nodup)
    (ha : a ∈ artifacts) :
    (w.stagedAt temp call artifacts).files (temp.path a) = (call.text a).map bytesOf := by
  induction artifacts generalizing w with
  | nil => cases ha
  | cons b rest ih =>
    rw [List.nodup_cons] at hnodup
    rcases List.mem_cons.mp ha with rfl | ha
    · have hother : ∀ c ∈ rest, temp.path a ≠ temp.path c := by
        intro c hc heq
        obtain rfl := path_injective temp heq
        exact hnodup.1 hc
      refine (stagedAt_files_of_notMem call _ hother).trans ?_
      rw [put_files, Function.update_self]
    · exact ih _ hnodup.2 ha

@[simp] theorem stagedAt_historyChunkIndex (w : World) :
    (w.stagedAt temp call artifacts).historyChunkIndex = w.historyChunkIndex := by
  unfold World.stagedAt
  induction artifacts generalizing w with
  | nil => rfl
  | cons a _ ih => exact ih _

def stagedOf (temp : TempNames files) (call : Call F) (index : Nat) : Staged where
  history := temp.path (.history index)
  summary := temp.path .summary
  pins := if call.pins = [] then none else some (temp.path .pins)

omit [Floats F] in
theorem stagedOf_all (call : Call F) (index : Nat) :
    (stagedOf temp call index).all = (call.artifacts index).map temp.path := by
  unfold Staged.all stagedOf Call.artifacts
  by_cases hpins : call.pins = []
  · simp [hpins]
  · simp [hpins]

theorem cleanup_staged {w w' : World} {temp : TempNames w.files} {call : Call F}
    (h : w'.files = (w.stagedAt temp call artifacts).files) :
    (w'.cleanup (artifacts.map temp.path)).files = w.files := by
  funext path
  rw [cleanup_files]
  by_cases hpath : path ∈ artifacts.map temp.path
  · obtain ⟨a, -, rfl⟩ := List.mem_map.mp hpath
    rw [if_pos hpath]
    exact (temp.fresh a).symm
  · rw [if_neg hpath, h]
    refine stagedAt_files_of_notMem call w fun a ha heq => hpath ?_
    exact heq ▸ List.mem_map_of_mem ha

theorem spoiled_cleanup {w : World} (ha : a ∉ artifacts) (h : w.files (temp.path a) ≠ none) :
    (w.cleanup (artifacts.map temp.path)).files (temp.path a) ≠ none := by
  rw [cleanup_files, if_neg]
  · exact h
  · intro hmem
    obtain ⟨b, hb, heq⟩ := List.mem_map.mp hmem
    obtain rfl := path_injective temp heq
    exact ha hb

theorem stageAll_cases (fault : Fault) (call : Call F) (index : Nat) (w : World)
    (temp : TempNames w.files) :
    ((∀ a ∈ call.artifacts index, ¬ Stumbles fault a ∧ call.Encodes a) ∧
      stageAll fault temp call index w =
        (.ok (some (stagedOf temp call index)), w.stagedAt temp call (call.artifacts index))) ∨
    ((∃ a ∈ call.artifacts index, Refuses fault a ∧ ∀ b ∈ a.earlier index, call.Encodes b) ∧
      ∃ w', stageAll fault temp call index w = (.ok none, w') ∧ w'.files = w.files ∧
        w'.historyChunkIndex = w.historyChunkIndex) ∨
    ((∃ a ∈ call.artifacts index, ¬ Refuses fault a ∧ (Stumbles fault a ∨ ¬ call.Encodes a) ∧
        ∀ b ∈ a.earlier index, ¬ Stumbles fault b) ∧
      ((∃ raised w', stageAll fault temp call index w = (.error raised, w')) ∨
        ∃ w', stageAll fault temp call index w = (.ok none, w') ∧ w'.files ≠ w.files)) := by
  have hhistory : Artifact.history index ∈ call.artifacts index := mem_artifacts.mpr (.inl rfl)
  have hsummary : Artifact.summary ∈ call.artifacts index :=
    mem_artifacts.mpr (.inr (.inl rfl))
  have hencodes {a : Artifact} {text : String} (h : call.text a = some text) : call.Encodes a := by
    by_contra hnot
    rw [(text_eq_none call a).mpr hnot] at h
    cases h
  unfold stageAll
  rcases stage_cases fault temp (.history index)
      (call.text (.history index)) "history_chunk_write_failed"
      (some (call.firstIdx, call.chunkMessages.length)) w with
    ⟨hquiet₁, text₁, htext₁, hstage₁⟩ | ⟨hrefuses, w', hstage₁, hfiles, hindex⟩ |
    ⟨hnot, hbad, hspoiled⟩
  · rw [hstage₁]
    dsimp only
    generalize hw₁ : w.put (temp.path (.history index)) (some (bytesOf text₁)) = w₁
    have hstaged₁ : w₁ = w.stagedAt temp call [.history index] := by
      rw [← hw₁, ← Option.map_some, ← htext₁]
      rfl
    rcases stage_cases fault temp .summary (call.text .summary) "summary_write_failed" none w₁ with
      ⟨hquiet₂, text₂, htext₂, hstage₂⟩ | ⟨hrefuses, w', hstage₂, hfiles, hindex⟩ |
      ⟨hnot, hbad, hspoiled⟩
    · rw [hstage₂]
      dsimp only
      generalize hw₂ : w₁.put (temp.path .summary) (some (bytesOf text₂)) = w₂
      have hstaged₂ : w₂ = w.stagedAt temp call [.history index, .summary] := by
        rw [← hw₂, hstaged₁, ← Option.map_some, ← htext₂]
        rfl
      by_cases hpins : call.pins = []
      · left
        rw [if_pos hpins]
        have hartifacts : call.artifacts index = [.history index, .summary] := by
          unfold Call.artifacts
          rw [if_pos hpins]
          rfl
        refine ⟨?_, ?_⟩
        · intro a ha
          rw [hartifacts] at ha
          simp only [List.mem_cons, List.not_mem_nil, or_false] at ha
          rcases ha with rfl | rfl
          · exact ⟨hquiet₁, hencodes htext₁⟩
          · exact ⟨hquiet₂, hencodes htext₂⟩
        · rw [hartifacts, ← hstaged₂]
          unfold stagedOf
          rw [if_pos hpins]
      · rw [if_neg hpins]
        have hmem : Artifact.pins ∈ call.artifacts index :=
          mem_artifacts.mpr (.inr (.inr ⟨rfl, hpins⟩))
        rcases stage_cases fault temp .pins (call.text .pins) "pins_write_failed" none w₂ with
          ⟨hquiet₃, text₃, htext₃, hstage₃⟩ | ⟨hrefuses, w', hstage₃, hfiles, hindex⟩ |
          ⟨hnot, hbad, hspoiled⟩
        · left
          have hartifacts : call.artifacts index = [.history index, .summary, .pins] := by
            unfold Call.artifacts
            rw [if_neg hpins]
            rfl
          refine ⟨?_, ?_⟩
          · intro a ha
            rw [hartifacts] at ha
            simp only [List.mem_cons, List.not_mem_nil, or_false] at ha
            rcases ha with rfl | rfl | rfl
            · exact ⟨hquiet₁, hencodes htext₁⟩
            · exact ⟨hquiet₂, hencodes htext₂⟩
            · exact ⟨hquiet₃, hencodes htext₃⟩
          · have hstaged₃ : w₂.put (temp.path .pins) (some (bytesOf text₃)) =
                w.stagedAt temp call [.history index, .summary, .pins] := by
              rw [hstaged₂, ← Option.map_some, ← htext₃]
              rfl
            rw [hstage₃, hartifacts, ← hstaged₃]
            unfold stagedOf
            rw [if_neg hpins]
        · right
          left
          rw [hstage₃]
          refine ⟨⟨.pins, hmem, hrefuses, ?_⟩, _, rfl, ?_, ?_⟩
          · intro b hb
            simp only [Artifact.earlier, List.mem_cons, List.not_mem_nil, or_false] at hb
            rcases hb with rfl | rfl
            · exact hencodes htext₁
            · exact hencodes htext₂
          · exact cleanup_staged [.history index, .summary]
              (hfiles.trans (congrArg World.files hstaged₂))
          · rw [cleanup_historyChunkIndex, hindex, hstaged₂, stagedAt_historyChunkIndex]
        · right
          right
          refine ⟨⟨.pins, hmem, hnot, ?_, ?_⟩, ?_⟩
          · exact hbad.imp_right (text_eq_none call _).mp
          · intro b hb
            simp only [Artifact.earlier, List.mem_cons, List.not_mem_nil, or_false] at hb
            rcases hb with rfl | rfl
            · exact hquiet₁
            · exact hquiet₂
          · rcases hspoiled with ⟨raised, w', hstage₃⟩ | ⟨w', hstage₃, hleft⟩
            · rw [hstage₃]
              exact .inl ⟨raised, w', rfl⟩
            · rw [hstage₃]
              refine .inr ⟨_, rfl, fun heq => ?_⟩
              have hstill := spoiled_cleanup [.history index, .summary] (by simp) hleft
              exact hstill ((congrFun heq _).trans (temp.fresh .pins))
    · right
      left
      rw [hstage₂]
      refine ⟨⟨.summary, hsummary, hrefuses, ?_⟩, _, rfl, ?_, ?_⟩
      · intro b hb
        obtain rfl := List.mem_singleton.mp hb
        exact hencodes htext₁
      · exact cleanup_staged [.history index] (hfiles.trans (congrArg World.files hstaged₁))
      · rw [cleanup_historyChunkIndex, hindex, hstaged₁, stagedAt_historyChunkIndex]
    · right
      right
      refine ⟨⟨.summary, hsummary, hnot, hbad.imp_right (text_eq_none call _).mp, ?_⟩, ?_⟩
      · intro b hb
        obtain rfl := List.mem_singleton.mp hb
        exact hquiet₁
      · rcases hspoiled with ⟨raised, w', hstage₂⟩ | ⟨w', hstage₂, hleft⟩
        · rw [hstage₂]
          exact .inl ⟨raised, w', rfl⟩
        · rw [hstage₂]
          refine .inr ⟨_, rfl, fun heq => ?_⟩
          have hstill := spoiled_cleanup [.history index] (by simp) hleft
          exact hstill ((congrFun heq _).trans (temp.fresh .summary))
  · right
    left
    rw [hstage₁]
    exact ⟨⟨_, hhistory, hrefuses, fun b hb => by cases hb⟩, w', rfl, hfiles, hindex⟩
  · right
    right
    refine ⟨⟨_, hhistory, hnot, hbad.imp_right (text_eq_none call _).mp,
      fun b hb => by cases hb⟩, ?_⟩
    rcases hspoiled with ⟨raised, w', hstage₁⟩ | ⟨w', hstage₁, hleft⟩
    · rw [hstage₁]
      exact .inl ⟨raised, w', rfl⟩
    · rw [hstage₁]
      exact .inr ⟨w', rfl, fun heq => hleft ((congrFun heq _).trans (temp.fresh _))⟩

end Staged

/-! ### Reading what was there -/

/-- A step that fails: with `OSError` the call goes on to say so, else it raises. -/
def Handled (raised : Raised) (value : α) (outcome : Outcome α) : Prop :=
  (raised.isOSError = true ∧ ∃ w', outcome = (.ok value, w') ∧ w'.files = w.files ∧
    w'.historyChunkIndex = w.historyChunkIndex) ∨
  (raised.isOSError = false ∧ outcome = (.error raised, w))

theorem handled_handle (raised : Raised) (warning : String) (a : Artifact)
    (chunk : Option (Nat × Nat)) (value : α) :
    Handled w raised value (w.handle raised warning a chunk value) := by
  cases hraised : raised.isOSError with
  | false => exact .inr ⟨hraised, handle_other w hraised _ _ _ _⟩
  | true =>
    cases raised with
    | osError error => exact .inl ⟨hraised, handle_osError w error warning a chunk value⟩
    | unicodeEncodeError | other => cases hraised

def Reads (files : Files) (a : Artifact) (step : Step) : Prop :=
  step = .existence a ∨ (step = .read a ∧ files (.artifact a) ≠ none)

theorem readExisting_cases (fault : Fault) (a : Artifact) (warning : String) (w : World) :
    ((∀ step, Reads w.files a step → fault.at step = none) ∧
      readExistingArtifactBytes fault a warning w = (.ok (true, w.files (.artifact a)), w)) ∨
    ∃ step raised, Reads w.files a step ∧ fault.at step = some raised ∧
      Handled w raised (false, none) (readExistingArtifactBytes fault a warning w) := by
  unfold readExistingArtifactBytes
  cases hexists : fault.at (.existence a) with
  | some raised =>
    exact .inr ⟨_, raised, .inl rfl, hexists, handled_handle w raised warning a none _⟩
  | none =>
    cases hfile : w.files (.artifact a) with
    | none =>
      refine .inl ⟨?_, rfl⟩
      rintro step (rfl | ⟨rfl, hne⟩)
      · exact hexists
      · exact absurd hfile hne
    | some bytes =>
      cases hread : fault.at (.read a) with
      | some raised =>
        refine .inr ⟨_, raised, .inr ⟨rfl, ?_⟩, hread, handled_handle w raised warning a none _⟩
        rw [hfile]
        exact Option.some_ne_none bytes
      | none =>
        refine .inl ⟨?_, rfl⟩
        rintro step (rfl | ⟨rfl, -⟩)
        · exact hexists
        · exact hread

theorem readPrevious_cases (fault : Fault) (staged : Staged) (w : World) :
    ((∀ step, Reads w.files .summary step ∨ Reads w.files .pins step → fault.at step = none) ∧
      readPrevious fault staged w = (.ok (some (w.files (.artifact .summary))), w)) ∨
    ∃ step raised, (Reads w.files .summary step ∨ Reads w.files .pins step) ∧
      fault.at step = some raised ∧
      ((raised.isOSError = true ∧ ∃ w' : World, readPrevious fault staged w =
          (.ok none, w'.cleanup staged.all) ∧ w'.files = w.files ∧
          w'.historyChunkIndex = w.historyChunkIndex) ∨
        (raised.isOSError = false ∧ readPrevious fault staged w = (.error raised, w))) := by
  unfold readPrevious
  rcases readExisting_cases fault .summary "summary_write_failed" w with
    ⟨hsummary, hread⟩ | ⟨step, raised, hreads, hat, hhandled⟩
  · rw [hread]
    dsimp only
    rcases readExisting_cases fault .pins "pins_write_failed" w with
      ⟨hpins, hread'⟩ | ⟨step, raised, hreads, hat, hhandled⟩
    · rw [hread']
      refine .inl ⟨?_, rfl⟩
      rintro step (hstep | hstep)
      · exact hsummary step hstep
      · exact hpins step hstep
    · right
      refine ⟨step, raised, .inr hreads, hat, ?_⟩
      rcases hhandled with ⟨hraised, w', houtcome, hfiles, hindex⟩ | ⟨hraised, houtcome⟩
      · rw [houtcome]
        exact .inl ⟨hraised, w', rfl, hfiles, hindex⟩
      · rw [houtcome]
        exact .inr ⟨hraised, rfl⟩
  · right
    refine ⟨step, raised, .inl hreads, hat, ?_⟩
    rcases hhandled with ⟨hraised, w', houtcome, hfiles, hindex⟩ | ⟨hraised, houtcome⟩
    · rw [houtcome]
      exact .inl ⟨hraised, w', rfl, hfiles, hindex⟩
    · rw [houtcome]
      exact .inr ⟨hraised, rfl⟩

end AlysisCode.Compaction.Artifacts
