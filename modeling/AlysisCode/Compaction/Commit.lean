/-
When committing the artifacts of a compaction is all or nothing.

A call publishes everything or returns with every file as it was, exactly when no text with a
surrogate is written and the step that fails raises `OSError` and is one that leaves nothing
behind: making the directory or the temporary file, reading what was there, moving the history
chunk, or moving another artifact while no chunk of that index was there before.
-/
import AlysisCode.Compaction.Staging

namespace AlysisCode.Compaction.Artifacts

open Json PromptQueue

variable {F : Type} {fault : Fault} {files : Files} {temp : TempNames files}

/-! ### Publishing -/

variable (w : World) (a : Artifact) {raised : Raised}

/-- The temporary file takes the artifact's place. -/
def World.moved (temp : TempNames files) (a : Artifact) : World :=
  (w.put (.artifact a) (w.files (temp.path a))).put (temp.path a) none

theorem moved_files_artifact : (w.moved temp a).files (.artifact a) = w.files (temp.path a) := by
  unfold World.moved TempNames.path
  simp

theorem moved_files_path : (w.moved temp a).files (temp.path a) = none := by
  unfold World.moved
  rw [put_files, Function.update_self]

variable {a : Artifact}

theorem moved_files_of_ne {path : FilePath} (hartifact : path ≠ .artifact a)
    (hstaged : path ≠ temp.path a) :
    (w.moved temp a).files path = w.files path := by
  unfold World.moved
  rw [put_files, Function.update_of_ne hstaged, put_files, Function.update_of_ne hartifact]

@[simp] theorem moved_historyChunkIndex :
    (w.moved temp a).historyChunkIndex = w.historyChunkIndex := rfl

theorem publish_cases (fault : Fault) (temp : TempNames files) (a : Artifact) (warning : String) (w : World) :
    (fault.at (.publish a) = none ∧
      publishStagedArtifact fault (temp.path a) a warning w = (.ok true, w.moved temp a)) ∨
    ∃ raised, fault.at (.publish a) = some raised ∧
      Handled w raised false (publishStagedArtifact fault (temp.path a) a warning w) := by
  unfold publishStagedArtifact
  cases hat : fault.at (.publish a) with
  | none => exact .inl ⟨rfl, rfl⟩
  | some raised => exact .inr ⟨raised, rfl, handled_handle w raised warning a none false⟩

/-- Everything is published, and no other file has changed. -/
structure Published [Floats F] (call : Call F) (index : Nat) (files files' : Files) : Prop where
  written : ∀ a ∈ call.artifacts index, ∃ text, call.text a = some text ∧
    files' (.artifact a) = some (bytesOf text)
  kept : ∀ path, (∀ a ∈ call.artifacts index, path ≠ .artifact a) → files' path = files path

section Publish

variable [Floats F]

omit [Floats F] in
theorem nodup_artifacts (call : Call F) (index : Nat) : (call.artifacts index).Nodup := by
  unfold Call.artifacts
  by_cases hpins : call.pins = []
  · simp [hpins]
  · simp [hpins]

structure Moving (w : World) (temp : TempNames files) (call : Call F) (index : Nat)
    (moved : List Artifact) (w' : World) : Prop where
  artifacts : ∀ a ∈ moved, w'.files (.artifact a) = (call.text a).map bytesOf
  staged : ∀ a ∈ call.artifacts index, a ∉ moved →
    w'.files (temp.path a) = (call.text a).map bytesOf
  gone : ∀ a ∈ moved, w'.files (temp.path a) = none
  kept : ∀ path, (∀ a ∈ moved, path ≠ .artifact a) →
    (∀ a ∈ call.artifacts index, path ≠ temp.path a) → w'.files path = w.files path

variable {call : Call F} {index : Nat} {w w' : World}

theorem moving_nil (h : w'.files = (w.stagedAt temp call (call.artifacts index)).files) :
    Moving w temp call index [] w' where
  artifacts a ha := by cases ha
  staged a ha _ := by
    rw [h]
    exact stagedAt_files_path call w (nodup_artifacts call index) ha
  gone a ha := by cases ha
  kept path _ hpath := by
    rw [h]
    exact stagedAt_files_of_notMem call w hpath

theorem Moving.moved {moved : List Artifact} (h : Moving w temp call index moved w')
    (ha : a ∈ call.artifacts index) (hnot : a ∉ moved) :
    Moving w temp call index (moved ++ [a]) (w'.moved temp a) where
  artifacts b hb := by
    rcases List.mem_append.mp hb with hmoved | hlast
    · rw [moved_files_of_ne]
      · exact h.artifacts b hmoved
      · intro heq
        obtain rfl := FilePath.artifact.inj heq
        exact hnot hmoved
      · unfold TempNames.path
        simp
    · obtain rfl := List.mem_singleton.mp hlast
      rw [moved_files_artifact]
      exact h.staged b ha hnot
  staged b hb hnot' := by
    rw [List.mem_append, not_or] at hnot'
    rw [moved_files_of_ne]
    · exact h.staged b hb hnot'.1
    · unfold TempNames.path
      simp
    · intro heq
      exact hnot'.2 (List.mem_singleton.mpr (path_injective temp heq))
  gone b hb := by
    rcases List.mem_append.mp hb with hmoved | hlast
    · rw [moved_files_of_ne]
      · exact h.gone b hmoved
      · unfold TempNames.path
        simp
      · intro heq
        obtain rfl := path_injective temp heq
        exact hnot hmoved
    · obtain rfl := List.mem_singleton.mp hlast
      exact moved_files_path w' b
  kept path hartifacts hpath := by
    rw [moved_files_of_ne w' (hartifacts a (List.mem_append_right _ List.mem_cons_self))
      (hpath a ha)]
    exact h.kept path (fun b hb => hartifacts b (List.mem_append_left _ hb)) hpath

variable {temp : TempNames w.files}

theorem Moving.published (h : Moving w temp call index (call.artifacts index) w')
    (htext : ∀ a ∈ call.artifacts index, call.Encodes a) :
    Published call index w.files w'.files where
  written a ha := by
    cases hencode : call.text a with
    | none => exact absurd (htext a ha) ((text_eq_none call a).mp hencode)
    | some text =>
      refine ⟨text, rfl, ?_⟩
      rw [h.artifacts a ha, hencode]
      rfl
  kept path hpath := by
    by_cases hstaged : ∃ a ∈ call.artifacts index, path = temp.path a
    · obtain ⟨a, ha, rfl⟩ := hstaged
      rw [h.gone a ha]
      exact (temp.fresh a).symm
    · exact h.kept path hpath fun a ha heq => hstaged ⟨a, ha, heq⟩

theorem Moving.rollback {x : World} {moved restored : List Artifact}
    {removed : List FilePath} (h : Moving w temp call index moved w')
    (hrestored : ∀ a ∈ moved, a ∈ restored) (hhistory : Artifact.history index ∈ restored)
    (hback : ∀ a ∈ restored, x.files (.artifact a) =
      if a = .history index then none else w.files (.artifact a))
    (hsame : ∀ path, (∀ a ∈ restored, path ≠ .artifact a) → x.files path = w'.files path)
    (hremoved : ∀ path, path ∈ removed ↔
      ∃ a ∈ call.artifacts index, a ∉ moved ∧ path = temp.path a) :
    (x.cleanup removed).files = Function.update w.files (.artifact (.history index)) none := by
  funext path
  rw [cleanup_files]
  by_cases hpath : ∃ a ∈ restored, path = .artifact a
  · obtain ⟨a, ha, rfl⟩ := hpath
    rw [if_neg, hback a ha]
    · by_cases hfirst : a = .history index
      · rw [if_pos hfirst, hfirst, Function.update_self]
      · rw [if_neg hfirst, Function.update_of_ne]
        exact fun heq => hfirst (FilePath.artifact.inj heq)
    · intro hmem
      obtain ⟨b, -, -, heq⟩ := (hremoved _).mp hmem
      cases heq
  · have hnot (a : Artifact) (ha : a ∈ restored) : path ≠ .artifact a :=
      fun heq => hpath ⟨a, ha, heq⟩
    rw [Function.update_of_ne (hnot _ hhistory)]
    by_cases hmem : path ∈ removed
    · obtain ⟨a, -, -, rfl⟩ := (hremoved _).mp hmem
      rw [if_pos hmem]
      exact (temp.fresh a).symm
    · rw [if_neg hmem, hsame path hnot]
      by_cases hstaged : ∃ a ∈ call.artifacts index, path = temp.path a
      · obtain ⟨a, ha, rfl⟩ := hstaged
        have hmoved : a ∈ moved := by
          by_contra hmoved
          exact hmem ((hremoved _).mpr ⟨a, ha, hmoved, rfl⟩)
        have hfresh : w.files (temp.path a) = none := temp.fresh a
        rw [hfresh]
        exact h.gone a hmoved
      · exact h.kept path (fun a ha => hnot a (hrestored a ha)) fun a ha heq => hstaged ⟨a, ha, heq⟩

theorem publishAll_cases (fault : Fault) (call : Call F)
    (hstaged : w'.files = (w.stagedAt temp call (call.artifacts index)).files)
    (hencodes : ∀ a ∈ call.artifacts index, call.Encodes a) :
    ((∀ a ∈ call.artifacts index, fault.at (.publish a) = none) ∧ ∃ w'',
      publishAll fault index (stagedOf temp call index) (w.files (.artifact .summary)) w' =
        (.ok true, w'') ∧ Published call index w.files w''.files ∧
        w''.historyChunkIndex = w'.historyChunkIndex) ∨
    ∃ a ∈ call.artifacts index, ∃ raised, fault.at (.publish a) = some raised ∧
      ((raised.isOSError = true ∧ ∃ w'',
        publishAll fault index (stagedOf temp call index) (w.files (.artifact .summary)) w' =
          (.ok false, w'') ∧ w''.historyChunkIndex = w'.historyChunkIndex ∧
          w''.files = if a = .history index then w.files
            else Function.update w.files (.artifact (.history index)) none) ∨
        (raised.isOSError = false ∧ ∃ w'',
          publishAll fault index (stagedOf temp call index) (w.files (.artifact .summary)) w' =
            (.error raised, w''))) := by
  have hhistory : Artifact.history index ∈ call.artifacts index := mem_artifacts.mpr (.inl rfl)
  have hsummary : Artifact.summary ∈ call.artifacts index :=
    mem_artifacts.mpr (.inr (.inl rfl))
  have hmoving := moving_nil hstaged
  unfold publishAll
  rcases publish_cases fault temp (.history index)
      "history_chunk_write_failed" w' with ⟨hquiet₁, hpublish⟩ | ⟨raised, hat, hhandled⟩
  · have hmoving₁ := hmoving.moved hhistory List.not_mem_nil
    rw [List.nil_append] at hmoving₁
    rw [show (stagedOf temp call index).history = temp.path (.history index) from rfl, hpublish]
    dsimp only
    generalize hw₁ : w'.moved temp (.history index) = w₁ at hmoving₁
    have hindex₁ : w₁.historyChunkIndex = w'.historyChunkIndex := by
      rw [← hw₁]
      rfl
    rcases publish_cases fault temp .summary "summary_write_failed" w₁ with
      ⟨hquiet₂, hpublish⟩ | ⟨raised, hat, hhandled⟩
    · have hmoving₂ := hmoving₁.moved hsummary (by simp)
      rw [show (stagedOf temp call index).summary = temp.path .summary from rfl, hpublish]
      generalize hw₂ : w₁.moved temp .summary = w₂ at hmoving₂
      have hindex₂ : w₂.historyChunkIndex = w'.historyChunkIndex := by
        rw [← hindex₁, ← hw₂]
        rfl
      by_cases hpins : call.pins = []
      · left
        have hartifacts : call.artifacts index = [.history index, .summary] := by
          unfold Call.artifacts
          rw [if_pos hpins]
          rfl
        rw [show (stagedOf temp call index).pins = none from if_pos hpins]
        refine ⟨?_, w₂, rfl, ?_, hindex₂⟩
        · intro a ha
          rw [hartifacts] at ha
          simp only [List.mem_cons, List.not_mem_nil, or_false] at ha
          rcases ha with rfl | rfl
          · exact hquiet₁
          · exact hquiet₂
        · have hall : Moving w temp call index (call.artifacts index) w₂ := by
            rw [hartifacts]
            exact hmoving₂
          exact hall.published hencodes
      · have hartifacts : call.artifacts index = [.history index, .summary, .pins] := by
          unfold Call.artifacts
          rw [if_neg hpins]
          rfl
        have hmem : Artifact.pins ∈ call.artifacts index :=
          mem_artifacts.mpr (.inr (.inr ⟨rfl, hpins⟩))
        rw [show (stagedOf temp call index).pins = some (temp.path .pins) from if_neg hpins]
        dsimp only
        rcases publish_cases fault temp .pins "pins_write_failed" w₂ with
          ⟨hquiet₃, hpublish⟩ | ⟨raised, hat, hhandled⟩
        · left
          rw [hpublish]
          refine ⟨?_, _, rfl, ?_, hindex₂⟩
          · intro a ha
            rw [hartifacts] at ha
            simp only [List.mem_cons, List.not_mem_nil, or_false] at ha
            rcases ha with rfl | rfl | rfl
            · exact hquiet₁
            · exact hquiet₂
            · exact hquiet₃
          · have hall : Moving w temp call index (call.artifacts index) (w₂.moved temp .pins) := by
              rw [hartifacts]
              exact hmoving₂.moved hmem (by simp)
            exact hall.published hencodes
        · right
          refine ⟨_, hmem, raised, hat, ?_⟩
          rcases hhandled with ⟨hraised, w'', houtcome, hfiles, hindex⟩ | ⟨hraised, houtcome⟩
          · left
            rw [houtcome, if_neg (by simp)]
            refine ⟨hraised, _, rfl, hindex.trans hindex₂, ?_⟩
            have hrestored : ∀ a ∈ [Artifact.history index] ++ [Artifact.summary],
                a ∈ [Artifact.history index, Artifact.summary] := fun _ ha => ha
            refine hmoving₂.rollback hrestored List.mem_cons_self ?_ ?_ ?_
            · intro a ha
              simp only [List.mem_cons, List.not_mem_nil, or_false] at ha
              rcases ha with rfl | rfl
              · simp [World.restore]
              · simp [World.restore]
            · intro path hpath
              have hfirst := hpath (.history index) (by simp)
              have hsecond := hpath .summary (by simp)
              simp [World.restore, Function.update_of_ne hfirst, Function.update_of_ne hsecond,
                hfiles]
            · intro path
              rw [hartifacts]
              simp
          · rw [houtcome]
            exact .inr ⟨hraised, _, rfl⟩
    · right
      rw [show (stagedOf temp call index).summary = temp.path .summary from rfl]
      refine ⟨_, hsummary, raised, hat, ?_⟩
      rcases hhandled with ⟨hraised, w'', houtcome, hfiles, hindex⟩ | ⟨hraised, houtcome⟩
      · left
        rw [houtcome, if_neg (by simp)]
        refine ⟨hraised, _, rfl, ?_, ?_⟩
        · rw [cleanup_historyChunkIndex]
          exact hindex.trans hindex₁
        · have hrestored : ∀ a ∈ [Artifact.history index], a ∈ [Artifact.history index] :=
            fun _ ha => ha
          refine hmoving₁.rollback hrestored List.mem_cons_self ?_ ?_ ?_
          · intro a ha
            obtain rfl := List.mem_singleton.mp ha
            simp [World.restore]
          · intro path hpath
            have hfirst := hpath (.history index) (by simp)
            simp [World.restore, Function.update_of_ne hfirst, hfiles]
          · intro path
            unfold Call.artifacts stagedOf
            by_cases hpins : call.pins = []
            · simp [hpins]
            · simp [hpins]
      · rw [houtcome]
        exact .inr ⟨hraised, _, rfl⟩
  · right
    refine ⟨_, hhistory, raised, hat, ?_⟩
    rw [show (stagedOf temp call index).history = temp.path (.history index) from rfl]
    rcases hhandled with ⟨hraised, w'', houtcome, hfiles, hindex⟩ | ⟨hraised, houtcome⟩
    · left
      rw [houtcome, if_pos rfl, stagedOf_all]
      refine ⟨hraised, _, rfl, ?_, cleanup_staged _ (hfiles.trans hstaged)⟩
      rw [cleanup_historyChunkIndex, hindex]
    · rw [houtcome]
      exact .inr ⟨hraised, _, rfl⟩

end Publish

/-! ### The whole call -/

/-- All is published and the commit returned; or nothing has changed and `None` is returned. -/
inductive Atomic [Floats F] (call : Call F) (w : World) :
    Outcome (Option ExecutionArtifactCommit) → Prop
  | committed {w' : World}
    (hpublished : Published call (w.historyChunkIndex + 1) w.files w'.files) :
    Atomic call w (.ok (some ⟨.artifact (.history (w.historyChunkIndex + 1)),
      w.historyChunkIndex + 1⟩), w')
  | refused {w' : World} (hfiles : w'.files = w.files)
    (hindex : w'.historyChunkIndex = w.historyChunkIndex) : Atomic call w (.ok none, w')

/-- The call takes the step, when nothing ends it before. -/
def Taken (call : Call F) (w : World) : Step → Prop
  | .stage a _ | .publish a => a ∈ call.artifacts (w.historyChunkIndex + 1)
  | .existence a => a = .summary ∨ a = .pins
  | .read a => (a = .summary ∨ a = .pins) ∧ w.files (.artifact a) ≠ none

/-- A step that leaves no file behind when it fails, and nothing that its rollback removes. -/
def Harmless : Step → Prop
  | .stage _ step => step = .mkdir ∨ step = .create
  | .existence _ | .read _ => True
  | .publish a => a = .history (w.historyChunkIndex + 1) ∨
      w.files (.artifact (.history (w.historyChunkIndex + 1))) = none

/-- No text with a surrogate is written, and what fails is harmless and raises `OSError`. -/
def Sound (call : Call F) (w : World) (fault : Fault) : Prop :=
  ((∀ a ∈ call.artifacts (w.historyChunkIndex + 1), call.Encodes a) ∧
    ∀ f ∈ fault, Taken call w f.step → f.raised.isOSError = true ∧ Harmless w f.step) ∨
  ∃ a ∈ call.artifacts (w.historyChunkIndex + 1), Refuses fault a ∧
    ∀ b ∈ a.earlier (w.historyChunkIndex + 1), call.Encodes b

variable {call : Call F} {w : World}

theorem not_sound_of_spoiled (ha : a ∈ call.artifacts (w.historyChunkIndex + 1))
    (hnot : ¬ Refuses fault a) (hbad : Stumbles fault a ∨ ¬ call.Encodes a)
    (hearlier : ∀ b ∈ a.earlier (w.historyChunkIndex + 1), ¬ Stumbles fault b) :
    ¬ Sound call w fault := by
  rintro (⟨hencodes, hharmless⟩ | ⟨b, hb, hrefuses, hbefore⟩)
  · rcases hbad with ⟨step, raised, hat⟩ | hbad
    · obtain ⟨f, hf, hstep, hraised⟩ := Fault.at_eq_some.mp hat
      obtain ⟨hos, hearly⟩ := hharmless f hf (by rw [hstep]; exact ha)
      rw [hstep] at hearly
      rw [hraised] at hos
      cases raised with
      | osError error => exact hnot ⟨step, error, hearly, hat⟩
      | unicodeEncodeError | other => cases hos
    · exact hbad (hencodes a ha)
  · have hne : a ≠ b := by
      rintro rfl
      exact hnot hrefuses
    rcases earlier_total ha hb hne with hab | hba
    · rcases hbad with hstumbles | hbad
      · exact hne (hstumbles.unique hrefuses.stumbles)
      · exact hbad (hbefore a hab)
    · exact hearlier b hba hrefuses.stumbles

theorem sound_of_staged
    (hstaged : ∀ a ∈ call.artifacts (w.historyChunkIndex + 1), ¬ Stumbles fault a ∧ call.Encodes a) :
    Sound call w fault ↔
      ∀ f ∈ fault, Taken call w f.step → f.raised.isOSError = true ∧ Harmless w f.step := by
  constructor
  · rintro (⟨-, hharmless⟩ | ⟨a, ha, hrefuses, -⟩)
    · exact hharmless
    · exact absurd hrefuses.stumbles (hstaged a ha).1
  · intro hharmless
    exact .inl ⟨fun a ha => (hstaged a ha).2, hharmless⟩

theorem sound_of_fails {step : Step}
    (hstaged : ∀ a ∈ call.artifacts (w.historyChunkIndex + 1), ¬ Stumbles fault a ∧ call.Encodes a)
    (hat : fault.at step = some raised) (htaken : Taken call w step) :
    Sound call w fault ↔ raised.isOSError = true ∧ Harmless w step := by
  obtain ⟨f, hf, rfl, rfl⟩ := Fault.at_eq_some.mp hat
  rw [sound_of_staged hstaged]
  constructor
  · intro h
    exact h f hf htaken
  · rintro h g hg -
    obtain rfl := Option.some.inj (hf.symm.trans hg)
    exact h

theorem not_atomic_error [Floats F] {w' : World} : ¬ Atomic call w (.error raised, w') := by
  intro h
  cases h

theorem atomic_none [Floats F] {w' : World} (hindex : w'.historyChunkIndex = w.historyChunkIndex) :
    Atomic call w (.ok none, w') ↔ w'.files = w.files := by
  constructor
  · intro h
    cases h with
    | refused hfiles => exact hfiles
  · exact fun hfiles => .refused hfiles hindex

/-- **A call is all or nothing exactly when no text with a surrogate is written, and the step
that fails leaves nothing behind and raises `OSError`.** -/
theorem commit_atomic_iff [Floats F] (fault : Fault) (call : Call F) (w : World)
    (temp : TempNames w.files) :
    Atomic call w (commitExecutionArtifacts fault temp call w) ↔ Sound call w fault := by
  unfold commitExecutionArtifacts
  dsimp only
  rcases stageAll_cases fault call (w.historyChunkIndex + 1) w temp with
    ⟨hstaged, houtcome⟩ | ⟨⟨a, ha, hrefuses, hbefore⟩, w', houtcome, hfiles, hindex⟩ |
    ⟨⟨a, ha, hnot, hbad, hearlier⟩, hspoiled⟩
  · rw [houtcome]
    dsimp only
    generalize hw₁ : w.stagedAt temp call (call.artifacts (w.historyChunkIndex + 1)) = w₁
    have hfiles₁ : w₁.files =
        (w.stagedAt temp call (call.artifacts (w.historyChunkIndex + 1))).files := by rw [hw₁]
    have hindex₁ : w₁.historyChunkIndex = w.historyChunkIndex := by
      rw [← hw₁, stagedAt_historyChunkIndex]
    have hartifact (a : Artifact) : w₁.files (.artifact a) = w.files (.artifact a) := by
      rw [hfiles₁]
      refine stagedAt_files_of_notMem call w fun b _ heq => ?_
      cases heq
    have hreads {step : Step} (hstep : Reads w₁.files .summary step ∨ Reads w₁.files .pins step) :
        Taken call w step ∧ Harmless w step := by
      rcases hstep with (rfl | ⟨rfl, hne⟩) | (rfl | ⟨rfl, hne⟩)
      · exact ⟨.inl rfl, trivial⟩
      · exact ⟨⟨.inl rfl, hartifact _ ▸ hne⟩, trivial⟩
      · exact ⟨.inr rfl, trivial⟩
      · exact ⟨⟨.inr rfl, hartifact _ ▸ hne⟩, trivial⟩
    rcases readPrevious_cases fault (stagedOf temp call (w.historyChunkIndex + 1)) w₁ with
      ⟨hquiet, hread⟩ | ⟨step, raised, hstep, hat, hresult⟩
    · rw [hread, hartifact]
      dsimp only
      rcases publishAll_cases fault call hfiles₁ fun a ha => (hstaged a ha).2 with
        ⟨hpublish, w'', houtcome, hpublished, _⟩ | ⟨a, ha, raised, hat, hresult⟩
      · rw [houtcome]
        refine iff_of_true (.committed hpublished) ((sound_of_staged hstaged).mpr ?_)
        -- no step that is taken fails
        intro f hf htaken
        exfalso
        have hat : fault.at f.step = some f.raised := Fault.at_eq_some.mpr ⟨f, hf, rfl, rfl⟩
        cases hstep : f.step with
        | stage a step =>
          rw [hstep] at htaken hat
          exact (hstaged a htaken).1 ⟨step, _, hat⟩
        | publish a =>
          rw [hstep] at htaken hat
          rw [hpublish a htaken] at hat
          cases hat
        | existence a =>
          rw [hstep] at htaken hat
          rw [hquiet] at hat
          · cases hat
          · rcases htaken with rfl | rfl
            · exact .inl (.inl rfl)
            · exact .inr (.inl rfl)
        | read a =>
          rw [hstep] at htaken hat
          rw [hquiet] at hat
          · cases hat
          · obtain ⟨hwhich, hne⟩ := htaken
            rw [← hartifact] at hne
            rcases hwhich with rfl | rfl
            · exact .inl (.inr ⟨rfl, hne⟩)
            · exact .inr (.inr ⟨rfl, hne⟩)
      · rw [sound_of_fails hstaged hat ha]
        rcases hresult with ⟨hraised, w'', houtcome, hindex, hfiles⟩ | ⟨hraised, w'', houtcome⟩
        · rw [houtcome]
          rw [atomic_none (hindex.trans hindex₁), hfiles, hraised]
          unfold Harmless
          by_cases hfirst : a = .history (w.historyChunkIndex + 1)
          · simp [hfirst]
          · simp [hfirst, eq_comm]
        · rw [houtcome]
          refine iff_of_false not_atomic_error ?_
          rintro ⟨hos, -⟩
          rw [hraised] at hos
          cases hos
    · obtain ⟨htaken, hharmless⟩ := hreads hstep
      rw [sound_of_fails hstaged hat htaken]
      rcases hresult with ⟨hraised, w'', houtcome, hfiles, hindex⟩ | ⟨hraised, houtcome⟩
      · rw [houtcome]
        rw [atomic_none, stagedOf_all]
        · exact iff_of_true (cleanup_staged _ (hfiles.trans hfiles₁)) ⟨hraised, hharmless⟩
        · rw [cleanup_historyChunkIndex, hindex, hindex₁]
      · rw [houtcome]
        refine iff_of_false not_atomic_error ?_
        rintro ⟨hos, -⟩
        rw [hraised] at hos
        cases hos
  · rw [houtcome]
    exact iff_of_true (.refused hfiles hindex) (.inr ⟨a, ha, hrefuses, hbefore⟩)
  · refine iff_of_false ?_ (not_sound_of_spoiled ha hnot hbad hearlier)
    rcases hspoiled with ⟨raised, w', houtcome⟩ | ⟨w', houtcome, hfiles⟩
    · rw [houtcome]
      exact not_atomic_error
    · rw [houtcome]
      intro h
      cases h with
      | refused hsame => exact hfiles hsame

/-- A summary with half of a surrogate pair, as a provider may send it. -/
def surrogateCall : Call Unit where
  chunkMessages := []
  firstIdx := 0
  summary := [(literal "goal", .str [.high])]
  pins := []

def emptyWorld : World where
  files _ := none
  events := []
  historyChunkIndex := 0

def emptyNames : TempNames emptyWorld.files where
  tag _ := "x"
  fresh _ := rfl

/-- The exception leaves two temporary files behind. -/
theorem commit_surrogate : ¬ Atomic surrogateCall emptyWorld
      (commitExecutionArtifacts none emptyNames surrogateCall emptyWorld) ∧
    (commitExecutionArtifacts none emptyNames surrogateCall emptyWorld).1 =
      .error .unicodeEncodeError ∧
    ∀ a ∈ [Artifact.history 1, .summary],
      (commitExecutionArtifacts none emptyNames surrogateCall emptyWorld).2.files
        (emptyNames.path a) ≠ none := by
  have hsummary : surrogateCall.text .summary = none := rfl
  have hhistory : surrogateCall.text (.history 1) = some "" := rfl
  have houtcome : commitExecutionArtifacts none emptyNames surrogateCall emptyWorld =
      (.error .unicodeEncodeError, (emptyWorld.put (emptyNames.path (.history 1))
        (some (bytesOf ""))).put (emptyNames.path .summary) (some [])) := by
    unfold commitExecutionArtifacts stageAll
    dsimp only
    rw [show emptyWorld.historyChunkIndex + 1 = 1 from rfl, hhistory, hsummary]
    rfl
  rw [houtcome]
  refine ⟨not_atomic_error, rfl, ?_⟩
  intro a ha
  simp only [List.mem_cons, List.not_mem_nil, or_false] at ha
  rcases ha with rfl | rfl
  · simp [TempNames.path]
  · simp

end AlysisCode.Compaction.Artifacts
