/-
What a call of the compactor returns.

Every round that commits cuts a chunk out, so that rounds come to an end, and writes it to a
history chunk of its own.  What is left when the call returns is put together from what one
round preserves.
-/
import AlysisCode.Compaction.Boundary
import AlysisCode.Compaction.Conserve

namespace AlysisCode.Compaction

variable {F S : Type}

/-! ### The chunk of a round -/

theorem protectedPrefixLen_ge (python : Python F) (pinnedPrefixLen : Nat) (protects : Bool)
    (messages : List (Message F)) :
    min pinnedPrefixLen messages.length ≤
      min (protectedPrefixLen python pinnedPrefixLen protects messages) messages.length := by
  unfold protectedPrefixLen
  dsimp only
  split
  · omega
  · omega

theorem protectedPrefixLen_of_not (python : Python F) (pinnedPrefixLen : Nat)
    (messages : List (Message F)) :
    min (protectedPrefixLen python pinnedPrefixLen false messages) messages.length =
      min pinnedPrefixLen messages.length := by
  unfold protectedPrefixLen
  rw [if_neg (fun h => Bool.false_ne_true h.1)]
  omega

section Plans

variable [LinearOrder S] {host : Host F S} {settings : Settings S} {profile : Profile}
  {hardPressure : Bool} {pinned : Nat} {messages : List (Message F)} {plan : ChunkPlan S}

variable {protects : Prop} {index other : Nat} {after : Live F S}

theorem cut_of_chunkPlans {overrides : Overrides S} {q : Nat}
    (hq : min pinned messages.length ≤ min q messages.length)
    (hprotects : ¬protects → min q messages.length = min pinned messages.length)
    (h : plan ∈ chunkPlans host settings profile hardPressure overrides q messages) :
    Cut host.python pinned protects messages plan.start plan.stop profile := by
  cases profile with
  | chat => exact .chat hq (turns_of_chatChunkPlan (Option.mem_toList.mp h))
  | execution => exact .execution hq hprotects (activity_of_executionChunkPlans h)

/-- **What a round may choose from are cuts.** -/
theorem cut_of_roundPlans {check : Check F S} (hprotects : check.protects = true → protects)
    (h : plan ∈ roundPlans host settings profile hardPressure check pinned messages) :
    Cut host.python pinned protects messages plan.start plan.stop profile := by
  unfold roundPlans at h
  dsimp only at h
  split at h
  · exact cut_of_chunkPlans (le_refl _) (fun _ => rfl) h
  · refine cut_of_chunkPlans (protectedPrefixLen_ge host.python pinned check.protects messages)
      (fun hnot => ?_) h
    rw [Bool.eq_false_iff.mpr fun htrue => hnot (hprotects htrue), protectedPrefixLen_of_not]

end Plans

variable {python : Python F} {profile : Profile} {protects : Prop} {messages : List (Message F)}

theorem Cut.length_lt {pinned start stop : Nat}
    (h : Cut python pinned protects messages start stop profile) :
    (bare python (without messages start stop)).length < (bare python messages).length := by
  have hopens : ∃ msg, messages[start]? = some msg ∧ isContext python msg = false := by
    cases h with
    | chat _ h =>
      obtain ⟨msg, hget, huser⟩ := h.opens
      exact ⟨msg, hget, by simpa using (Bool.and_eq_true_iff.mp huser).1⟩
    | execution _ _ h => exact h.opens
  obtain ⟨msg, hget, hcontext⟩ := hopens
  have hmem : msg ∈ bare python (slice messages start stop) := by
    refine List.mem_filter.mpr ⟨?_, by simp [hcontext]⟩
    refine List.mem_of_getElem? (i := 0) ?_
    rw [slice, List.getElem?_drop, List.getElem?_take, if_pos (by simpa using h.bounds.2.1)]
    exact hget
  have hlength := h.perm.length_eq
  rw [List.length_append] at hlength
  have hpos := List.length_pos_of_mem hmem
  omega

/-! ### The artifacts of a round -/

/-- What is stored under a number. -/
def Artifacts.chunkAt (a : Artifacts F) (index : Nat) : List (Nat × List (HistoryEntry F)) :=
  a.history.filter fun chunk => chunk.1 = index

/-- What was published before a commit failed is put back. -/
def CommitFates.rollsBack (fates : CommitFates) : Prop :=
  fates.unlinked = .done ∧ fates.restored = .done

section Commit

variable {fates : CommitFates} {index : Nat} {entries : List (HistoryEntry F)}
  {summary : Members F} {pins : List (Pin S)} {a a' : Artifacts F}

theorem chunkAt_unlink (a : Artifacts F) (h : other ≠ index) :
    (a.unlinkHistory index).chunkAt other = a.chunkAt other := by
  unfold Artifacts.chunkAt Artifacts.unlinkHistory
  rw [List.filter_filter]
  refine List.filter_congr fun chunk _ => ?_
  by_cases heq : chunk.1 = other
  · simp [heq, h]
  · simp [heq]

theorem chunkAt_publish_self (a : Artifacts F) (index : Nat) (entries : List (HistoryEntry F)) :
    (a.publishHistory index entries).chunkAt index = [(index, entries)] := by
  unfold Artifacts.chunkAt Artifacts.publishHistory Artifacts.unlinkHistory
  rw [List.filter_append, List.filter_filter]
  simp

theorem chunkAt_publish (a : Artifacts F) (entries : List (HistoryEntry F))
    (h : other ≠ index) : (a.publishHistory index entries).chunkAt other = a.chunkAt other := by
  rw [← chunkAt_unlink a h]
  unfold Artifacts.chunkAt Artifacts.publishHistory
  rw [List.filter_append]
  simp [h.symm]

theorem unlink_publish (a : Artifacts F) (entries : List (HistoryEntry F))
    (h : a.chunkAt index = []) : (a.publishHistory index entries).unlinkHistory index = a := by
  have hnone : ∀ chunk ∈ a.history, chunk.1 ≠ index := fun chunk hchunk heq => by
    have hmem : chunk ∈ a.chunkAt index := List.mem_filter.mpr ⟨hchunk, by simpa using heq⟩
    rw [h] at hmem
    cases hmem
  unfold Artifacts.publishHistory Artifacts.unlinkHistory
  rw [List.filter_append, List.filter_filter]
  have hself : a.history.filter (fun chunk => decide (chunk.1 ≠ index) && decide (chunk.1 ≠ index)) =
      a.history := List.filter_eq_self.mpr fun chunk hchunk => by simp [hnone chunk hchunk]
  rw [hself]
  simp

theorem commit_history (h : ∃ committed,
    commitExecutionArtifacts fates index entries summary pins a = (a', committed)) :
    a'.history = a.history ∨ a'.history = (a.publishHistory index entries).history ∨
      a'.history = ((a.publishHistory index entries).unlinkHistory index).history := by
  obtain ⟨committed, h⟩ := h
  obtain rfl := congrArg Prod.fst h
  clear h
  unfold commitExecutionArtifacts
  split
  · exact Or.inl rfl
  · exact Or.inl rfl
  · exact Or.inl rfl
  · exact Or.inl rfl
  · exact Or.inr (Or.inl rfl)
  · split
    · exact Or.inr (Or.inl rfl)
    · exact Or.inr (Or.inl rfl)
    · exact Or.inr (Or.inr rfl)
  · by_cases hpins : pins = []
    · rw [if_pos hpins]
      exact Or.inr (Or.inl rfl)
    · rw [if_neg hpins]
      split
      · exact Or.inr (Or.inl rfl)
      · exact Or.inr (Or.inl rfl)
      · exact Or.inr (Or.inl rfl)
      · split
        · exact Or.inr (Or.inr rfl)
        · exact Or.inr (Or.inl rfl)

theorem commit_others {committed : Option Bool}
    (h : commitExecutionArtifacts fates index entries summary pins a = (a', committed)) (hother : other ≠ index) : a'.chunkAt other = a.chunkAt other := by
  have hpublish := chunkAt_publish a entries hother
  rcases commit_history ⟨committed, h⟩ with hhistory | hhistory | hhistory
  · rw [Artifacts.chunkAt, hhistory, Artifacts.chunkAt]
  · rw [Artifacts.chunkAt, hhistory, ← Artifacts.chunkAt, hpublish]
  · rw [Artifacts.chunkAt, hhistory, ← Artifacts.chunkAt, chunkAt_unlink _ hother, hpublish]

theorem commit_self
    (h : commitExecutionArtifacts fates index entries summary pins a = (a', some true)) :
    a'.chunkAt index = [(index, entries)] := by
  have hself := chunkAt_publish_self a index entries
  unfold commitExecutionArtifacts at h
  split at h
  · cases h
  · cases h
  · cases h
  · cases h
  · cases h
  · split at h
    · cases h
    · cases h
    · cases h
  · by_cases hpins : pins = []
    · rw [if_pos hpins] at h
      obtain rfl := (Prod.mk.inj h).1
      exact hself
    · rw [if_neg hpins] at h
      split at h
      · obtain rfl := (Prod.mk.inj h).1
        exact hself
      · cases h
      · cases h
      · have hfates := (Prod.mk.inj h).2
        split at hfates
        · cases hfates
        · cases hfates

/-- **A commit that fails leaves the artifacts as they were, if it can put them back.** -/
theorem commit_rollsBack
    (h : commitExecutionArtifacts fates index entries summary pins a = (a', some false))
    (hrolls : fates.rollsBack) (hfree : a.chunkAt index = []) : a' = a := by
  obtain ⟨hunlinked, hrestored⟩ := hrolls
  have hback := unlink_publish a entries hfree
  unfold commitExecutionArtifacts at h
  rw [hunlinked, hrestored] at h
  split at h
  · cases h
  · exact (Prod.mk.inj h).1.symm
  · cases h
  · exact (Prod.mk.inj h).1.symm
  · cases h
  · rw [hback] at h
    exact (Prod.mk.inj h).1.symm
  · by_cases hpins : pins = []
    · rw [if_pos hpins] at h
      cases h
    · rw [if_neg hpins] at h
      split at h
      · cases h
      · cases h
      · rename_i hdies
        cases hdies
      · rw [if_pos rfl] at h
        obtain rfl := (Prod.mk.inj h).1
        exact hback

end Commit

/-! ### Rounds -/

section Rounds

variable [Json.Floats F] [LinearOrder S] [Zero S] {host : Host F S} {settings : Settings S}

/-- The rounds of a call so far: the chunks they cut out, and where they are stored. -/
structure Rounds (python : Python F) (profile : Profile) (protects : Prop)
    (messages : List (Message F)) (live : Live F S) (chunks : List (Nat × List (Message F)))
    (working : List (Message F)) (after : Live F S) : Prop where
  compacted : Compacted python profile live.state.pinnedPrefixLen protects messages chunks working
  pinned : after.state.pinnedPrefixLen = live.state.pinnedPrefixLen
  counted : after.state.historyChunkIndex = live.state.historyChunkIndex + chunks.length
  stored : ∀ i start chunk, chunks[i]? = some (start, chunk) →
    after.artifacts.chunkAt (live.state.historyChunkIndex + i + 1) =
      [(live.state.historyChunkIndex + i + 1, historyChunk chunk start)]
  earlier : ∀ index ≤ live.state.historyChunkIndex,
    after.artifacts.chunkAt index = live.artifacts.chunkAt index
  untouched : chunks = [] → working = messages ∧ after.state = live.state ∧
    after.events = live.events

variable {calls : ChunkPlan S → Call F} {fates : CommitFates} {live : Live F S}
  {plans : List (ChunkPlan S)} {working : List (Message F)} {live' : Live F S} {profile : Profile}
  {protects : Prop} {messages : List (Message F)} {chunks : List (Nat × List (Message F))}

theorem compactRound_committed {preview : Preview F S}
    (h : compactRound host settings working plans calls fates live = (live', .committed preview)) :
    ∃ plan ∈ plans, preview.updated = upsertContextMessages host.python live.state.pinnedPrefixLen
        (without working plan.start plan.stop) preview.summary preview.pins ∧
      commitExecutionArtifacts fates (live.state.historyChunkIndex + 1)
        (historyChunk (slice working plan.start plan.stop) plan.start) preview.summary preview.pins
        live.artifacts = (live'.artifacts, some true) ∧
      live'.state = live.state.commit preview := by
  unfold compactRound at h
  cases hselect : selectPreview host settings live.state working plans calls with
  | none =>
    rw [hselect] at h
    cases h
  | some selected =>
    obtain ⟨plan, selected⟩ := selected
    rw [hselect] at h
    dsimp only at h
    obtain ⟨plan', hplan, hstaged⟩ := List.exists_of_findSome?_eq_some hselect
    obtain ⟨preview', hstage, hpair⟩ := Option.map_eq_some_iff.mp hstaged
    obtain ⟨rfl, rfl⟩ := Prod.mk.inj hpair
    cases hcommit : commitExecutionArtifacts fates (live.state.historyChunkIndex + 1)
        (historyChunk (slice working plan'.start plan'.stop) plan'.start) preview'.summary
        preview'.pins live.artifacts with
    | mk a committed =>
      rw [hcommit] at h
      dsimp only at h
      split at h
      · cases h
      · cases h
      · split at h
        · obtain ⟨rfl, hend⟩ := Prod.mk.inj h
          obtain rfl := RoundEnd.committed.inj hend
          refine ⟨plan', hplan, ?_, hcommit, rfl⟩
          unfold stagePreview at hstage
          obtain ⟨summary, -, hstage⟩ := Option.bind_eq_some_iff.mp hstage
          split at hstage
          · cases hstage
            rfl
          · cases hstage
        · cases h
        · cases h

theorem compactRound_refused
    (h : compactRound host settings working plans calls fates live = (live', .refused)) :
    live'.state = live.state ∧ live'.events = live.events ∧
      (live'.artifacts = live.artifacts ∨ ∃ entries summary, ∃ pins : List (Pin S),
        commitExecutionArtifacts fates (live.state.historyChunkIndex + 1) entries summary pins
          live.artifacts = (live'.artifacts, some false)) := by
  unfold compactRound at h
  cases hselect : selectPreview host settings live.state working plans calls with
  | none =>
    rw [hselect] at h
    obtain ⟨rfl, -⟩ := Prod.mk.inj h
    exact ⟨rfl, rfl, Or.inl rfl⟩
  | some selected =>
    obtain ⟨plan, preview⟩ := selected
    rw [hselect] at h
    dsimp only at h
    cases hcommit : commitExecutionArtifacts fates (live.state.historyChunkIndex + 1)
        (historyChunk (slice working plan.start plan.stop) plan.start) preview.summary
        preview.pins live.artifacts with
    | mk a committed =>
      rw [hcommit] at h
      dsimp only at h
      split at h
      · cases h
      · obtain ⟨rfl, -⟩ := Prod.mk.inj h
        exact ⟨rfl, rfl, Or.inr ⟨_, _, _, hcommit⟩⟩
      · split at h
        · cases h
        · cases h
        · cases h

omit [Json.Floats F] [LinearOrder S] [Zero S] in
theorem Rounds.refl (python : Python F) (profile : Profile) (protects : Prop)
    (messages : List (Message F)) (live : Live F S) :
    Rounds python profile protects messages live [] messages live where
  compacted := .refl
  pinned := rfl
  counted := rfl
  stored _ _ _ h := by cases h
  earlier _ _ := rfl
  untouched _ := ⟨rfl, rfl, rfl⟩

theorem Rounds.snoc {profile : Profile} {hardPressure : Bool}
    {messages working : List (Message F)} {chunks : List (Nat × List (Message F))}
    {live after' : Live F S} {check : Check F S} {preview : Preview F S}
    (h : Rounds host.python profile protects messages live chunks working after)
    (hprotects : check.protects = true → protects)
    (hround : compactRound host settings working
      (roundPlans host settings profile hardPressure check after.state.pinnedPrefixLen working)
      check.calls check.fates after = (after', .committed preview)) :
    (bare host.python preview.updated.messages).length < (bare host.python working).length ∧
      ∃ chunk, Rounds host.python profile protects messages live (chunks ++ [chunk])
        preview.updated.messages after' := by
  obtain ⟨plan, hplan, hupdated, hcommit, hstate⟩ := compactRound_committed hround
  have hcut := cut_of_roundPlans hprotects hplan
  rw [h.pinned] at hcut hupdated
  have hputs := reinserted_upsert host.python live.state.pinnedPrefixLen
    (without working plan.start plan.stop) preview.summary preview.pins
  rw [← hupdated] at hputs
  refine ⟨?_, (plan.start, slice working plan.start plan.stop), ?_⟩
  · rw [hputs.bare]
    exact hcut.length_lt
  · have hothers {index : Nat} (hne : index ≠ after.state.historyChunkIndex + 1) :=
      commit_others hcommit hne
    have hcounted := h.counted
    exact
      { compacted := .round h.compacted hcut hputs
        pinned := by
          rw [hstate]
          exact h.pinned
        counted := by
          rw [hstate, List.length_append, List.length_singleton, State.commit, h.counted,
            Nat.add_assoc]
        stored := by
          intro i start chunk hchunk
          by_cases hlt : i < chunks.length
          · rw [List.getElem?_append_left hlt] at hchunk
            rw [hothers (by omega)]
            exact h.stored i start chunk hchunk
          · have hlen := (List.getElem?_eq_some_iff.mp hchunk).1
            rw [List.length_append, List.length_singleton] at hlen
            obtain rfl : i = chunks.length := by omega
            rw [List.getElem?_concat_length] at hchunk
            cases hchunk
            rw [← h.counted]
            exact commit_self hcommit
        earlier := by
          intro index hle
          rw [hothers (by omega)]
          exact h.earlier index hle
        untouched := fun hnil => absurd hnil (by simp) }

theorem Rounds.refused {after' : Live F S}
    (h : Rounds host.python profile protects messages live chunks working after)
    (hround : compactRound host settings working plans calls fates after = (after', .refused)) :
    Rounds host.python profile protects messages live chunks working after' ∧
      (fates.rollsBack → after.artifacts.chunkAt (after.state.historyChunkIndex + 1) = [] →
        after'.artifacts = after.artifacts) := by
  obtain ⟨hstate, hevents, hartifacts⟩ := compactRound_refused hround
  have hothers (index : Nat) (hle : index ≤ live.state.historyChunkIndex + chunks.length) :
      after'.artifacts.chunkAt index = after.artifacts.chunkAt index := by
    rcases hartifacts with heq | ⟨entries, summary, pins, hcommit⟩
    · rw [heq]
    · have hcounted := h.counted
      exact commit_others hcommit (by omega)
  constructor
  · exact
      { compacted := h.compacted
        pinned := hstate ▸ h.pinned
        counted := hstate ▸ h.counted
        stored := by
          intro i start chunk hchunk
          have hlt := (List.getElem?_eq_some_iff.mp hchunk).1
          rw [hothers _ (by omega)]
          exact h.stored i start chunk hchunk
        earlier := by
          intro index hle
          rw [hothers _ (by omega)]
          exact h.earlier index hle
        untouched := fun hnil => hstate ▸ hevents ▸ h.untouched hnil }
  · intro hrolls hfree
    rcases hartifacts with heq | ⟨entries, summary, pins, hcommit⟩
    · exact heq
    · exact commit_rollsBack hcommit hrolls hfree

/-- **The rounds come to an end, and when the loop returns they are all that happened.** -/
theorem compactLoop_rounds (settings : Settings S) (mode : Mode) {checks : Nat → Check F S}
    (hprotects : ∀ k, (checks k).protects = true → protects) {fuel : Nat} {w : Working F S}
    (h : Rounds host.python profile protects messages live chunks w.messages w.live)
    (hclean : chunks = [] → w.live.artifacts = live.artifacts)
    (hfuel : (bare host.python w.messages).length < fuel) :
    ∃ w' returned,
      compactLoop host settings profile mode checks fuel index w = some (w', returned) ∧
      (returned = true → ∃ chunks',
        Rounds host.python profile protects messages live chunks' w'.messages w'.live ∧
        (chunks' = [] → (∀ k, (checks k).fates.rollsBack) →
          live.artifacts.chunkAt (live.state.historyChunkIndex + 1) = [] →
          w'.live.artifacts = live.artifacts)) := by
  induction fuel generalizing chunks index w with
  | zero => omega
  | succ fuel ih =>
    rw [compactLoop]
    dsimp only
    by_cases hsettled : settled mode (checks index) w.changed = true
    · rw [if_pos hsettled]
      exact ⟨w, true, rfl, fun _ => ⟨chunks, h, fun hnil _ _ => hclean hnil⟩⟩
    · rw [if_neg hsettled]
      cases hround : compactRound host settings w.messages
          (roundPlans host settings profile mode.hardPressure (checks index)
            w.live.state.pinnedPrefixLen w.messages)
          (checks index).calls (checks index).fates w.live with
      | mk after ended =>
        cases ended with
        | committed preview =>
          obtain ⟨hlt, chunk, hrounds⟩ := h.snoc (hprotects index) hround
          exact ih hrounds (fun hnil => absurd hnil (by simp)) (by
            show (bare host.python preview.updated.messages).length < fuel
            omega)
        | refused =>
          obtain ⟨hrounds, hback⟩ := h.refused hround
          refine ⟨{ w with live := after }, true, rfl, fun _ => ⟨chunks, hrounds, ?_⟩⟩
          intro hnil hrolls hfree
          show after.artifacts = live.artifacts
          rw [← hclean hnil] at hfree ⊢
          refine hback (hrolls index) ?_
          rw [(h.untouched hnil).2.1]
          exact hfree
        | raised | died => exact ⟨_, false, rfl, fun h => absurd h Bool.false_ne_true⟩

end Rounds

/-! ### What is returned -/

/-- What a call leaves of the messages, where `chunks` are cut out of them. -/
structure Conserves (python : Python F) (profile : Profile) (protects : Prop)
    (messages : List (Message F)) (live : Live F S) (chunks : List (Nat × List (Message F)))
    (returned : List (Message F)) (after : Live F S) : Prop where
  rounds : Rounds python profile protects messages live chunks returned after
  order : (bare python returned).Sublist (bare python messages)
  removed : (bare python messages).Perm (bare python returned ++ bare python (chunks.flatMap (·.2)))
  pinned : bare python (messages.take live.state.pinnedPrefixLen) <+:
    bare python (returned.take live.state.pinnedPrefixLen)
  valid : hasValidToolTranscript python returned = true
  lastTurn : profile = .chat → ∀ user turn, (∀ msg ∈ turn, isUser python msg = false) →
    user :: turn <:+ bare python messages → user :: turn <:+ bare python returned
  users : profile = .execution →
    (bare python returned).filter (isUser python) = (bare python messages).filter (isUser python)
  /-- Without protection, and where the pinned messages are not the compactor's own. -/
  fromSecond : profile = .execution → ¬protects →
    ∀ front before first between second rest, front.length = live.state.pinnedPrefixLen →
      bare python (messages.take live.state.pinnedPrefixLen) = front →
      (∀ msg ∈ before, isUser python msg = false) → isUser python first = true →
      isUser python second = true →
      bare python messages = front ++ (before ++ first :: (between ++ second :: rest)) →
      ∃ between', bare python returned = front ++ (before ++ first :: (between' ++ second :: rest))

theorem Rounds.conserves {returned : List (Message F)} {chunks : List (Nat × List (Message F))}
    {live : Live F S} (h : Rounds python profile protects messages live chunks returned after)
    (hvalid : hasValidToolTranscript python messages = true) :
    Conserves python profile protects messages live chunks returned after where
  rounds := h
  order := h.compacted.sublist
  removed := h.compacted.perm
  pinned := h.compacted.keeps_pinned
  valid := h.compacted.valid hvalid
  lastTurn hprofile user turn hturn hlast := by
    subst hprofile
    exact h.compacted.last_turn hturn hlast
  users hprofile := by
    subst hprofile
    exact h.compacted.users
  fromSecond hprofile hprotects front before first between second rest hlength hfront hbefore
      hfirst hsecond hmessages := by
    subst hprofile
    exact (h.compacted.from_second hprotects hlength hfront hbefore hfirst hsecond hmessages).2

/-- **A call conserves the messages.**

An execution keeps every message of the user, and all from the second one on unless a round
protects the cacheable prefix; where no round commits nothing is changed, as long as what was
published is put back. -/
theorem compact_conserves [Json.Floats F] [LinearOrder S] [Zero S] (host : Host F S)
    (settings : Settings S) (profile : Profile) (mode : Mode) (checks : Nat → Check F S)
    (messages : List (Message F)) (live : Live F S)
    (hvalid : hasValidToolTranscript host.python messages = true) :
    ∃ w returned, compact host settings profile mode checks messages live = some (w, returned) ∧
      (returned = true → ∃ chunks,
        Conserves host.python profile (∃ k, (checks k).protects = true) messages live chunks
          w.messages w.live ∧
        (chunks = [] → (∀ k, (checks k).fates.rollsBack) →
          live.artifacts.chunkAt (live.state.historyChunkIndex + 1) = [] →
          w.live.artifacts = live.artifacts)) := by
  have hstart : Rounds host.python profile (∃ k, (checks k).protects = true) messages live []
      messages live := .refl host.python profile _ messages live
  have hfuel : (bare host.python messages).length < messages.length + 1 :=
    Nat.lt_succ_of_le (List.length_filter_le _ messages)
  obtain ⟨w, returned, hloop, h⟩ :
      ∃ w returned, compact host settings profile mode checks messages live = some (w, returned) ∧
        _ := compactLoop_rounds settings mode (fun k hk => ⟨k, hk⟩)
          (w := { messages := messages, changed := false, live := live }) hstart (fun _ => rfl) hfuel
  refine ⟨w, returned, hloop, fun hreturned => ?_⟩
  obtain ⟨chunks, hrounds, hclean⟩ := h hreturned
  exact ⟨chunks, hrounds.conserves hvalid, hclean⟩

/-! ### Where the cacheable prefix is protected -/

def message (role content : String) : Message Unit :=
  [("role", .str role), ("content", .str content)]

def twoRequests : List (Message Unit) :=
  [message "user" "first", message "user" "second"] ++
    List.replicate 22 (message "assistant" "done")

/-- Every range weighs enough. -/
def heavyHost : Host Unit Nat := { plainHost with estimateTurnTokens := fun _ => 1024 }

def plainCheck (protects : Bool) : Check Unit Nat where
  comparisonTokens := 0
  triggerTokens := 0
  targetTokens := 0
  protects := protects
  overrides := fun _ _ => none
  calls := fun _ => plainCall
  fates := {}

theorem compact_twoRequests :
    (compact heavyHost plainSettings .execution { force := true } (fun _ => plainCheck true)
      twoRequests (World.start 0).live).map
        (fun result => ((bare heavyHost.python result.1.messages).length, result.2)) =
      some (22, true) := by
  decide +kernel

theorem compact_conserves_plain : hasValidToolTranscript heavyHost.python twoRequests = true ∧
      ∃ w returned, compact heavyHost plainSettings .execution { force := true }
        (fun _ => plainCheck false) twoRequests (World.start 0).live = some (w, returned) ∧
      (returned = true → ∃ chunks,
        Conserves heavyHost.python .execution (∃ _ : Nat, (plainCheck false).protects = true)
          twoRequests (World.start 0).live chunks w.messages w.live ∧
        (chunks = [] → (∀ _ : Nat, (plainCheck false).fates.rollsBack) →
          (World.start 0 : World Unit Nat).live.artifacts.chunkAt 1 = [] →
          w.live.artifacts = (World.start 0 : World Unit Nat).live.artifacts)) :=
  ⟨by decide +kernel, compact_conserves heavyHost plainSettings .execution { force := true }
    (fun _ => plainCheck false) twoRequests (World.start 0).live (by decide +kernel)⟩

/-- **A round that protects the cacheable prefix cuts behind the second message of the user.** -/
theorem compact_cuts_second : hasValidToolTranscript heavyHost.python twoRequests = true ∧
      ∃ w, compact heavyHost plainSettings .execution { force := true } (fun _ => plainCheck true)
          twoRequests (World.start 0).live = some (w, true) ∧
        ¬twoRequests.drop 1 <:+ bare heavyHost.python w.messages := by
  refine ⟨by decide +kernel, ?_⟩
  obtain ⟨⟨w, returned⟩, hcompact, hresult⟩ := Option.map_eq_some_iff.mp compact_twoRequests
  obtain ⟨hlength, rfl⟩ := Prod.mk.inj hresult
  refine ⟨w, hcompact, fun hsuffix => ?_⟩
  have hle := hsuffix.length_le
  rw [hlength] at hle
  exact absurd hle (by decide)

end AlysisCode.Compaction
