/-
The compactor's loop comes to an end, by what the request weighs.

Of the numbers that a round looks at only one is compared before and after: the local estimate of
the request that the provider would get.  The breakdown that a round begins with is scaled to that
estimate, so what the next round begins with is what this one predicted.  The other numbers decide
when to stop, and may be anything.
-/
import AlysisCode.Compaction.Loop
import AlysisCode.Usage.Sound

namespace AlysisCode.Compaction

open Usage (RequestTokenBreakdown estimateMessageTokens analyzeToolSchemaBudget
  estimateRequestTokenBreakdown)

variable {F S : Type}

/-! ### The local estimate -/

/-- The loop of `_with_request_total`: the tokens are taken off one count after another. -/
def takeOff : Int → List Int → List Int
  | _, [] => []
  | remaining, count :: rest =>
    let removable := min count remaining
    if remaining - removable ≤ 0 then (count - removable) :: rest
    else (count - removable) :: takeOff (remaining - removable) rest

def withRequestTotal (b : RequestTokenBreakdown) (totalTokens : Int) : RequestTokenBreakdown :=
  let delta := max 0 totalTokens - b.totalTokens
  if delta = 0 then b
  else if 0 < delta then
    { b with liveConversationHistoryTokens := b.liveConversationHistoryTokens + delta }
  else
    match takeOff (-delta) [b.liveConversationHistoryTokens, b.inlineToolTranscriptTokens,
      b.memorySummaryTokens, b.pinsTokens, b.bootstrapPromptTokens, b.toolSchemaTokens] with
    | [live, inline, memory, pins, bootstrap, schema] =>
      { b with
        liveConversationHistoryTokens := live
        inlineToolTranscriptTokens := inline
        memorySummaryTokens := memory
        pinsTokens := pins
        bootstrapPromptTokens := bootstrap
        toolSchemaTokens := schema }
    | _ => b

/-- What turns a list of messages into a request, the same for a whole call. -/
structure Requests (F : Type) where
  host : Usage.Host F
  /-- `request_messages_builder` -/
  builder : Option (List (Message F) → List (Message F))
  toolList : Option (List (Members F))

section Estimate

variable [Json.Floats F] (r : Requests F)

namespace Requests

/-- `_provider_request_messages` -/
def provider (messages : List (Message F)) : List (Message F) :=
  match r.builder with
  | none => messages
  | some builder => builder messages

/-- `estimate_request_tokens` of the request. -/
def estimate (messages : List (Message F)) : Int :=
  estimateMessageTokens r.host (r.provider messages) +
    (analyzeToolSchemaBudget r.host r.toolList).totalTokens

/-- `_estimate_compaction_request_breakdown` -/
def breakdown (messages : List (Message F)) (pinnedPrefixLen : Int) : RequestTokenBreakdown :=
  withRequestTotal
    (estimateRequestTokenBreakdown r.host (r.provider messages) r.toolList pinnedPrefixLen)
    (r.estimate messages)

def usedTokens (state : State F S) (messages : List (Message F)) : Int :=
  (r.breakdown messages state.pinnedPrefixLen).totalTokens

end Requests

theorem sum_takeOff {counts : List Int} (hcounts : ∀ count ∈ counts, 0 ≤ count) {remaining : Int}
    (hpos : 0 < remaining) (hle : remaining ≤ counts.sum) :
    (takeOff remaining counts).sum = counts.sum - remaining ∧
      (takeOff remaining counts).length = counts.length := by
  induction counts generalizing remaining with
  | nil =>
    rw [List.sum_nil] at hle
    omega
  | cons count rest ih =>
    have hcount := hcounts count List.mem_cons_self
    have hrest : ∀ c ∈ rest, 0 ≤ c := fun c hc => hcounts c (List.mem_cons_of_mem _ hc)
    rw [List.sum_cons] at hle
    unfold takeOff
    by_cases hdone : remaining - min count remaining ≤ 0
    · rw [if_pos hdone, List.sum_cons, List.sum_cons]
      refine ⟨by omega, rfl⟩
    · rw [if_neg hdone]
      obtain ⟨hsum, hlength⟩ := @ih hrest (remaining - min count remaining) (by omega) (by omega)
      rw [List.sum_cons, List.sum_cons, hsum, List.length_cons, List.length_cons, hlength]
      refine ⟨by omega, rfl⟩

omit [Json.Floats F] in
theorem totalTokens_withRequestTotal {b : RequestTokenBreakdown} (hb : b.Sound) (totalTokens : Int) :
    (withRequestTotal b totalTokens).totalTokens = max 0 totalTokens := by
  unfold withRequestTotal
  by_cases hsame : max 0 totalTokens - b.totalTokens = 0
  · rw [if_pos hsame]
    omega
  · rw [if_neg hsame]
    by_cases hmore : 0 < max 0 totalTokens - b.totalTokens
    · rw [if_pos hmore]
      show b.bootstrapPromptTokens + b.toolSchemaTokens +
        (b.liveConversationHistoryTokens + (max 0 totalTokens - b.totalTokens)) +
        b.inlineToolTranscriptTokens + b.memorySummaryTokens + b.pinsTokens = _
      unfold RequestTokenBreakdown.totalTokens
      omega
    · rw [if_neg hmore]
      have hcounts : [b.liveConversationHistoryTokens, b.inlineToolTranscriptTokens,
          b.memorySummaryTokens, b.pinsTokens, b.bootstrapPromptTokens,
          b.toolSchemaTokens].sum = b.totalTokens := by
        unfold RequestTokenBreakdown.totalTokens
        simp only [List.sum_cons, List.sum_nil]
        omega
      have hnonneg : ∀ count ∈ [b.liveConversationHistoryTokens, b.inlineToolTranscriptTokens,
          b.memorySummaryTokens, b.pinsTokens, b.bootstrapPromptTokens, b.toolSchemaTokens],
          0 ≤ count := by
        simp [hb.liveConversationHistoryTokens, hb.inlineToolTranscriptTokens,
          hb.memorySummaryTokens, hb.pinsTokens, hb.bootstrapPromptTokens, hb.toolSchemaTokens]
      obtain ⟨hsum, hlength⟩ := @sum_takeOff _ hnonneg (-(max 0 totalTokens - b.totalTokens))
        (by omega) (by omega)
      rw [hcounts] at hsum
      generalize takeOff _ _ = left at hsum hlength
      match left, hlength with
      | [live, inline, memory, pins, bootstrap, schema], _ =>
        show bootstrap + schema + live + inline + memory + pins = _
        simp only [List.sum_cons, List.sum_nil] at hsum
        omega

/-- **What a round begins with is the local estimate.** -/
theorem usedTokens_eq (state : State F S) (messages : List (Message F)) :
    r.usedTokens state messages = r.estimate messages := by
  unfold Requests.usedTokens Requests.breakdown
  rw [totalTokens_withRequestTotal (Usage.sound_estimate _ _ _ _)]
  refine max_eq_right ?_
  exact Int.add_nonneg (Int.natCast_nonneg _) (Int.natCast_nonneg _)

theorem estimate_nonneg (messages : List (Message F)) : 0 ≤ r.estimate messages :=
  Int.add_nonneg (Int.natCast_nonneg _) (Int.natCast_nonneg _)

end Estimate

/-! ### The loop with the estimate -/

section Loop

variable [Json.Floats F] [LinearOrder S] [Zero S]

variable (r : Requests F) (host : Host F S) {plan : ChunkPlan S} (settings : Settings S)
  {call : Call F} {preview : Preview F S}

/-- The replies of a call, with the comparison of the estimates instead of what it says. -/
def measuredCall (w : Working F S) (plan : ChunkPlan S) (call : Call F) : Call F :=
  { call with
    shrinks := (stagePreview host settings w.live.state w.messages plan
      { call with shrinks := true }).any fun preview =>
        r.estimate preview.updated.messages < r.usedTokens w.live.state w.messages }

/-- What a round goes by. -/
def measuredCheck (w : Working F S) (check : Check F S) : Check F S :=
  { check with calls := fun plan => measuredCall r host settings w plan (check.calls plan) }

/-- A round of `_compact_loop` that has found the request too large. -/
def measuredRound (profile : Profile) (mode : Mode) (check : Check F S) (w : Working F S) :
    Live F S × RoundEnd F S :=
  let measured := measuredCheck r host settings w check
  compactRound host settings w.messages
    (roundPlans host settings profile mode.hardPressure measured w.live.state.pinnedPrefixLen
      w.messages) measured.calls measured.fates w.live

/-- `_compact_loop` -/
def measuredLoop (r : Requests F) (host : Host F S) (settings : Settings S) (profile : Profile)
    (mode : Mode) (checks : Nat → Check F S) :
    Nat → Nat → Working F S → Option (Working F S × Bool)
  | 0, _, _ => none
  | fuel + 1, index, w =>
    if settled mode (checks index) w.changed then some (w, true)
    else
      match measuredRound r host settings profile mode (checks index) w with
      | (live, .committed preview) =>
        measuredLoop r host settings profile mode checks fuel (index + 1)
          { messages := preview.updated.messages, changed := true, live := live }
      | (live, .refused) => some ({ w with live := live }, true)
      | (live, .raised _) => some ({ w with live := live }, false)
      | (live, .died _) => some ({ w with live := live }, false)

variable (r : Requests F) (host : Host F S) (settings : Settings S) (profile : Profile)
  (mode : Mode)

theorem stagePreview_of_shrinks {state : State F S} {working : List (Message F)}
    (h : stagePreview host settings state working plan call = some preview) :
    call.shrinks = true ∧
      stagePreview host settings state working plan { call with shrinks := true } = some preview := by
  obtain ⟨reply, retry, shrinks⟩ := call
  cases shrinks with
  | true => exact ⟨rfl, h⟩
  | false =>
    unfold stagePreview at h
    obtain ⟨summary, -, hnone⟩ := Option.bind_eq_some_iff.mp h
    cases hnone

theorem estimate_lt_of_stage {w : Working F S}
    (h : stagePreview host settings w.live.state w.messages plan
      (measuredCall r host settings w plan call) = some preview) :
    r.estimate preview.updated.messages < r.estimate w.messages := by
  obtain ⟨hshrinks, hstage⟩ := stagePreview_of_shrinks host settings h
  have hcall : { measuredCall r host settings w plan call with shrinks := true } =
      { call with shrinks := true } := rfl
  unfold measuredCall at hshrinks
  rw [← hcall, hstage, Option.any_some, usedTokens_eq] at hshrinks
  exact of_decide_eq_true hshrinks

/-- **A round that commits leaves a smaller request.** -/
theorem estimate_lt_of_committed {check : Check F S} {w : Working F S} {live : Live F S}
    (h : measuredRound r host settings profile mode check w = (live, .committed preview)) :
    r.estimate preview.updated.messages < r.estimate w.messages := by
  unfold measuredRound at h
  dsimp only at h
  unfold compactRound at h
  cases hselect : selectPreview host settings w.live.state w.messages
      (roundPlans host settings profile mode.hardPressure (measuredCheck r host settings w check)
        w.live.state.pinnedPrefixLen w.messages) (measuredCheck r host settings w check).calls with
  | none =>
    rw [hselect] at h
    cases h
  | some selected =>
    obtain ⟨plan, selected⟩ := selected
    obtain ⟨plan', -, hstaged⟩ := List.exists_of_findSome?_eq_some hselect
    obtain ⟨preview', hstage, hpair⟩ := Option.map_eq_some_iff.mp hstaged
    cases hpair
    have hlt := estimate_lt_of_stage r host settings hstage
    rw [hselect] at h
    dsimp only at h
    split at h
    · cases h
    · cases h
    · split at h
      · obtain rfl := RoundEnd.committed.inj (Prod.mk.inj h).2
        exact hlt
      · cases h
      · cases h

/-- **Enough fuel is one more than the estimate.** -/
theorem measuredLoop_halts (checks : Nat → Check F S) {fuel index : Nat} {w : Working F S}
    (hfuel : (r.estimate w.messages).toNat < fuel) :
    (measuredLoop r host settings profile mode checks fuel index w).isSome := by
  induction fuel generalizing index w with
  | zero => exact absurd hfuel (Nat.not_lt_zero _)
  | succ fuel ih =>
    rw [measuredLoop]
    by_cases hsettled : settled mode (checks index) w.changed = true
    · rw [if_pos hsettled]
      rfl
    · rw [if_neg hsettled]
      cases hround : measuredRound r host settings profile mode (checks index) w with
      | mk live ended =>
        cases ended with
        | committed preview =>
          have hlt := estimate_lt_of_committed r host settings profile mode hround
          have hnonneg := estimate_nonneg r preview.updated.messages
          refine ih ?_
          show (r.estimate preview.updated.messages).toNat < fuel
          omega
        | refused | raised preview | died preview => rfl

/-- What the estimate is to the loop. -/
structure Terminates (checks : Nat → Check F S) : Prop where
  /-- The number that a round begins with and the one it predicted are one measure, -/
  measure : ∀ (state : State F S) messages, r.usedTokens state messages = r.estimate messages
  /-- which a committed round makes smaller. -/
  shrinks : ∀ check (w : Working F S) live preview,
    measuredRound r host settings profile mode check w = (live, .committed preview) →
    r.estimate preview.updated.messages < r.estimate w.messages
  /-- A round that does not commit is the last, -/
  returns : ∀ fuel index (w : Working F S),
    (∀ live preview, measuredRound r host settings profile mode (checks index) w ≠
      (live, .committed preview)) →
    (measuredLoop r host settings profile mode checks (fuel + 1) index w).isSome
  /-- and there are no more rounds than tokens. -/
  halts : ∀ fuel index (w : Working F S), (r.estimate w.messages).toNat < fuel →
    (measuredLoop r host settings profile mode checks fuel index w).isSome

/-- **The loop terminates, whatever the environment says in its rounds.** -/
theorem compactLoop_terminates (checks : Nat → Check F S) :
    Terminates r host settings profile mode checks where
  measure state messages := usedTokens_eq r state messages
  shrinks _ _ _ _ h := estimate_lt_of_committed r host settings profile mode h
  returns := by
    intro fuel index w hnot
    rw [measuredLoop]
    split
    · rfl
    · split
      · rename_i live preview hround
        exact absurd hround (hnot live preview)
      · rfl
      · rfl
      · rfl
  halts _ _ _ hfuel := measuredLoop_halts r host settings profile mode checks hfuel

end Loop

end AlysisCode.Compaction
