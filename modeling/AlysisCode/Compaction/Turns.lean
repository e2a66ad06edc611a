/-
What a chunk may be in a chat: whole turns of the user, and never the last ones.

A turn begins with a message of the user and ends before the next one.  The turns behind the
protected prefix are scored, those that are kept recent are left out, and of the others the
least dense one is taken, or the oldest ones.
-/
import Mathlib.Data.List.MinMax
import Mathlib.Data.Prod.Lex
import AlysisCode.Compaction.Messages

namespace AlysisCode.Compaction

variable {F S : Type}

/-- What the compactor reads off a turn without changing anything: `score_turn` with the preview
of `_range_preview` where there is none, `estimate_turn_tokens`, and the density of a score. -/
structure Host (F S : Type) where
  python : Python F
  scoreTurn : List (Message F) → S × List String × String
  estimateTurnTokens : List (Message F) → Nat
  /-- `score / max(1, token_estimate)` -/
  density : S → Nat → S
  /-- The display reference of a history chunk. -/
  historyPath : Nat → String

/-- `_ChunkPlan`: the messages from `start` up to `stop`. -/
structure ChunkPlan (S : Type) where
  start : Nat
  stop : Nat
  scoredTurns : List (ScoredTurn S)

/-! ### Turns -/

/-- The turns among the messages from `index` on; one that has begun at `start` is still open. -/
def turnRangesFrom (python : Python F) (start : Option Nat) (index : Nat) :
    List (Message F) → List (Nat × Nat)
  | [] => (start.map (·, index)).toList
  | msg :: rest =>
    if isContext python msg then turnRangesFrom python start (index + 1) rest
    else if role python msg ≠ "user" then turnRangesFrom python start (index + 1) rest
    else (start.map (·, index)).toList ++ turnRangesFrom python (some index) (index + 1) rest

def turnRanges (python : Python F) (protectedPrefixLen : Nat) (messages : List (Message F)) :
    List (Nat × Nat) :=
  let scanStart := min protectedPrefixLen messages.length
  turnRangesFrom python none scanStart (messages.drop scanStart)

/-- `messages[start:stop]` -/
def slice (messages : List (Message F)) (start stop : Nat) : List (Message F) :=
  (messages.take stop).drop start

/-- What the summariser makes of the scores: a score for a range, where it gives one. -/
abbrev Overrides (S : Type) := Nat → Nat → Option S

variable {msg : Message F} (host : Host F S) {start : Nat} (overrides : Overrides S)

/-- `_apply_llm_importance_overrides`, of one turn. -/
def ScoredTurn.override (turn : ScoredTurn S) :
    ScoredTurn S :=
  match overrides turn.start turn.stop with
  | none => turn
  | some score =>
    { turn with
      score := score
      density := host.density score turn.tokenEstimate
      reasons :=
        if "llm_importance_override" ∈ turn.reasons then turn.reasons
        else turn.reasons ++ ["llm_importance_override"] }

def scoreRanges (messages : List (Message F)) (ranges : List (Nat × Nat)) : List (ScoredTurn S) :=
  ranges.map fun range =>
    let turn := slice messages range.1 range.2
    let (score, reasons, preview) := host.scoreTurn turn
    let tokenEstimate := host.estimateTurnTokens turn
    ScoredTurn.override host overrides
      { start := range.1
        stop := range.2
        tokenEstimate := tokenEstimate
        score := score
        density := host.density score tokenEstimate
        reasons := reasons
        userPreview := preview }

/-- `(turn.density, turn.start)` -/
def ScoredTurn.rank (turn : ScoredTurn S) : S ×ₗ Nat := toLex (turn.density, turn.start)

/-! ### The chunk of a chat -/

/-- The turns that are taken from the front, while there is room for them. -/
def takeTurns (maxChunkMessages : Nat) (consumed : Nat) :
    List (Nat × Nat) → List (Nat × Nat)
  | [] => []
  | range :: rest =>
    let size := range.2 - range.1
    if 0 < consumed ∧ maxChunkMessages < consumed + size then []
    else if maxChunkMessages ≤ consumed + size then [range]
    else range :: takeTurns maxChunkMessages (consumed + size) rest

def buildChatChunkPlan [LinearOrder S] (host : Host F S) (settings : Settings S) (overrides : Overrides S)
    (protectedPrefixLen : Nat) (hardPressure : Bool) (messages : List (Message F)) :
    Option (ChunkPlan S) :=
  let turns := turnRanges host.python protectedPrefixLen messages
  let keepRecent :=
    if hardPressure then min 1 settings.recentUserTurnsToKeep else settings.recentUserTurnsToKeep
  if turns.length ≤ keepRecent then none
  else
    let eligible := turns.take (turns.length - keepRecent)
    let scored := scoreRanges host overrides messages eligible
    if settings.importanceEnabled ∧ settings.importanceStrategy = .lowestDensity then
      (scored.argmin ScoredTurn.rank).map fun selected =>
        { start := selected.start, stop := selected.stop, scoredTurns := [selected] }
    else
      let selected := takeTurns settings.maxChunkMessages 0 eligible
      match eligible.head?, selected.getLast? with
      | some first, some last =>
        if last.2 ≤ first.1 then none
        else
          some
            { start := first.1
              stop := last.2
              scoredTurns := scored.filter fun turn => (turn.start, turn.stop) ∈ selected }
      | _, _ => none

/-! ### Turns begin and end at messages of the user -/

def UserAt (python : Python F) (messages : List (Message F)) (index : Nat) : Prop :=
  ∃ msg, messages[index]? = some msg ∧ isUser python msg = true

/-- The messages from `start` up to `stop` are turns of the user, and not the last one. -/
structure Turns (python : Python F) (protectedPrefixLen : Nat) (messages : List (Message F))
    (start stop : Nat) : Prop where
  behind : min protectedPrefixLen messages.length ≤ start
  lt : start < stop
  opens : UserAt python messages start
  closes : UserAt python messages stop

variable {python : Python F}

/-- The turns follow one another; `last` is the end of the messages. -/
inductive Chained (python : Python F) (messages : List (Message F)) (last : Nat) :
    Nat → List (Nat × Nat) → Prop
  | single {start : Nat} (h : UserAt python messages start) (hlt : start < last) :
      Chained python messages last start [(start, last)]
  | cons {start next : Nat} {rest : List (Nat × Nat)} (h : UserAt python messages start)
      (hlt : start < next) (hrest : Chained python messages last next rest) :
      Chained python messages last start ((start, next) :: rest)

variable {index : Nat} {messages rest : List (Message F)} {ranges : List (Nat × Nat)}

theorem userAt_of_drop (hrest : messages.drop index = msg :: rest)
    (hcontext : ¬isContext python msg = true) (hrole : ¬role python msg ≠ "user") :
    UserAt python messages index := by
  refine ⟨msg, ?_, ?_⟩
  · rw [← List.head?_drop, hrest]
    rfl
  · rw [isUser, Bool.and_eq_true_iff]
    exact ⟨by simpa using hcontext, by simpa using hrole⟩

theorem drop_succ_of_drop (h : messages.drop index = msg :: rest) :
    messages.drop (index + 1) = rest ∧ index < messages.length := by
  constructor
  · rw [← List.tail_drop, h]
    rfl
  · by_contra hge
    rw [List.drop_eq_nil_of_le (by omega)] at h
    cases h

theorem chained_turnRangesFrom (hrest : messages.drop index = rest)
    (hlength : index ≤ messages.length) (hstart : UserAt python messages start)
    (hlt : start < index) :
    Chained python messages messages.length start
      (turnRangesFrom python (some start) index rest) := by
  induction rest generalizing start index with
  | nil =>
    have hindex : index = messages.length := by
      have := List.drop_eq_nil_iff.mp hrest
      omega
    subst hindex
    exact .single hstart hlt
  | cons msg rest ih =>
    obtain ⟨hdrop, hlt'⟩ := drop_succ_of_drop hrest
    rw [turnRangesFrom]
    by_cases hcontext : isContext python msg = true
    · rw [if_pos hcontext]
      exact ih hdrop (by omega) hstart (by omega)
    · rw [if_neg hcontext]
      by_cases hrole : role python msg ≠ "user"
      · rw [if_pos hrole]
        exact ih hdrop (by omega) hstart (by omega)
      · rw [if_neg hrole]
        have huser := userAt_of_drop hrest hcontext hrole
        exact .cons hstart hlt (ih hdrop (by omega) huser (by omega))

theorem turnRangesFrom_none (hrest : messages.drop index = rest) :
    turnRangesFrom python none index rest = [] ∨
      ∃ start, index ≤ start ∧ Chained python messages messages.length start
        (turnRangesFrom python none index rest) := by
  induction rest generalizing index with
  | nil => exact Or.inl rfl
  | cons msg rest ih =>
    obtain ⟨hdrop, hlt⟩ := drop_succ_of_drop hrest
    have hlater := ih hdrop
    rw [turnRangesFrom]
    by_cases hcontext : isContext python msg = true
    · rw [if_pos hcontext]
      exact hlater.imp_right fun ⟨start, hle, h⟩ => ⟨start, by omega, h⟩
    · rw [if_neg hcontext]
      by_cases hrole : role python msg ≠ "user"
      · rw [if_pos hrole]
        exact hlater.imp_right fun ⟨start, hle, h⟩ => ⟨start, by omega, h⟩
      · rw [if_neg hrole]
        have huser := userAt_of_drop hrest hcontext hrole
        exact Or.inr ⟨index, le_refl index,
          chained_turnRangesFrom hdrop (by omega) huser (by omega)⟩

theorem Chained.opens {last : Nat} (h : Chained python messages last start ranges) :
    UserAt python messages start := by
  cases h with
  | single h | cons h => exact h

theorem Chained.of_mem_take {last : Nat} (h : Chained python messages last start ranges) {n : Nat}
    (hn : n < ranges.length) {range : Nat × Nat} (hrange : range ∈ ranges.take n) :
    start ≤ range.1 ∧ range.1 < range.2 ∧ UserAt python messages range.1 ∧
      UserAt python messages range.2 := by
  induction h generalizing n with
  | single =>
    obtain rfl : n = 0 := by
      rw [List.length_singleton] at hn
      omega
    cases hrange
  | cons h hlt hrest ih =>
    cases n with
    | zero => cases hrange
    | succ n =>
      rw [List.take_succ_cons] at hrange
      rcases List.mem_cons.mp hrange with rfl | hrange
      · exact ⟨le_refl _, hlt, h, hrest.opens⟩
      · rw [List.length_cons] at hn
        obtain ⟨hle, hrange⟩ := ih (by omega) hrange
        exact ⟨by omega, hrange⟩

theorem takeTurns_prefix (maxChunkMessages consumed : Nat) (ranges : List (Nat × Nat)) :
    takeTurns maxChunkMessages consumed ranges <+: ranges := by
  induction ranges generalizing consumed with
  | nil => exact List.prefix_refl []
  | cons range rest ih =>
    rw [takeTurns]
    split
    · exact List.nil_prefix
    · split
      · exact List.prefix_append [range] rest
      · exact List.cons_prefix_cons.mpr ⟨rfl, ih _⟩

theorem override_range (turn : ScoredTurn S) :
    (turn.override host overrides).start = turn.start ∧
      (turn.override host overrides).stop = turn.stop := by
  unfold ScoredTurn.override
  split
  · exact ⟨rfl, rfl⟩
  · exact ⟨rfl, rfl⟩

theorem range_of_mem_scoreRanges {host : Host F S} {overrides : Overrides S} {turn : ScoredTurn S}
    (h : turn ∈ scoreRanges host overrides messages ranges) : (turn.start, turn.stop) ∈ ranges := by
  obtain ⟨range, hrange, rfl⟩ := List.mem_map.mp h
  rw [(override_range host overrides _).1, (override_range host overrides _).2]
  exact hrange

/-- **The chunk of a chat is made of turns, and not of the last one.** -/
theorem turns_of_chatChunkPlan [LinearOrder S] {host : Host F S} {settings : Settings S}
    {overrides : Overrides S} {protectedPrefixLen : Nat} {hardPressure : Bool} {plan : ChunkPlan S}
    (h : buildChatChunkPlan host settings overrides protectedPrefixLen hardPressure messages =
      some plan) : Turns host.python protectedPrefixLen messages plan.start plan.stop := by
  unfold buildChatChunkPlan at h
  dsimp only at h
  have hkeep : 0 < (if hardPressure then min 1 settings.recentUserTurnsToKeep
      else settings.recentUserTurnsToKeep) := by
    have := settings.recentUserTurnsToKeep_pos
    split <;> omega
  generalize (if hardPressure then min 1 settings.recentUserTurnsToKeep
    else settings.recentUserTurnsToKeep) = keepRecent at h hkeep
  by_cases hfew : (turnRanges host.python protectedPrefixLen messages).length ≤ keepRecent
  · rw [if_pos hfew] at h
    cases h
  · rw [if_neg hfew] at h
    have hchained : turnRanges host.python protectedPrefixLen messages = [] ∨
        ∃ start, min protectedPrefixLen messages.length ≤ start ∧
          Chained host.python messages messages.length start
            (turnRanges host.python protectedPrefixLen messages) := turnRangesFrom_none rfl
    generalize turnRanges host.python protectedPrefixLen messages = turns at h hfew hchained
    rcases hchained with rfl | ⟨start, hstart, hchained⟩
    · exact absurd (Nat.zero_le keepRecent) hfew
    · have hturn {range : Nat × Nat} (hrange : range ∈ turns.take (turns.length - keepRecent)) :=
        hchained.of_mem_take (by omega) hrange
      by_cases hlowest : settings.importanceEnabled = true ∧
          settings.importanceStrategy = .lowestDensity
      · rw [if_pos hlowest] at h
        obtain ⟨selected, hselected, rfl⟩ := Option.map_eq_some_iff.mp h
        obtain ⟨hle, hlt, hopens, hcloses⟩ :=
          hturn (range_of_mem_scoreRanges (List.argmin_mem hselected))
        exact ⟨hstart.trans hle, hlt, hopens, hcloses⟩
      · rw [if_neg hlowest] at h
        have htaken := takeTurns_prefix settings.maxChunkMessages 0
          (turns.take (turns.length - keepRecent))
        split at h
        · rename_i first last hfirst hlast
          by_cases hempty : last.2 ≤ first.1
          · rw [if_pos hempty] at h
            cases h
          · rw [if_neg hempty] at h
            cases h
            obtain ⟨hle, -, hopens, -⟩ := hturn (List.mem_of_mem_head? hfirst)
            obtain ⟨-, -, -, hcloses⟩ := hturn (htaken.subset (List.mem_of_getLast? hlast))
            exact ⟨hstart.trans hle, not_le.mp hempty, hopens, hcloses⟩
        · cases h

end AlysisCode.Compaction
