/-
What the parts of the compactor share: its settings, and the turns it has scored.

Scores and densities are floats that are compared and nothing else.
-/
import AlysisCode.Ide.Python
import AlysisCode.Library.Casefold

namespace AlysisCode.Compaction

abbrev Members (F : Type) := List (String × Json F)

inductive ImportanceStrategy where
  | oldest
  | lowestDensity
  deriving DecidableEq

/-- `CompactionSettings`; `_resolve_positive_int` lets no count be zero. -/
structure Settings (S : Type) where
  (recentUserTurnsToKeep maxChunkMessages executionMinRemovableMessages
    executionMinRemovableTokens : Nat)
  importanceEnabled : Bool
  importanceStrategy : ImportanceStrategy
  pinScoreThreshold : S
  (maxPins maxPinsChars pinSnippetChars : Nat)
  recentUserTurnsToKeep_pos : 0 < recentUserTurnsToKeep
  maxChunkMessages_pos : 0 < maxChunkMessages

/-- `ScoredTurn`: the messages from `start` up to `stop`. -/
structure ScoredTurn (S : Type) where
  (start stop tokenEstimate : Nat)
  score : S
  density : S
  reasons : List String
  userPreview : String

/-! ### Texts -/

/-- `text.casefold()` -/
def folded (text : String) : List Char := Text.casefold text.toList

/-- `re.sub(r"\s+", " ", …)` -/
def collapse : List Char → List Char
  | [] => []
  | c :: rest =>
    if isSpace c then
      if rest.head?.any isSpace then collapse rest else ' ' :: collapse rest
    else c :: collapse rest

def trimSnippet (text : String) (limit : Nat) : String :=
  let compact := collapse (strip text).toList
  if limit = 0 then ""
  else if compact.length ≤ limit then String.ofList compact
  else String.ofList ((compact.take limit).reverse.dropWhile isSpace).reverse ++ "..."

end AlysisCode.Compaction
