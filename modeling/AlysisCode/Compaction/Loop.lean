/-
The loop of the compactor: rounds until the request is small enough.

What the requests weigh, whether the cacheable prefix is worth protecting, what the summariser
replies and what becomes of the files is the environment's, in every round anew.
-/
import AlysisCode.Compaction.Activity

namespace AlysisCode.Compaction

variable {F S : Type}

inductive Profile where
  | chat
  | execution
  deriving DecidableEq

/-- How the loop was called: `compact_now` forces a round, `compact_for_overflow` forces it under
pressure. -/
structure Mode where
  force : Bool := false
  hardPressure : Bool := false

/-- What the environment says in one round. -/
structure Check (F S : Type) where
  (comparisonTokens triggerTokens targetTokens : Nat)
  /-- The cacheable prefix is enabled, long enough, and not most of the request. -/
  protects : Bool
  overrides : Overrides S
  calls : ChunkPlan S → Call F
  fates : CommitFates

/-- `cacheable_prefix_message_count`: up to the last message of the user. -/
def cacheablePrefixMessageCount (python : Python F) (messages : List (Message F)) : Nat :=
  match messages.reverse.findIdx? fun msg => lower (strip (role python msg)) == "user" with
  | some behind => messages.length - 1 - behind
  | none => messages.length - 1

/-- `protected_prefix_message_count` -/
def protectedPrefixLen (python : Python F) (pinnedPrefixLen : Nat) (protects : Bool)
    (messages : List (Message F)) : Nat :=
  let stable := min (cacheablePrefixMessageCount python messages) messages.length
  let pinned := min pinnedPrefixLen messages.length
  if protects ∧ pinned < stable ∧ 0 < stable then stable else pinned

section Plans

variable [LinearOrder S] (host : Host F S) (settings : Settings S) (profile : Profile)
  (hardPressure : Bool)

def chunkPlans (overrides : Overrides S) (protectedLen : Nat) (messages : List (Message F)) :
    List (ChunkPlan S) :=
  match profile with
  | .chat =>
    (buildChatChunkPlan host settings overrides protectedLen hardPressure messages).toList
  | .execution => buildExecutionChunkPlans host settings overrides protectedLen messages

/-- The plans of a round; the protection is given up where it leaves none. -/
def roundPlans (check : Check F S) (pinnedPrefixLen : Nat) (messages : List (Message F)) :
    List (ChunkPlan S) :=
  let protectedLen := protectedPrefixLen host.python pinnedPrefixLen check.protects messages
  let plans := chunkPlans host settings profile hardPressure check.overrides protectedLen messages
  if plans = [] ∧ pinnedPrefixLen < protectedLen then
    chunkPlans host settings profile hardPressure check.overrides pinnedPrefixLen messages
  else plans

end Plans

/-- The messages as they are worked on, whether a round has committed, and the compactor. -/
structure Working (F S : Type) where
  messages : List (Message F)
  changed : Bool
  live : Live F S

section Loop

variable [Json.Floats F] [LinearOrder S] [Zero S]

/-- The request is small enough. -/
def settled (mode : Mode) (check : Check F S) (changed : Bool) : Bool :=
  if changed then check.comparisonTokens ≤ check.targetTokens
  else !mode.force && !mode.hardPressure && check.comparisonTokens ≤ check.triggerTokens

/-- `_compact_loop` from a round on, and whether it returns; it does not where an event cannot be
appended or the process dies. -/
def compactLoop (host : Host F S) (settings : Settings S) (profile : Profile) (mode : Mode)
    (checks : Nat → Check F S) : Nat → Nat → Working F S → Option (Working F S × Bool)
  | 0, _, _ => none
  | fuel + 1, index, w =>
    let check := checks index
    if settled mode check w.changed then some (w, true)
    else
      let plans := roundPlans host settings profile mode.hardPressure check
        w.live.state.pinnedPrefixLen w.messages
      match compactRound host settings w.messages plans check.calls check.fates w.live with
      | (live, .committed preview) =>
        compactLoop host settings profile mode checks fuel (index + 1)
          { messages := preview.updated.messages, changed := true, live := live }
      | (live, .refused) => some ({ w with live := live }, true)
      | (live, .raised _) => some ({ w with live := live }, false)
      | (live, .died _) => some ({ w with live := live }, false)

/-- `maybe_compact`, `compact_now` and `compact_for_overflow` -/
def compact (host : Host F S) (settings : Settings S) (profile : Profile) (mode : Mode)
    (checks : Nat → Check F S) (messages : List (Message F)) (live : Live F S) :
    Option (Working F S × Bool) :=
  compactLoop host settings profile mode checks (messages.length + 1) 0
    { messages := messages, changed := false, live := live }

end Loop

end AlysisCode.Compaction
