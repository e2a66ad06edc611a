/-
What a streamed fragment adds to the text received so far.

Some providers send the whole text again with each event, or start over in the middle of
one.  `_stream_delta_suffix` compares each fragment with everything received before and
keeps what it takes to be new.  A fragment that belongs to the text can look like such a
repetition; `Repeats` is exactly when it does, and then part of it is dropped.
-/
import Mathlib.Data.List.Induction
import AlysisCode.Ide.Common
import AlysisCode.Library.Text

namespace AlysisCode.Stream

open Text

/-! ### The heuristics -/

def commonPrefixLength : List Char → List Char → Nat
  | l :: left, r :: right => if l = r then commonPrefixLength left right + 1 else 0
  | _, _ => 0

/-- The loop of `_suffix_prefix_overlap_length`, from `size` down. -/
def overlapFrom (left right : List Char) : Nat → Nat
  | 0 => 0
  | size + 1 =>
    if left.drop (left.length - (size + 1)) = right.take (size + 1) then size + 1
    else overlapFrom left right size

def suffixPrefixOverlapLength (left right : List Char) : Nat :=
  overlapFrom left right (min left.length right.length)

/-- `str.lstrip("\r\n ")`. -/
def lstripBreaks (t : List Char) : List Char :=
  t.dropWhile fun c => c = '\r' || c = '\n' || c = ' '

/-- The loop of `_strip_cumulative_restart_suffix`, at most `fuel` rounds of it. -/
def stripRestart (previous : List Char) : Nat → List Char → Option (List Char)
  | 0, _ => none
  | fuel + 1, candidate =>
    if candidate = [] then none
    else
      let trimmed := lstripBreaks candidate
      if previous <+: trimmed then
        let remainder := trimmed.drop previous.length
        let trimmedRemainder := lstripBreaks remainder
        if previous <+: trimmedRemainder then stripRestart previous fuel trimmedRemainder
        else some remainder
      else if trimmed ≠ candidate then stripRestart previous fuel trimmed
      else none

/-- `_strip_cumulative_restart_suffix`.  Each round shortens the candidate. -/
def stripCumulativeRestartSuffix (previous incoming : List Char) : Option (List Char) :=
  stripRestart previous (incoming.length + 1) incoming

def looksLikeAlternateCumulativeRestart (previous incoming : List Char) : Bool :=
  if previous.length < 120 ∨ incoming.length < 80 then false
  else if previous <+: incoming ∨ incoming <+: previous then false
  else
    let commonPrefix := commonPrefixLength previous incoming
    if commonPrefix < 24 then false
    else commonPrefix < min previous.length incoming.length / 2

/-- The branch on `incoming.rfind(previous)`: what follows the last `previous` when only
white space precedes it. -/
def afterBlankRestart (previous incoming : List Char) : Option (List Char) :=
  match rsplitOnce previous incoming with
  | some (before, after) =>
    if before ≠ [] ∧ stripWhere isSpace before = [] then some after else none
  | none => none

def streamDeltaSuffix (previous incoming : List Char) : List Char :=
  if incoming = [] then []
  else if previous = [] then incoming
  else if incoming = previous then []
  else if looksLikeAlternateCumulativeRestart previous incoming = true then []
  else
    match stripCumulativeRestartSuffix previous incoming with
    | some suffix => suffix
    | none =>
      let commonPrefix := commonPrefixLength previous incoming
      if max 16 (min previous.length incoming.length / 2) ≤ commonPrefix then
        incoming.drop commonPrefix
      else
        match afterBlankRestart previous incoming with
        | some suffix => suffix
        | none =>
          let overlap := suffixPrefixOverlapLength previous incoming
          match (if 0 < overlap then stripCumulativeRestartSuffix previous (incoming.drop overlap)
            else none) with
          | some suffix => suffix
          | none =>
            if max 4 (incoming.length / 2) ≤ overlap then incoming.drop overlap else incoming

/-- The fragment is taken for a repetition of what was received: one of the branches that
cut it is entered. -/
def Repeats (previous incoming : List Char) : Prop :=
  previous ≠ [] ∧
    (incoming = previous ∨ looksLikeAlternateCumulativeRestart previous incoming = true ∨
      (stripCumulativeRestartSuffix previous incoming).isSome ∨
      max 16 (min previous.length incoming.length / 2) ≤ commonPrefixLength previous incoming ∨
      (afterBlankRestart previous incoming).isSome ∨
      (0 < suffixPrefixOverlapLength previous incoming ∧ (stripCumulativeRestartSuffix previous
          (incoming.drop (suffixPrefixOverlapLength previous incoming))).isSome) ∨
      max 4 (incoming.length / 2) ≤ suffixPrefixOverlapLength previous incoming)

instance (previous incoming : List Char) : Decidable (Repeats previous incoming) :=
  inferInstanceAs (Decidable (_ ∧ _))

/-! ### What each branch leaves is a proper part of the fragment's end -/

theorem lstripBreaks_suffix (t : List Char) : lstripBreaks t <:+ t := List.dropWhile_suffix _

/-- A shorter end of the fragment. -/
def Cut (s t : List Char) : Prop := s <:+ t ∧ s.length < t.length

variable {t candidate : List Char}

theorem Cut.of_suffix {s u : List Char} (h : Cut s t) (htu : t <:+ u) : Cut s u :=
  ⟨h.1.trans htu, lt_of_lt_of_le h.2 htu.length_le⟩

theorem cut_drop {n : Nat} (hn : 0 < n) (ht : t ≠ []) : Cut (t.drop n) t := by
  refine ⟨List.drop_suffix n t, ?_⟩
  have hlen := List.length_pos_of_ne_nil ht
  rw [List.length_drop]
  omega

variable {previous suffix incoming : List Char} {pieces : List (List Char)}

theorem prefix_ne_nil (hp : previous ≠ []) (h : previous <+: t) : t ≠ [] := by
  rintro rfl
  exact hp (List.prefix_nil.mp h)

theorem stripRestart_cut (hp : previous ≠ []) {fuel : Nat}
    (h : stripRestart previous fuel candidate = some suffix) :
    Cut suffix candidate := by
  induction fuel generalizing candidate with
  | zero => cases h
  | succ fuel ih =>
    have htrim := lstripBreaks_suffix candidate
    unfold stripRestart at h
    split at h
    · cases h
    · simp only at h
      split at h
      · rename_i hprefix
        have hdrop := cut_drop (List.length_pos_of_ne_nil hp) (prefix_ne_nil hp hprefix)
        split at h
        · have hcut := ih h
          exact (hcut.of_suffix (lstripBreaks_suffix _)).of_suffix (hdrop.1.trans htrim)
        · cases h
          exact hdrop.of_suffix htrim
      · split at h
        · exact (ih h).of_suffix htrim
        · cases h

/-- The loop ends by itself: with the fragment's length for fuel, none is missed. -/
theorem stripRestart_fuel (hp : previous ≠ []) {fuel : Nat} (hfuel : candidate.length < fuel)
    (more : Nat) :
    stripRestart previous (fuel + more) candidate = stripRestart previous fuel candidate := by
  induction fuel generalizing candidate with
  | zero => omega
  | succ fuel ih =>
    rw [Nat.add_right_comm]
    unfold stripRestart
    by_cases hc : candidate = []
    · rw [if_pos hc, if_pos hc]
    · rw [if_neg hc, if_neg hc]
      simp only
      have htrim := lstripBreaks_suffix candidate
      by_cases hprefix : previous <+: lstripBreaks candidate
      · rw [if_pos hprefix, if_pos hprefix]
        split
        · have hdrop := cut_drop (List.length_pos_of_ne_nil hp) (prefix_ne_nil hp hprefix)
          refine ih ?_
          have hle := (lstripBreaks_suffix ((lstripBreaks candidate).drop previous.length)).length_le
          have hlt := hdrop.2
          have hle' := htrim.length_le
          omega
        · rfl
      · rw [if_neg hprefix, if_neg hprefix]
        by_cases hne : lstripBreaks candidate ≠ candidate
        · rw [if_pos hne, if_pos hne]
          refine ih ?_
          have hlt : (lstripBreaks candidate).length < candidate.length :=
            lt_of_le_of_ne htrim.length_le fun heq => hne (htrim.eq_of_length heq)
          omega
        · rw [if_neg hne, if_neg hne]

theorem stripCumulative_cut (hp : previous ≠ [])
    (h : stripCumulativeRestartSuffix previous incoming = some suffix) : Cut suffix incoming :=
  stripRestart_cut hp h

theorem afterBlankRestart_cut (h : afterBlankRestart previous incoming = some suffix) :
    Cut suffix incoming := by
  unfold afterBlankRestart at h
  split at h
  · rename_i before after hsplit
    split at h
    · rename_i hblank
      cases h
      have heq := rsplitOnce_eq hsplit
      refine ⟨⟨before ++ previous, by rw [heq, List.append_assoc]⟩, ?_⟩
      have hlen := List.length_pos_of_ne_nil hblank.1
      rw [heq, List.length_append, List.length_append]
      omega
    · cases h
  · cases h

/-- **A fragment is kept whole unless it is taken for a repetition, and then it is cut.** -/
theorem streamDeltaSuffix_cases (previous : List Char) (hi : incoming ≠ []) :
    (Repeats previous incoming ∧ Cut (streamDeltaSuffix previous incoming) incoming) ∨
      (¬ Repeats previous incoming ∧ streamDeltaSuffix previous incoming = incoming) := by
  have hnil : Cut [] incoming := ⟨List.nil_suffix, List.length_pos_of_ne_nil hi⟩
  unfold streamDeltaSuffix
  rw [if_neg hi]
  by_cases hp : previous = []
  · rw [if_pos hp]
    exact .inr ⟨fun h => h.1 hp, rfl⟩
  rw [if_neg hp]
  by_cases hsame : incoming = previous
  · rw [if_pos hsame]
    exact .inl ⟨⟨hp, .inl hsame⟩, hnil⟩
  rw [if_neg hsame]
  by_cases halt : looksLikeAlternateCumulativeRestart previous incoming = true
  · rw [if_pos halt]
    exact .inl ⟨⟨hp, .inr (.inl halt)⟩, hnil⟩
  rw [if_neg halt]
  cases hstrip : stripCumulativeRestartSuffix previous incoming with
  | some suffix =>
    have hbranch : (stripCumulativeRestartSuffix previous incoming).isSome = true := by
      rw [hstrip]
      rfl
    exact .inl ⟨⟨hp, .inr (.inr (.inl hbranch))⟩, stripCumulative_cut hp hstrip⟩
  | none =>
  simp only
  by_cases hcommon : max 16 (min previous.length incoming.length / 2) ≤
      commonPrefixLength previous incoming
  · rw [if_pos hcommon]
    exact .inl ⟨⟨hp, .inr (.inr (.inr (.inl hcommon)))⟩, cut_drop (by omega) hi⟩
  rw [if_neg hcommon]
  cases hblank : afterBlankRestart previous incoming with
  | some suffix =>
    have hbranch : (afterBlankRestart previous incoming).isSome = true := by
      rw [hblank]
      rfl
    exact .inl ⟨⟨hp, .inr (.inr (.inr (.inr (.inl hbranch))))⟩, afterBlankRestart_cut hblank⟩
  | none =>
  simp only
  -- the last two branches look at the overlap of the two texts
  generalize hn : suffixPrefixOverlapLength previous incoming = overlap
  by_cases hrestart : 0 < overlap ∧
      (stripCumulativeRestartSuffix previous (incoming.drop overlap)).isSome = true
  · obtain ⟨suffix, hsuffix⟩ := Option.isSome_iff_exists.mp hrestart.2
    rw [if_pos hrestart.1, hsuffix]
    refine .inl ⟨⟨hp, .inr (.inr (.inr (.inr (.inr (.inl ?_)))))⟩,
      (stripCumulative_cut hp hsuffix).of_suffix (List.drop_suffix _ _)⟩
    rw [hn]
    exact hrestart
  have hskip : (if 0 < overlap then stripCumulativeRestartSuffix previous (incoming.drop overlap)
      else none) = none := by
    by_cases hpos : 0 < overlap
    · rw [if_pos hpos]
      by_contra hsome
      exact hrestart ⟨hpos, Option.isSome_iff_ne_none.mpr hsome⟩
    · rw [if_neg hpos]
  rw [hskip]
  simp only
  by_cases hlong : max 4 (incoming.length / 2) ≤ overlap
  · rw [if_pos hlong]
    refine .inl ⟨⟨hp, .inr (.inr (.inr (.inr (.inr (.inr ?_)))))⟩, cut_drop (by omega) hi⟩
    rw [hn]
    exact hlong
  · rw [if_neg hlong]
    refine .inr ⟨?_, rfl⟩
    rintro ⟨-, h | h | h | h | h | h | h⟩
    · exact hsame h
    · exact halt h
    · rw [hstrip] at h
      cases h
    · exact hcommon h
    · rw [hblank] at h
      cases h
    · rw [hn] at h
      exact hrestart h
    · rw [hn] at h
      exact hlong h

/-! ### A text received in fragments -/

/-- The text accumulated from its fragments. -/
def received (pieces : List (List Char)) : List Char :=
  pieces.foldl (fun text piece => text ++ streamDeltaSuffix text piece) []

theorem received_snoc (pieces : List (List Char)) (piece : List Char) :
    received (pieces ++ [piece]) =
      received pieces ++ streamDeltaSuffix (received pieces) piece := by
  unfold received
  rw [List.foldl_append]
  rfl

/-- No fragment is taken for a repetition of the fragments before it. -/
def NoRepeat (pieces : List (List Char)) : Prop :=
  ∀ before piece after, pieces = before ++ piece :: after → ¬ Repeats before.flatten piece

theorem NoRepeat.initial {piece : List Char} (h : NoRepeat (pieces ++ [piece])) :
    NoRepeat pieces := by
  intro before p after heq
  refine h before p (after ++ [piece]) ?_
  rw [heq, List.append_assoc, List.cons_append]

theorem streamDeltaSuffix_length (previous : List Char) (hi : incoming ≠ []) :
    (streamDeltaSuffix previous incoming).length ≤ incoming.length := by
  rcases streamDeltaSuffix_cases previous hi with ⟨-, hcut⟩ | ⟨-, heq⟩
  · exact hcut.1.length_le
  · rw [heq]

theorem received_length (hne : ∀ p ∈ pieces, p ≠ []) :
    (received pieces).length ≤ pieces.flatten.length := by
  induction pieces using List.reverseRecOn with
  | nil => exact Nat.le_refl 0
  | append_singleton pieces piece ih =>
    have hpiece : piece ≠ [] := hne piece (by simp)
    have hinit := ih fun p hp => hne p (List.mem_append_left _ hp)
    have hlast := streamDeltaSuffix_length (received pieces) hpiece
    rw [received_snoc, List.flatten_append, List.length_append, List.length_append,
      List.flatten_singleton]
    omega

/-- **The text is received as sent exactly when no fragment is taken for a repetition.** -/
theorem received_iff (hne : ∀ p ∈ pieces, p ≠ []) :
    received pieces = pieces.flatten ↔ NoRepeat pieces := by
  induction pieces using List.reverseRecOn with
  | nil =>
    constructor
    · intro _ before p after heq
      simp at heq
    · exact fun _ => rfl
  | append_singleton pieces piece ih =>
    have hpiece : piece ≠ [] := hne piece (by simp)
    have hinit : ∀ p ∈ pieces, p ≠ [] := fun p hp => hne p (List.mem_append_left _ hp)
    have hih := ih hinit
    have hlen := received_length hinit
    have hlast := streamDeltaSuffix_length (received pieces) hpiece
    rw [received_snoc, List.flatten_append, List.flatten_singleton]
    constructor
    · intro heq
      -- neither part can have got longer, so both are whole
      have hlens := congrArg List.length heq
      rw [List.length_append, List.length_append] at hlens
      obtain ⟨hfirst, hsecond⟩ := List.append_inj heq (by omega)
      rw [hfirst] at hsecond
      intro before p after hsplit
      rcases List.eq_nil_or_concat after with rfl | ⟨after', q, rfl⟩
      · obtain ⟨rfl, hp⟩ := List.append_inj' hsplit rfl
        obtain rfl : piece = p := by simpa using hp
        rcases streamDeltaSuffix_cases pieces.flatten hpiece with
          ⟨-, hcut⟩ | ⟨hno, -⟩
        · have hlt := hcut.2
          rw [hsecond] at hlt
          omega
        · exact hno
      · rw [List.concat_eq_append, ← List.cons_append, ← List.append_assoc] at hsplit
        obtain ⟨hsplit, -⟩ := List.append_inj' hsplit rfl
        exact hih.mp hfirst before p after' hsplit
    · intro hno
      rw [hih.mpr hno.initial]
      rcases streamDeltaSuffix_cases pieces.flatten hpiece with
        ⟨hrep, -⟩ | ⟨-, hwhole⟩
      · exact absurd hrep (hno pieces piece [] rfl)
      · rw [hwhole]

end AlysisCode.Stream
