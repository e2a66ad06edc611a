/-
Shell patterns with classes and without.

A `[` begins a class if something closes it.  Without a class every character of a pattern is a
token of its own; a class is one token for three characters or more, so a pattern that has one
and no `*` does not match its own text.
-/
import AlysisCode.Library.Glob

namespace Glob

/-- Some `[` of the pattern is closed. -/
def HasClass (p : List Char) : Prop :=
  ∃ before after, p = before ++ '[' :: after ∧ (splitClass after).isSome = true

/-- A character that stands for others, outside of classes. -/
def isWild (c : Char) : Bool := c == '*' || c == '?'

/-! ### Classes -/

/-- The text without a character in front. -/
def skipFront (x : Char) (t : List Char) : List Char := if t.head? = some x then t.tail else t

theorem skipFront_suffix (x : Char) (t : List Char) : skipFront x t <:+ t := by
  unfold skipFront
  split
  · exact List.tail_suffix t
  · exact List.suffix_refl t

variable {p t : List Char}

theorem splitClass_behind {text after : List Char} (h : splitClass t = some (text, after)) :
    ∃ c, (skipFront ']' (skipFront '!' t)).dropWhile (· != ']') = c :: after := by
  unfold splitClass at h
  unfold skipFront
  split_ifs at h ⊢
  all_goals
    dsimp only at h
    split_ifs at h
    split at h
    · rename_i c rest hdrop
      exact ⟨c, (Prod.mk.inj (Option.some.inj h)).2 ▸ hdrop⟩
    · cases h

/-- What follows a class is at least two characters shorter: its `]` and a character in front. -/
theorem splitClass_suffix {text after : List Char} (h : splitClass t = some (text, after)) :
    after <:+ t ∧ after.length + 2 ≤ t.length := by
  obtain ⟨c, hcons⟩ := splitClass_behind h
  have h₁ := skipFront_suffix '!' t
  generalize skipFront '!' t = t₁ at *
  have h₂ := skipFront_suffix ']' t₁
  have hhead : skipFront ']' t₁ = t₁ → t₁.head? ≠ some ']' := by
    intro hsame hhead
    unfold skipFront at hsame
    rw [if_pos hhead] at hsame
    obtain ⟨rest, hrest⟩ := List.head?_eq_some_iff.mp hhead
    rw [hrest] at hsame
    simp at hsame
  generalize skipFront ']' t₁ = t₂ at *
  have hafter : after <:+ t₂ := by
    have hsuffix : t₂.dropWhile (· != ']') <:+ t₂ := List.dropWhile_suffix _
    rw [hcons] at hsuffix
    exact (List.suffix_cons c after).trans hsuffix
  refine ⟨hafter.trans (h₂.trans h₁), ?_⟩
  have hcut : t₂.takeWhile (· != ']') ++ t₂.dropWhile (· != ']') = t₂ :=
    List.takeWhile_append_dropWhile
  have hlength := congrArg List.length hcut
  rw [hcons, List.length_append, List.length_cons] at hlength
  have hle := h₁.length_le
  have hle' := h₂.length_le
  by_cases hshort : t₂.length < t.length
  · omega
  · -- nothing was taken in front, so the first character is no `]`
    have hsame₁ : t₁ = t := h₁.eq_of_length (by omega)
    have hsame₂ : t₂ = t₁ := h₂.eq_of_length (by omega)
    have hhead' := hhead hsame₂
    rw [← hsame₂] at hhead'
    cases hfirst : t₂ with
    | nil =>
      rw [hfirst] at hcons
      cases hcons
    | cons d rest =>
      rw [hfirst] at hhead' hlength
      have hd : (d != ']') = true := by simpa using hhead'
      rw [List.takeWhile_cons, if_pos hd, List.length_cons] at hlength
      rw [hsame₂, hsame₁] at hfirst
      rw [hfirst]
      rw [List.length_cons] at hlength ⊢
      omega

theorem hasClass_cons {c : Char} :
    HasClass (c :: p) ↔ (c = '[' ∧ (splitClass p).isSome = true) ∨ HasClass p := by
  constructor
  · rintro ⟨before, after, h, hclass⟩
    cases before with
    | nil =>
      rw [List.nil_append, List.cons.injEq] at h
      obtain ⟨rfl, rfl⟩ := h
      exact .inl ⟨rfl, hclass⟩
    | cons d before =>
      rw [List.cons_append, List.cons.injEq] at h
      exact .inr ⟨before, after, h.2, hclass⟩
  · rintro (⟨rfl, hclass⟩ | ⟨before, after, rfl, hclass⟩)
    · exact ⟨[], p, rfl, hclass⟩
    · exact ⟨c :: before, after, rfl, hclass⟩

/-! ### Without classes -/

theorem tokensFrom_eq (h : ¬HasClass p) :
    ∀ fuel, p.length ≤ fuel → tokensFrom fuel p = p.map segmentToken := by
  induction p with
  | nil =>
    intro fuel _
    cases fuel <;> rfl
  | cons c p ih =>
    intro fuel hfuel
    rw [hasClass_cons, not_or] at h
    obtain ⟨fuel, rfl⟩ : ∃ n, fuel = n + 1 := ⟨fuel - 1, by simp at hfuel; omega⟩
    have hrest := ih h.2 fuel (by simpa using hfuel)
    rw [tokensFrom, hrest, List.map_cons, segmentToken]
    by_cases hstar : c = '*'
    · rw [if_pos hstar, if_pos hstar]
    · rw [if_neg hstar, if_neg hstar]
      by_cases hone : c = '?'
      · rw [if_pos hone, if_pos hone]
      · rw [if_neg hone, if_neg hone]
        by_cases hopen : c = '['
        · have hclass : splitClass p = none := by
            by_contra hsome
            exact h.1 ⟨hopen, Option.isSome_iff_ne_none.mpr hsome⟩
          rw [if_pos hopen, hclass, hopen]
        · rw [if_neg hopen]

/-- Without a class every character is a token. -/
theorem tokens_eq (h : ¬HasClass p) : tokens p = p.map segmentToken :=
  tokensFrom_eq h _ (Nat.le_refl _)

/-- A pattern without a class matches its own text. -/
theorem fnmatchcase_self (h : ¬HasClass p) : fnmatchcase p p = true := by
  unfold fnmatchcase
  rw [tokens_eq h]
  clear h
  induction p with
  | nil => rfl
  | cons c p ih =>
    rw [List.map_cons, segmentToken]
    by_cases hstar : c = '*'
    · rw [if_pos hstar, matchesTokens, skipWhile_iff]
      exact ⟨[c], p, rfl, by simp, ih⟩
    · rw [if_neg hstar]
      by_cases hone : c = '?'
      · rw [if_pos hone]
        exact ih
      · rw [if_neg hone, matchesTokens, ih]
        simp

/-- **A pattern without a class and without `*` or `?` matches its own text and no other.** -/
theorem fnmatchcase_iff_eq (h : ¬HasClass p) (hwild : p.any isWild = false) :
    fnmatchcase t p = true ↔ t = p := by
  unfold fnmatchcase
  rw [tokens_eq h]
  clear h
  induction p generalizing t with
  | nil => exact List.isEmpty_iff
  | cons c p ih =>
    rw [List.any_cons, Bool.or_eq_false_iff] at hwild
    have hc : c ≠ '*' ∧ c ≠ '?' := by simpa [isWild] using hwild.1
    rw [List.map_cons, segmentToken, if_neg hc.1, if_neg hc.2]
    cases t with
    | nil => simp [matchesTokens]
    | cons d t => simp [matchesTokens, ih hwild.2]

/-! ### With classes -/

theorem matchesTokens_length {tokens : List Token} (h : Token.star ∉ tokens) :
    ∀ t, matchesTokens tokens t = true → t.length = tokens.length := by
  induction tokens with
  | nil =>
    intro t ht
    rw [List.isEmpty_iff.mp ht]
    rfl
  | cons token tokens ih =>
    intro t ht
    rw [List.mem_cons, not_or] at h
    cases t with
    | nil => cases token <;> simp [matchesTokens] at ht h
    | cons c t =>
      have hrest : matchesTokens tokens t = true := by
        cases token with
        | star => exact absurd rfl h.1
        | any => exact ht
        | lit d | set negated ranges => exact (Bool.and_eq_true_iff.mp ht).2
      rw [List.length_cons, List.length_cons, ih h.2 t hrest]

/-- Without `*` the tokens have none, and are no more than the characters. -/
theorem tokensFrom_length (fuel : Nat) : ∀ p : List Char, '*' ∉ p → p.length ≤ fuel →
      Token.star ∉ tokensFrom fuel p ∧ (tokensFrom fuel p).length ≤ p.length ∧
        (HasClass p → (tokensFrom fuel p).length < p.length) := by
  induction fuel with
  | zero =>
    intro p _ hfuel
    obtain rfl := List.length_eq_zero_iff.mp (Nat.le_zero.mp hfuel)
    refine ⟨by simp [tokensFrom], Nat.le_refl _, ?_⟩
    rintro ⟨before, after, h, -⟩
    simp at h
  | succ fuel ih =>
    intro p hwild hfuel
    cases p with
    | nil =>
      refine ⟨by simp [tokensFrom], Nat.le_refl _, ?_⟩
      rintro ⟨before, after, h, -⟩
      simp at h
    | cons c p =>
      rw [List.mem_cons, not_or] at hwild
      have hfuel' : p.length ≤ fuel := by simpa using hfuel
      rw [tokensFrom, if_neg (Ne.symm hwild.1), hasClass_cons]
      by_cases hone : c = '?'
      · rw [if_pos hone]
        obtain ⟨hstar, hle, hlt⟩ := ih p hwild.2 hfuel'
        refine ⟨by simpa using hstar, by simpa using hle, ?_⟩
        rintro (⟨hbracket, -⟩ | h)
        · rw [hone] at hbracket
          cases hbracket
        · simpa using hlt h
      rw [if_neg hone]
      by_cases hopen : c = '['
      · rw [if_pos hopen]
        cases hclass : splitClass p with
        | none =>
          obtain ⟨hstar, hle, hlt⟩ := ih p hwild.2 hfuel'
          refine ⟨by simpa using hstar, by simpa using hle, ?_⟩
          rintro (⟨-, hsome⟩ | h)
          · cases hsome
          · simpa using hlt h
        | some found =>
          obtain ⟨text, after⟩ := found
          obtain ⟨hsuffix, hshort⟩ := splitClass_suffix hclass
          have hwild' : '*' ∉ after := fun hd => hwild.2 (hsuffix.subset hd)
          obtain ⟨hstar, hle, -⟩ := ih after hwild' (by omega)
          have htoken : Token.star ≠ classToken text := by
            unfold classToken
            split <;> exact nofun
          refine ⟨?_, ?_, fun _ => ?_⟩
          · rw [List.mem_cons, not_or]
            exact ⟨htoken, hstar⟩
          · simp only [List.length_cons]
            omega
          · simp only [List.length_cons]
            omega
      · rw [if_neg hopen]
        obtain ⟨hstar, hle, hlt⟩ := ih p hwild.2 hfuel'
        refine ⟨by simpa using hstar, by simpa using hle, ?_⟩
        rintro (⟨hbracket, -⟩ | h)
        · exact absurd hbracket hopen
        · simpa using hlt h

/-- Without `*`, what a pattern matches is no longer than it, and shorter if it has a class. -/
theorem fnmatchcase_length (hstar : '*' ∉ p) (h : fnmatchcase t p = true) :
    t.length ≤ p.length ∧ (HasClass p → t.length < p.length) := by
  obtain ⟨hnone, hle, hlt⟩ := tokensFrom_length p.length p hstar (Nat.le_refl _)
  rw [matchesTokens_length hnone t h]
  exact ⟨hle, hlt⟩

/-- **A pattern with a class and without `*` or `?` does not match its own text.** -/
theorem fnmatchcase_self_of_class (h : HasClass p) (hwild : p.any isWild = false) :
    fnmatchcase p p = false := by
  have hstar : '*' ∉ p := by
    intro hmem
    have hnone := List.any_eq_false.mp hwild '*' hmem
    simp [isWild] at hnone
  by_contra hmatch
  rw [Bool.not_eq_false] at hmatch
  exact Nat.lt_irrefl _ ((fnmatchcase_length hstar hmatch).2 h)

theorem HasClass.mem (h : HasClass p) : '[' ∈ p := by
  obtain ⟨before, after, rfl, -⟩ := h
  exact List.mem_append_right before List.mem_cons_self

end Glob
