/-
How the token pattern reads a text.

Whatever the service, a token is a short front, for bearers with a gap behind it, and a run of
characters of one class.  So a token that is cut off is a token still or nothing, a marker
stops it, and no token begins inside another's front.
-/
import AlysisCode.Library.Text
import AlysisCode.Swarm.SecretPatterns

namespace AlysisCode.Swarm

open Substitute Text

/-! ### Characters -/

def letters : List Char := "abcdefghijklmnopqrstuvwxyz".toList

/-- The letters past ASCII that ignoring the case adds. -/
def moreLetters : List Nat := [0x130, 0x131, 0x17F, 0x212A]

variable {c l letter : Char} {n : Nat} {p : Char → Bool} {ps : List (Char → Bool)} {x t : List Char}
  {kind : TokenForm × Char}

theorem eq_ofNat (h : c.toNat = n) : c = Char.ofNat n := by
  rw [← h, Char.ofNat_toNat]

theorem of_caseless {P : Char → Bool} (hletters : ∀ l ∈ letters, (P l && P l.toUpper) = true)
    (hmore : ∀ n ∈ moreLetters, P (Char.ofNat n) = true) (hl : l ∈ letters)
    (h : caseless l c = true) : P c = true := by
  have hboth := Bool.and_eq_true_iff.mp (hletters l hl)
  unfold caseless at h
  simp only [Bool.or_eq_true, Bool.and_eq_true, beq_iff_eq] at h
  rcases h with (((rfl | ⟨-, rfl⟩) | ⟨-, h | h⟩) | ⟨-, h⟩) | ⟨-, h⟩
  · exact hboth.1
  · exact hboth.2
  all_goals exact eq_ofNat h ▸ hmore _ (by decide)

theorem isLetterOrDigit_of_caseless (hl : l ∈ letters) (h : caseless l c = true) :
    isLetterOrDigit c = true :=
  of_caseless (by decide +kernel) (by decide +kernel) hl h

theorem isWordChar_of_caseless (hl : l ∈ letters) (h : caseless l c = true) : isWordChar c = true :=
  of_caseless (by decide +kernel) (by decide +kernel) hl h

theorem isCredential_cases (h : isCredential c = true) :
    c.isAlphanum = true ∨ c ∈ moreLetters.map Char.ofNat ∨ c ∈ "._~+/=-".toList := by
  unfold isCredential isLetterOrDigit at h
  rw [Bool.or_eq_true, Bool.or_eq_true, List.contains_iff_mem, List.contains_iff_mem] at h
  rcases h with (h | h) | h
  · exact .inl h
  · exact .inr (.inl (List.mem_map.mpr ⟨_, h, (eq_ofNat rfl).symm⟩))
  · exact .inr (.inr h)

theorem isCredential_solid (h : isCredential c = true) :
    isSolid c = true ∧ isSpace c = false ∧ c ≠ '"' ∧ c ≠ '\'' ∧ c ≠ ':' := by
  rcases isCredential_cases h with h | h | h
  · have hspace := isSpace_of_isIdentifierChar (c := c) (by unfold isIdentifierChar; rw [h]; rfl)
    have hne : c ≠ ',' ∧ c ≠ ';' ∧ c ≠ '"' ∧ c ≠ '\'' ∧ c ≠ ':' := by
      refine ⟨?_, ?_, ?_, ?_, ?_⟩ <;> rintro rfl <;> revert h <;> decide
    refine ⟨?_, hspace, hne.2.2⟩
    simp [isSolid, hspace, hne.1, hne.2.1]
  · have hmore : ∀ c ∈ moreLetters.map Char.ofNat,
        isSolid c = true ∧ isSpace c = false ∧ c ≠ '"' ∧ c ≠ '\'' ∧ c ≠ ':' := by
      decide +kernel
    exact hmore c h
  · have hsigns : ∀ c ∈ "._~+/=-".toList,
        isSolid c = true ∧ isSpace c = false ∧ c ≠ '"' ∧ c ≠ '\'' ∧ c ≠ ':' := by
      decide +kernel
    exact hsigns c h

theorem isCredential_of_letterOrDigit (h : isLetterOrDigit c = true) : isCredential c = true := by
  rw [isCredential, h]
  rfl

/-! ### Runs -/

theorem run_le (p : Char → Bool) (t : List Char) : run p t ≤ t.length :=
  (List.takeWhile_prefix p).length_le

theorem run_stop (hc : p c = false) (x y : List Char) : run p (x ++ c :: y) = run p x := by
  unfold run
  induction x with
  | nil => rw [List.nil_append, List.takeWhile_cons_of_neg (by simp [hc])]; rfl
  | cons d x ih =>
    rw [List.cons_append, List.takeWhile_cons, List.takeWhile_cons]
    split
    · rw [List.length_cons, List.length_cons, ih]
    · rfl

theorem run_append (p : Char → Bool) (x y : List Char) : run p x ≤ run p (x ++ y) := by
  unfold run
  rw [List.takeWhile_append]
  split
  · rename_i h
    rw [List.length_append, h]
    exact Nat.le_add_right _ _
  · exact Nat.le_refl _

theorem run_take (p : Char → Bool) (t : List Char) (n : Nat) :
    run p (t.take n) = min n (run p t) := by
  unfold run
  induction t generalizing n with
  | nil => simp
  | cons c t ih =>
    cases n with
    | zero => simp
    | succ n =>
      rw [List.take_succ_cons, List.takeWhile_cons, List.takeWhile_cons]
      split
      · rw [List.length_cons, List.length_cons, ih, Nat.succ_min_succ]
      · simp

theorem of_mem_run {p : Char → Bool} {t : List Char} {k : Nat} (h : k < run p t) :
    ∃ c, t[k]? = some c ∧ p c = true := by
  have hk : k < (t.takeWhile p).length := h
  refine ⟨(t.takeWhile p)[k], ?_, ?_⟩
  · rw [(List.takeWhile_prefix p).getElem hk]
    exact List.getElem?_eq_getElem _
  · exact List.all_eq_true.mp List.all_takeWhile _ (List.getElem_mem hk)

/-! ### Fronts -/

theorem starts_stop (hc : ∀ p ∈ ps, p c = false) (x y : List Char) :
    starts ps (x ++ c :: y) = starts ps x := by
  induction ps generalizing x with
  | nil => cases x <;> rfl
  | cons p ps ih =>
    have hrest := ih fun q hq => hc q (List.mem_cons_of_mem p hq)
    cases x with
    | nil =>
      show (p c && starts ps y) = false
      rw [hc p List.mem_cons_self]
      rfl
    | cons d x =>
      show (p d && starts ps (x ++ c :: y)) = (p d && starts ps x)
      rw [hrest]

theorem starts_append (h : starts ps x = true) (y : List Char) : starts ps (x ++ y) = true := by
  induction ps generalizing x with
  | nil => cases x <;> cases y <;> rfl
  | cons p ps ih =>
    cases x with
    | nil => cases h
    | cons d x =>
      have h' := Bool.and_eq_true_iff.mp h
      exact Bool.and_eq_true_iff.mpr ⟨h'.1, ih h'.2⟩

theorem starts_length (h : starts ps t = true) : ps.length ≤ t.length := by
  induction ps generalizing t with
  | nil => exact Nat.zero_le _
  | cons p ps ih =>
    cases t with
    | nil => cases h
    | cons d t => exact Nat.succ_le_succ (ih (Bool.and_eq_true_iff.mp h).2)

theorem starts_take (h : starts ps t = true) (hn : ps.length ≤ n) :
    starts ps (t.take n) = true := by
  induction ps generalizing t n with
  | nil => cases n <;> cases t <;> rfl
  | cons p ps ih =>
    obtain ⟨n, rfl⟩ : ∃ k, n = k + 1 := ⟨n - 1, by simp at hn; omega⟩
    cases t with
    | nil => cases h
    | cons d t =>
      have h' := Bool.and_eq_true_iff.mp h
      exact Bool.and_eq_true_iff.mpr ⟨h'.1, ih h'.2 (Nat.le_of_succ_le_succ hn)⟩

theorem of_starts (h : starts ps t = true) {k : Nat} (hk : ps[k]? = some p) :
    ∃ c, t[k]? = some c ∧ p c = true := by
  induction ps generalizing t k with
  | nil => cases hk
  | cons q ps ih =>
    cases t with
    | nil => cases h
    | cons d t =>
      have h' := Bool.and_eq_true_iff.mp h
      cases k with
      | zero =>
        cases hk
        exact ⟨d, rfl, h'.1⟩
      | succ k => exact ih h'.2 hk

/-! ### What is common to the forms -/

structure TokenForm.Sound (form : TokenForm) (letter : Char) : Prop where
  le : ∀ t, form.lead t ≤ t.length
  first : ∀ t, 0 < form.lead t → ∃ c ∈ t.head?, caseless letter c = true
  stop : ∀ x y, form.lead (x ++ '[' :: y) = form.lead x
  /-- A front before a run is the same whatever follows, and however much is cut off. -/
  more : ∀ x y, 0 < form.lead x → 0 < run form.inRun (x.drop (form.lead x)) →
    form.lead (x ++ y) = form.lead x
  cut : ∀ t n, 0 < form.lead t → form.lead t < n → form.lead (t.take n) = form.lead t
  short : ∀ t n, n ≤ form.lead t → form.lead (t.take n) = 0 ∨ form.lead (t.take n) = n
  /-- Inside a front a word goes on, or a gap follows. -/
  inside : ∀ t n, 0 < n → n < form.lead t →
    (∃ c, t[n - 1]? = some c ∧ isWordChar c = true) ∨ ∃ c, t[n]? = some c ∧ isSpace c = true
  chars : ∀ t n c, n < form.lead t → t[n]? = some c → isCredential c = true ∨ isSpace c = true
  /-- Only bearers have a gap, and it begins behind six letters. -/
  spaces : ∀ t n c, n < form.lead t → t[n]? = some c → isSpace c = true →
    letter = 'b' ∧ (n = 6 ∨ ∃ d, t[n - 1]? = some d ∧ isSpace d = true)
  letters : ∀ c, isLetterOrDigit c = true → form.inRun c = true
  credential : ∀ c, form.inRun c = true → isCredential c = true
  least : 8 ≤ form.least

theorem literal_pos (h : 0 < literal ps t) : starts ps t = true ∧ literal ps t = ps.length := by
  unfold literal at h ⊢
  split
  · rename_i hstarts
    exact ⟨hstarts, rfl⟩
  · rename_i hstarts
    rw [if_neg hstarts] at h
    cases h

theorem literal_of_starts (h : starts ps t = true) : literal ps t = ps.length := if_pos h

theorem of_literal (h : n < literal ps t) :
    ∃ p, ps[n]? = some p ∧ ∃ c, t[n]? = some c ∧ p c = true := by
  obtain ⟨hstarts, hlength⟩ := literal_pos (Nat.zero_lt_of_lt h)
  rw [hlength] at h
  have hp : ps[n]? = some ps[n] := List.getElem?_eq_getElem h
  exact ⟨_, hp, of_starts hstarts hp⟩

theorem literal_le (ps : List (Char → Bool)) (t : List Char) : literal ps t ≤ t.length := by
  unfold literal
  split
  · exact starts_length (by assumption)
  · exact Nat.zero_le _

theorem literal_take (h : 0 < literal ps t) :
    literal ps (t.take n) = if ps.length ≤ n then ps.length else 0 := by
  obtain ⟨hstarts, -⟩ := literal_pos h
  split
  · exact literal_of_starts (starts_take hstarts (by assumption))
  · refine if_neg fun h => ?_
    have hle := starts_length h
    rw [List.length_take] at hle
    omega

/-- What is asked of the classes of a front without a gap. -/
structure PlainFront (ps : List (Char → Bool)) (letter : Char) : Prop where
  first : ps.head? = some (caseless letter)
  stop : ∀ p ∈ ps, p '[' = false
  inside : ∀ p ∈ ps.dropLast, ∀ c, p c = true → isWordChar c = true
  chars : ∀ p ∈ ps, ∀ c, p c = true → isCredential c = true

theorem PlainFront.first_char (h : PlainFront ps letter) (ht : 0 < literal ps t) :
    ∃ c ∈ t.head?, caseless letter c = true := by
  obtain ⟨p, hp, c, hc, hpc⟩ := of_literal ht
  rw [← List.head?_eq_getElem?] at hp hc
  rw [h.first, Option.some.injEq] at hp
  exact ⟨c, hc, hp ▸ hpc⟩

theorem PlainFront.literal_stop (h : PlainFront ps letter) (x y : List Char) :
    literal ps (x ++ '[' :: y) = literal ps x := by
  unfold literal
  rw [starts_stop h.stop]

theorem literal_append (h : 0 < literal ps x) (y : List Char) :
    literal ps (x ++ y) = literal ps x := by
  obtain ⟨hstarts, hlength⟩ := literal_pos h
  rw [hlength, literal_of_starts (starts_append hstarts y)]

theorem PlainFront.word_before (h : PlainFront ps letter) (hn : n + 1 < literal ps t) :
    ∃ c, t[n]? = some c ∧ isWordChar c = true := by
  obtain ⟨p, hp, c, hc, hpc⟩ := of_literal (Nat.lt_of_succ_lt hn)
  refine ⟨c, hc, h.inside p ?_ c hpc⟩
  obtain ⟨-, hlength⟩ := literal_pos (Nat.zero_lt_of_lt hn)
  rw [List.dropLast_eq_take, List.mem_take_iff_getElem]
  obtain ⟨hlt, hget⟩ := List.getElem?_eq_some_iff.mp hp
  exact ⟨n, by omega, hget⟩

theorem PlainFront.sound (h : PlainFront ps letter) {inRun : Char → Bool} {least : Nat}
    (hletters : ∀ c, isLetterOrDigit c = true → inRun c = true)
    (hcredential : ∀ c, inRun c = true → isCredential c = true) (hleast : 8 ≤ least) :
    TokenForm.Sound { lead := literal ps, inRun := inRun, least := least } letter where
  le t := literal_le ps t
  first t ht := h.first_char ht
  stop := h.literal_stop
  more x y hx _ := literal_append hx y
  cut t n ht hn := by
    dsimp only at ht hn ⊢
    rw [(literal_pos ht).2] at hn ⊢
    rw [literal_take ht, if_pos (Nat.le_of_lt hn)]
  short t n hn := by
    dsimp only at hn ⊢
    by_cases ht : 0 < literal ps t
    · rw [literal_take ht]
      rw [(literal_pos ht).2] at hn
      split
      · exact .inr (Nat.le_antisymm (by assumption) hn)
      · exact .inl rfl
    · right
      have hn0 : n = 0 := by omega
      rw [hn0, List.take_zero]
      exact Nat.le_zero.mp (literal_le ps [])
  inside t n hpos hn := by
    obtain ⟨k, rfl⟩ : ∃ k, n = k + 1 := ⟨n - 1, by omega⟩
    exact .inl (h.word_before hn)
  chars t n c hn hc := by
    obtain ⟨p, hp, d, hd, hpd⟩ := of_literal hn
    rw [hc, Option.some.injEq] at hd
    exact .inl (h.chars p (List.mem_of_getElem? hp) c (hd ▸ hpd))
  spaces t n c hn hc hspace := by
    obtain ⟨p, hp, d, hd, hpd⟩ := of_literal hn
    rw [hc, Option.some.injEq] at hd
    have hcred := h.chars p (List.mem_of_getElem? hp) c (hd ▸ hpd)
    rw [(isCredential_solid hcred).2.1] at hspace
    cases hspace
  letters := hletters
  credential := hcredential
  least := hleast

variable {lengths : List Nat} {s : String}

theorem word_class (hs : ∀ l ∈ s.toList, l ∈ letters ∨ l = '-' ∨ l = '_') (hp : p ∈ word s)
    (hc : p c = true) : isCredential c = true := by
  obtain ⟨l, hl, rfl⟩ := List.mem_map.mp hp
  rcases hs l hl with h | rfl | rfl
  · exact isCredential_of_letterOrDigit (isLetterOrDigit_of_caseless h hc)
  · obtain rfl : c = '-' := by simpa [caseless] using hc
    decide
  · obtain rfl : c = '_' := by simpa [caseless] using hc
    decide

theorem word_isWordChar (hs : ∀ l ∈ s.toList, l ∈ letters) (hp : p ∈ word s) (hc : p c = true) :
    isWordChar c = true := by
  obtain ⟨l, hl, rfl⟩ := List.mem_map.mp hp
  exact isWordChar_of_caseless (hs l hl) hc

theorem anyOf_class (hs : ∀ l ∈ s.toList, l ∈ letters) (hc : anyOf s c = true) :
    isCredential c = true ∧ isWordChar c = true := by
  obtain ⟨l, hl, h⟩ := List.any_eq_true.mp hc
  exact ⟨isCredential_of_letterOrDigit (isLetterOrDigit_of_caseless (hs l hl) h),
    isWordChar_of_caseless (hs l hl) h⟩

/-! ### Bearers -/

theorem bearerLead_pos (h : 0 < bearerLead t) :
    starts (word "bearer") t = true ∧ 0 < run isSpace (t.drop 6) ∧
      bearerLead t = 6 + run isSpace (t.drop 6) := by
  unfold bearerLead at h ⊢
  by_cases hstarts : starts (word "bearer") t = true
  · rw [literal_of_starts hstarts] at h ⊢
    change 0 < (if run isSpace (t.drop 6) = 0 then 0 else 6 + run isSpace (t.drop 6)) at h
    change _ ∧ _ ∧ (if run isSpace (t.drop 6) = 0 then 0 else 6 + run isSpace (t.drop 6)) = _
    split at h
    · cases h
    · rename_i hgap
      exact ⟨hstarts, Nat.pos_of_ne_zero hgap, if_neg hgap⟩
  · have hnone : literal (word "bearer") t = 0 := if_neg hstarts
    rw [hnone] at h
    cases h

theorem bearerLead_of (hstarts : starts (word "bearer") t = true)
    (hgap : 0 < run isSpace (t.drop 6)) : bearerLead t = 6 + run isSpace (t.drop 6) := by
  unfold bearerLead
  rw [literal_of_starts hstarts]
  exact if_neg (Nat.ne_of_gt hgap)

theorem bearerLead_none (h : ¬(starts (word "bearer") t = true ∧ 0 < run isSpace (t.drop 6))) :
    bearerLead t = 0 := by
  by_contra hpos
  have hlead := bearerLead_pos (Nat.pos_of_ne_zero hpos)
  exact h ⟨hlead.1, hlead.2.1⟩

theorem bearerWord_front : PlainFront (word "bearer") 'b' where
  first := rfl
  stop := by decide
  inside p hp c hc := word_isWordChar (s := "bearer") (by decide) (List.dropLast_subset _ hp) hc
  chars p hp c hc := word_class (by decide) hp hc

theorem bearer_length (h : starts (word "bearer") t = true) : 6 ≤ t.length :=
  starts_length h

theorem bearer_word (h : starts (word "bearer") t = true) (hn : n < 6) :
    ∃ c, t[n]? = some c ∧ isWordChar c = true ∧ isCredential c = true := by
  have hlength : (word "bearer").length = 6 := rfl
  have hp : (word "bearer")[n]? = some (word "bearer")[n] := List.getElem?_eq_getElem (by omega)
  obtain ⟨c, hc, hpc⟩ := of_starts h hp
  have hmem := List.mem_of_getElem? hp
  exact ⟨c, hc, word_isWordChar (by decide) hmem hpc, word_class (by decide) hmem hpc⟩

theorem bearer_gap {t : List Char} {n : Nat} (h : 6 ≤ n) (hn : n < 6 + run isSpace (t.drop 6)) :
    ∃ c, t[n]? = some c ∧ isSpace c = true := by
  obtain ⟨c, hc, hspace⟩ := @of_mem_run isSpace (t.drop 6) (n - 6) (by omega)
  rw [List.getElem?_drop, Nat.add_sub_cancel' h] at hc
  exact ⟨c, hc, hspace⟩

theorem bearerLead_stop (x y : List Char) : bearerLead (x ++ '[' :: y) = bearerLead x := by
  by_cases h : starts (word "bearer") x = true
  · have hdrop : (x ++ '[' :: y).drop 6 = x.drop 6 ++ '[' :: y :=
      List.drop_append_of_le_length (bearer_length h)
    unfold bearerLead
    rw [bearerWord_front.literal_stop, literal_of_starts h]
    change (if run isSpace ((x ++ '[' :: y).drop 6) = 0 then 0 else
      6 + run isSpace ((x ++ '[' :: y).drop 6)) = if run isSpace (x.drop 6) = 0 then 0 else
        6 + run isSpace (x.drop 6)
    rw [hdrop, run_stop (by decide)]
  · rw [bearerLead_none fun h' => h h'.1, bearerLead_none fun h' => h ?_]
    rw [← starts_stop bearerWord_front.stop x y]
    exact h'.1

theorem run_append_of_rest (h : run p x < x.length) (y : List Char) : run p (x ++ y) = run p x := by
  unfold run at h ⊢
  rw [List.takeWhile_append, if_neg (by omega)]

theorem bearerLead_append (h : 0 < bearerLead x) (hrest : bearerLead x < x.length) (y : List Char) :
    bearerLead (x ++ y) = bearerLead x := by
  obtain ⟨hstarts, hgap, hlead⟩ := bearerLead_pos h
  have hdrop : (x ++ y).drop 6 = x.drop 6 ++ y :=
    List.drop_append_of_le_length (bearer_length hstarts)
  have hsame : run isSpace ((x ++ y).drop 6) = run isSpace (x.drop 6) := by
    rw [hdrop, run_append_of_rest]
    rw [List.length_drop]
    omega
  rw [bearerLead_of (starts_append hstarts y) (by omega), hsame, hlead]

theorem bearerLead_take (h : 0 < bearerLead t) (n : Nat) :
    bearerLead (t.take n) = if 6 < n then min n (bearerLead t) else 0 := by
  obtain ⟨hstarts, hgap, hlead⟩ := bearerLead_pos h
  have hdrop : (t.take n).drop 6 = (t.drop 6).take (n - 6) := List.drop_take ..
  split
  · have hrun : run isSpace ((t.take n).drop 6) = min (n - 6) (run isSpace (t.drop 6)) := by
      rw [hdrop, run_take]
    rw [bearerLead_of (starts_take hstarts (by show 6 ≤ n; omega)) (by omega), hrun, hlead]
    omega
  · refine bearerLead_none fun ⟨_, _⟩ => ?_
    have hrun : run isSpace ((t.take n).drop 6) = min (n - 6) (run isSpace (t.drop 6)) := by
      rw [hdrop, run_take]
    omega

theorem bearerToken_sound : bearerToken.Sound 'b' where
  le t := by
    show bearerLead t ≤ t.length
    by_cases h : 0 < bearerLead t
    · obtain ⟨hstarts, -, hlead⟩ := bearerLead_pos h
      have hrun := run_le isSpace (t.drop 6)
      have hlength := bearer_length hstarts
      rw [List.length_drop] at hrun
      omega
    · omega
  first t ht := by
    have hstarts := (bearerLead_pos ht).1
    refine bearerWord_front.first_char ?_
    rw [literal_of_starts hstarts]
    decide
  stop := bearerLead_stop
  more x y hx hrun := by
    refine bearerLead_append hx ?_ y
    have hle := run_le bearerToken.inRun (x.drop (bearerToken.lead x))
    rw [List.length_drop] at hle
    change bearerLead x < x.length
    change _ ≤ x.length - bearerLead x at hle
    change 0 < run bearerToken.inRun (x.drop (bearerLead x)) at hrun
    change run bearerToken.inRun (x.drop (bearerLead x)) ≤ _ at hle
    omega
  cut t n ht hn := by
    change bearerLead t < n at hn
    change 0 < bearerLead t at ht
    show bearerLead (t.take n) = bearerLead t
    have hlead := (bearerLead_pos ht).2.2
    rw [bearerLead_take ht, if_pos (by omega)]
    omega
  short t n hn := by
    change n ≤ bearerLead t at hn
    show bearerLead (t.take n) = 0 ∨ bearerLead (t.take n) = n
    by_cases ht : 0 < bearerLead t
    · rw [bearerLead_take ht]
      split
      · exact .inr (Nat.min_eq_left hn)
      · exact .inl rfl
    · obtain rfl : n = 0 := by omega
      exact .inl (by rw [List.take_zero]; rfl)
  inside t n hpos hn := by
    change n < bearerLead t at hn
    obtain ⟨hstarts, -, hlead⟩ := bearerLead_pos (Nat.zero_lt_of_lt hn)
    by_cases hgap : 6 ≤ n
    · exact .inr (bearer_gap hgap (hlead ▸ hn))
    · obtain ⟨c, hc, hword, -⟩ := bearer_word hstarts (n := n - 1) (by omega)
      exact .inl ⟨c, hc, hword⟩
  chars t n c hn hc := by
    change n < bearerLead t at hn
    obtain ⟨hstarts, -, hlead⟩ := bearerLead_pos (Nat.zero_lt_of_lt hn)
    by_cases hgap : 6 ≤ n
    · obtain ⟨d, hd, hspace⟩ := bearer_gap hgap (hlead ▸ hn)
      rw [hc, Option.some.injEq] at hd
      exact .inr (hd ▸ hspace)
    · obtain ⟨d, hd, -, hcred⟩ := bearer_word hstarts (n := n) (by omega)
      rw [hc, Option.some.injEq] at hd
      exact .inl (hd ▸ hcred)
  spaces t n c hn hc hspace := by
    change n < bearerLead t at hn
    obtain ⟨hstarts, -, hlead⟩ := bearerLead_pos (Nat.zero_lt_of_lt hn)
    refine ⟨rfl, ?_⟩
    by_cases hgap : 6 < n
    · exact .inr (bearer_gap (n := n - 1) (by omega) (by omega))
    · by_cases hsix : n = 6
      · exact .inl hsix
      · obtain ⟨d, hd, -, hcred⟩ := bearer_word hstarts (n := n) (by omega)
        rw [hc, Option.some.injEq] at hd
        rw [hd, (isCredential_solid hcred).2.1] at hspace
        cases hspace
  letters _ h := isCredential_of_letterOrDigit h
  credential _ h := h
  least := Nat.le_refl 8

theorem apiKey_sound : apiKey.Sound 's' := by
  have hfront : PlainFront (word "sk-") 's' := {
    first := rfl
    stop := by decide
    inside := fun p hp c hc => word_isWordChar (s := "sk") (by decide) hp hc
    chars := fun p hp c hc => word_class (s := "sk-") (by decide) hp hc }
  refine hfront.sound (fun c h => by rw [h]; rfl) (fun c h => ?_) (Nat.le_refl 8)
  simp only [Bool.or_eq_true, beq_iff_eq] at h
  rcases h with (h | rfl) | rfl
  · exact isCredential_of_letterOrDigit h
  · decide
  · decide

/-- A word, a letter out of some and a mark are plain. -/
theorem plainFront_marked {s set : String} {mark letter : Char}
    (hfirst : (word s ++ [anyOf set, (· == mark)]).head? = some (caseless letter))
    (hstop : ∀ p ∈ word s ++ [anyOf set, (· == mark)], p '[' = false)
    (hs : ∀ l ∈ s.toList, l ∈ letters) (hset : ∀ l ∈ set.toList, l ∈ letters)
    (hmark : isCredential mark = true) :
    PlainFront (word s ++ [anyOf set, (· == mark)]) letter where
  first := hfirst
  stop := hstop
  inside := by
    intro p hp c hc
    rw [List.append_cons, List.dropLast_concat] at hp
    rcases List.mem_append.mp hp with hp | hp
    · exact word_isWordChar hs hp hc
    · obtain rfl := List.mem_singleton.mp hp
      exact (anyOf_class hset hc).2
  chars := by
    intro p hp c hc
    rcases List.mem_append.mp hp with hp | hp
    · exact word_class (fun l hl => .inl (hs l hl)) hp hc
    · rcases List.mem_cons.mp hp with rfl | hp
      · exact (anyOf_class hset hc).1
      · obtain rfl := List.mem_singleton.mp hp
        rwa [eq_of_beq hc]

theorem githubToken_sound : githubToken.Sound 'g' := by
  have hfront : PlainFront (word "gh" ++ [anyOf "opusr", (· == '_')]) 'g' :=
    plainFront_marked rfl (by decide) (by decide) (by decide) (by decide)
  exact hfront.sound (fun c h => h) (fun c h => isCredential_of_letterOrDigit h) (by decide)

theorem slackToken_sound : slackToken.Sound 'x' := by
  have hfront : PlainFront (word "xox" ++ [anyOf "baprs", (· == '-')]) 'x' :=
    plainFront_marked rfl (by decide) (by decide) (by decide) (by decide)
  refine hfront.sound (fun c h => by rw [h]; rfl) (fun c h => ?_) (Nat.le_refl 8)
  simp only [Bool.or_eq_true, beq_iff_eq] at h
  rcases h with h | rfl
  · exact isCredential_of_letterOrDigit h
  · decide

/-! ### Tokens of a form -/

namespace TokenForm.Sound

variable {form : TokenForm} {letter : Char}

variable {t : List Char}

theorem take_pos (h : 0 < form.take t) :
    0 < form.lead t ∧ form.least ≤ run form.inRun (t.drop (form.lead t)) ∧
      form.take t = form.lead t + run form.inRun (t.drop (form.lead t)) := by
  unfold TokenForm.take takeRun at h ⊢
  cases hlead : form.lead t with
  | zero => rw [hlead] at h; cases h
  | succ n =>
    rw [hlead] at h
    dsimp only at h ⊢
    split at h
    · rename_i hleast
      exact ⟨Nat.succ_pos n, hleast, if_pos hleast⟩
    · cases h

theorem take_of (hlead : 0 < form.lead t)
    (hleast : form.least ≤ run form.inRun (t.drop (form.lead t))) :
    form.take t = form.lead t + run form.inRun (t.drop (form.lead t)) := by
  unfold TokenForm.take takeRun
  obtain ⟨n, hn⟩ := Nat.exists_eq_succ_of_ne_zero (Nat.ne_of_gt hlead)
  rw [hn] at hleast ⊢
  exact if_pos hleast

theorem take_none (h : ¬(0 < form.lead t ∧ form.least ≤ run form.inRun (t.drop (form.lead t)))) :
    form.take t = 0 := by
  by_contra hne
  obtain ⟨hlead, hleast, -⟩ := take_pos (Nat.pos_of_ne_zero hne)
  exact h ⟨hlead, hleast⟩

theorem take_le (h : form.Sound letter) (t : List Char) : form.take t ≤ t.length := by
  by_cases hpos : 0 < form.take t
  · obtain ⟨-, -, htake⟩ := take_pos hpos
    have hrun := run_le form.inRun (t.drop (form.lead t))
    have hlead := h.le t
    rw [List.length_drop] at hrun
    omega
  · omega

theorem take_stop (h : form.Sound letter) (x y : List Char) :
    form.take (x ++ '[' :: y) = form.take x := by
  have hin : form.inRun '[' = false := by
    by_contra hne
    have hcred := h.credential '[' (by simpa using hne)
    exact absurd hcred (by decide)
  have hrun : run form.inRun ((x ++ '[' :: y).drop (form.lead x)) =
      run form.inRun (x.drop (form.lead x)) := by
    rw [List.drop_append_of_le_length (h.le x), run_stop hin]
  unfold TokenForm.take takeRun
  rw [h.stop]
  cases hlead : form.lead x with
  | zero => rfl
  | succ n =>
    dsimp only
    rw [hlead] at hrun
    rw [hrun]

theorem take_append (h : form.Sound letter) {x : List Char} (hx : 0 < form.take x)
    (y : List Char) : 0 < form.take (x ++ y) := by
  obtain ⟨hlead, hleast, -⟩ := take_pos hx
  have hmin := h.least
  have hmore := h.more x y hlead (by omega)
  have hrun := run_append form.inRun (x.drop (form.lead x)) y
  rw [← List.drop_append_of_le_length (h.le x)] at hrun
  rw [take_of (by omega) (by rw [hmore]; omega)]
  omega

theorem take_take (h : form.Sound letter) {n : Nat} (hn : n < form.take t) :
    form.take (t.take n) = if form.lead t + form.least ≤ n then n else 0 := by
  obtain ⟨hlead, -, htake⟩ := take_pos (Nat.zero_lt_of_lt hn)
  have hmin := h.least
  by_cases hcut : form.lead t < n
  · have hsame := h.cut t n hlead hcut
    have hrun : run form.inRun ((t.take n).drop (form.lead (t.take n))) = n - form.lead t := by
      rw [hsame, List.drop_take, run_take]
      omega
    split
    · rw [take_of (by omega) (by omega), hrun, hsame]
      omega
    · exact take_none fun ⟨_, _⟩ => by omega
  · rw [if_neg (by omega)]
    refine take_none fun ⟨_, _⟩ => ?_
    have hrun := run_le form.inRun ((t.take n).drop (form.lead (t.take n)))
    rw [List.length_drop, List.length_take] at hrun
    rcases h.short t n (by omega) with hshort | hshort <;> omega

theorem take_char (h : form.Sound letter) {n : Nat} {c : Char} (hn : n < form.take t)
    (hc : t[n]? = some c) :
    (n < form.lead t ∧ (isCredential c = true ∨ isSpace c = true)) ∨
      (form.lead t ≤ n ∧ form.inRun c = true) := by
  obtain ⟨-, -, htake⟩ := take_pos (Nat.zero_lt_of_lt hn)
  by_cases hlead : n < form.lead t
  · exact .inl ⟨hlead, h.chars t n c hlead hc⟩
  · obtain ⟨d, hd, hin⟩ := @of_mem_run form.inRun (t.drop (form.lead t)) (n - form.lead t) (by omega)
    rw [List.getElem?_drop, Nat.add_sub_cancel' (by omega), hc, Option.some.injEq] at hd
    exact .inr ⟨by omega, hd ▸ hin⟩

theorem after_take {c : Char} (hpos : 0 < form.take t) (hc : t[form.take t]? = some c) :
    form.inRun c = false := by
  obtain ⟨-, -, htake⟩ := take_pos hpos
  have hdrop : (t.drop (form.lead t))[run form.inRun (t.drop (form.lead t))]? = some c := by
    rw [List.getElem?_drop, ← htake, hc]
  have hsplit := List.takeWhile_append_dropWhile (p := form.inRun) (l := t.drop (form.lead t))
  rw [← hsplit, List.getElem?_append_right (by rw [hsplit]; exact Nat.le_refl _), hsplit] at hdrop
  have hzero : run form.inRun (t.drop (form.lead t)) -
      ((t.drop (form.lead t)).takeWhile form.inRun).length = 0 := Nat.sub_self _
  rw [hzero, ← List.head?_eq_getElem?] at hdrop
  exact head_dropWhile _ c hdrop

end TokenForm.Sound

/-! ### The pattern -/

/-- The letters that tokens begin with, in the order of the forms. -/
def tokenLetters : List Char := ['s', 'g', 'x', 'b']

def tokenKinds : List (TokenForm × Char) := tokenForms.zip tokenLetters

theorem tokenKinds_eq :
    tokenKinds = [(apiKey, 's'), (githubToken, 'g'), (slackToken, 'x'), (bearerToken, 'b')] :=
  rfl

theorem tokenKinds_sound (h : kind ∈ tokenKinds) : kind.1.Sound kind.2 := by
  simp only [tokenKinds_eq, List.mem_cons, List.not_mem_nil, or_false] at h
  rcases h with rfl | rfl | rfl | rfl
  · exact apiKey_sound
  · exact githubToken_sound
  · exact slackToken_sound
  · exact bearerToken_sound

theorem caseless_variants (h : caseless l c = true) :
    c ∈ [l, l.toUpper] ++ (moreLetters.map Char.ofNat).filter (caseless l ·) := by
  have hmatch := h
  unfold caseless at h
  simp only [Bool.or_eq_true, Bool.and_eq_true, beq_iff_eq] at h
  have hmore {n : Nat} (hn : n ∈ moreLetters) (hc : c.toNat = n) :
      c ∈ [l, l.toUpper] ++ (moreLetters.map Char.ofNat).filter (caseless l ·) := by
    refine List.mem_append_right _ (List.mem_filter.mpr ⟨?_, hmatch⟩)
    exact List.mem_map.mpr ⟨n, hn, (eq_ofNat hc).symm⟩
  rcases h with (((rfl | ⟨-, rfl⟩) | ⟨-, h | h⟩) | ⟨-, h⟩) | ⟨-, h⟩
  · simp
  · simp
  all_goals exact hmore (by decide) h

theorem letters_distinct {l' : Char} (hl : l ∈ letters) (hl' : l' ∈ letters)
    (h : caseless l c = true) (h' : caseless l' c = true) : l = l' := by
  have hall : ∀ l ∈ letters, ∀ l' ∈ letters,
      ∀ c ∈ [l, l.toUpper] ++ (moreLetters.map Char.ofNat).filter (caseless l ·),
        caseless l' c = true → l = l' := by decide +kernel
  exact hall l hl l' hl' c (caseless_variants h) h'

theorem tokenLetters_letters : ∀ l ∈ tokenLetters, l ∈ letters := by decide

theorem firstOf_pos (h : 0 < firstOf lengths) : firstOf lengths ∈ lengths := by
  unfold firstOf at h ⊢
  cases hfind : lengths.find? (0 < ·) with
  | none => rw [hfind] at h; cases h
  | some n => exact List.mem_of_find?_eq_some hfind

theorem firstOf_eq_zero : firstOf lengths = 0 ↔ ∀ n ∈ lengths, n = 0 := by
  unfold firstOf
  constructor
  · intro h n hn
    by_contra hne
    have hsome : (lengths.find? (0 < ·)).isSome = true := by
      rw [List.find?_isSome]
      exact ⟨n, hn, by simpa using Nat.pos_of_ne_zero hne⟩
    obtain ⟨k, hk⟩ := Option.isSome_iff_exists.mp hsome
    have hpos := List.find?_some hk
    rw [hk] at h
    simp only [Option.getD_some] at h
    simp [h] at hpos
  · intro h
    have hnone : lengths.find? (0 < ·) = none := by
      rw [List.find?_eq_none]
      intro n hn
      simp [h n hn]
    rw [hnone]
    rfl

theorem takeToken_eq_zero : takeToken t = 0 ↔ ∀ kind ∈ tokenKinds, kind.1.take t = 0 := by
  have hforms : tokenForms.map (·.take t) = tokenKinds.map (·.1.take t) := rfl
  unfold takeToken
  rw [hforms, firstOf_eq_zero, List.forall_mem_map]

theorem takeToken_kind (h : 0 < takeToken t) :
    ∃ kind ∈ tokenKinds, kind.1.Sound kind.2 ∧ takeToken t = kind.1.take t := by
  have hforms : tokenForms.map (·.take t) = tokenKinds.map (·.1.take t) := rfl
  have hmem := firstOf_pos h
  rw [hforms] at hmem
  obtain ⟨kind, hkind, htake⟩ := List.mem_map.mp hmem
  exact ⟨kind, hkind, tokenKinds_sound hkind, htake.symm⟩

theorem tokenKinds_letter {kind' : TokenForm × Char} (h : kind ∈ tokenKinds)
    (h' : kind' ∈ tokenKinds) (hletter : kind.2 = kind'.2) : kind = kind' := by
  simp only [tokenKinds_eq, List.mem_cons, List.not_mem_nil, or_false] at h h'
  rcases h with rfl | rfl | rfl | rfl <;> rcases h' with rfl | rfl | rfl | rfl <;>
    first | rfl | exact absurd hletter (by decide)

theorem takeToken_of_head {kind : TokenForm × Char} (hkind : kind ∈ tokenKinds) {t : List Char}
    (hhead : ∃ c ∈ t.head?, caseless kind.2 c = true) : takeToken t = kind.1.take t := by
  by_cases h : 0 < takeToken t
  · obtain ⟨kind', hkind', hsound, htake⟩ := takeToken_kind h
    obtain ⟨c, hc, hmatch⟩ := hhead
    obtain ⟨c', hc', hmatch'⟩ := hsound.first t (TokenForm.Sound.take_pos (htake ▸ h)).1
    obtain rfl : c = c' := Option.some.inj (hc.symm.trans hc')
    have hletter : kind.2 = kind'.2 :=
      letters_distinct (tokenLetters_letters _ (List.of_mem_zip hkind).2)
        (tokenLetters_letters _ (List.of_mem_zip hkind').2) hmatch hmatch'
    rw [tokenKinds_letter hkind hkind' hletter, htake]
  · have hzero : takeToken t = 0 := by omega
    rw [hzero, takeToken_eq_zero.mp hzero kind hkind]

theorem takeToken_head (h : 0 < takeToken t) :
    ∃ l ∈ tokenLetters, ∃ c ∈ t.head?, caseless l c = true := by
  obtain ⟨kind, hkind, hsound, htake⟩ := takeToken_kind h
  exact ⟨kind.2, (List.of_mem_zip hkind).2, hsound.first t (TokenForm.Sound.take_pos (htake ▸ h)).1⟩

theorem takeToken_le (t : List Char) : takeToken t ≤ t.length := by
  by_cases h : 0 < takeToken t
  · obtain ⟨kind, -, hsound, htake⟩ := takeToken_kind h
    rw [htake]
    exact hsound.take_le t
  · omega

theorem takeToken_stop (x y : List Char) : takeToken (x ++ '[' :: y) = takeToken x := by
  have hall : tokenKinds.map (·.1.take (x ++ '[' :: y)) = tokenKinds.map (·.1.take x) :=
    List.map_congr_left fun kind hkind => (tokenKinds_sound hkind).take_stop x y
  show firstOf (tokenKinds.map (·.1.take (x ++ '[' :: y))) = firstOf (tokenKinds.map (·.1.take x))
  rw [hall]

theorem takeToken_append {y : List Char} (h : takeToken (x ++ y) = 0) : takeToken x = 0 := by
  rw [takeToken_eq_zero] at h ⊢
  intro kind hkind
  by_contra hne
  have hpos := (tokenKinds_sound hkind).take_append (Nat.pos_of_ne_zero hne) y
  rw [h kind hkind] at hpos
  cases hpos

theorem tokenLetters_run (hl : l ∈ tokenLetters) (h : caseless l c = true)
    (hkind : kind ∈ tokenKinds) : kind.1.inRun c = true := by
  exact (tokenKinds_sound hkind).letters c
    (isLetterOrDigit_of_caseless (tokenLetters_letters l hl) h)

theorem takeToken_after (h : 0 < takeToken t) : takeToken (t.drop (takeToken t)) = 0 := by
  by_contra hne
  obtain ⟨l, hl, c, hc, hmatch⟩ := takeToken_head (Nat.pos_of_ne_zero hne)
  obtain ⟨kind, hkind, hsound, htake⟩ := takeToken_kind h
  rw [List.head?_drop, htake] at hc
  have hrun := TokenForm.Sound.after_take (htake ▸ h) hc
  rw [tokenLetters_run hl hmatch hkind] at hrun
  cases hrun

theorem takeToken_take (h : 0 < takeToken t) (hn : takeToken t ≤ n) :
    takeToken (t.take n) = takeToken t := by
  obtain ⟨kind, hkind, hsound, htake⟩ := takeToken_kind h
  rw [htake] at h hn ⊢
  obtain ⟨hlead, hleast, heq⟩ := TokenForm.Sound.take_pos h
  have hmin := hsound.least
  have hsame := hsound.cut t n hlead (by omega)
  have hhead : ∃ c ∈ (t.take n).head?, caseless kind.2 c = true := by
    refine hsound.first (t.take n) ?_
    omega
  have hrun : run kind.1.inRun ((t.take n).drop (kind.1.lead (t.take n))) =
      run kind.1.inRun (t.drop (kind.1.lead t)) := by
    rw [hsame, List.drop_take, run_take]
    omega
  rw [takeToken_of_head hkind hhead, TokenForm.Sound.take_of (by omega) (by omega), hrun, hsame, heq]

theorem takeToken_least (h : 0 < takeToken t) : 8 < takeToken t := by
  obtain ⟨kind, -, hsound, htake⟩ := takeToken_kind h
  obtain ⟨hlead, hleast, heq⟩ := TokenForm.Sound.take_pos (htake ▸ h)
  have hmin := hsound.least
  omega

end AlysisCode.Swarm
