/-
Tokens that the first substitution cuts.

An assignment that ends inside a token ends behind its `Bearer`, and one that begins inside a
token covers the rest of it.  So what is left of a token is one piece, and the second
substitution sees that piece from its beginning.
-/
import AlysisCode.Swarm.Redact

namespace AlysisCode.Swarm

open Substitute Text

/-! ### What is left of a piece -/

/-- The characters of a piece that the flags keep. -/
def leftOf (piece : List Char) (kept : List Bool) : List Char :=
  ((piece.zip kept).filter (·.2)).map (·.1)

variable {t : List Char}

theorem leftOf_append {s : List Char} {kept : List Bool} (more : List Bool)
    (h : s.length = kept.length) :
    leftOf (s ++ t) (kept ++ more) = leftOf s kept ++ leftOf t more := by
  unfold leftOf
  rw [List.zip_append h, List.filter_append, List.map_append]

theorem leftOf_true (s : List Char) : leftOf s (List.replicate s.length true) = s := by
  induction s with
  | nil => rfl
  | cons c s ih => exact congrArg (c :: ·) ih

theorem leftOf_false (s : List Char) : leftOf s (List.replicate s.length false) = [] := by
  induction s with
  | nil => rfl
  | cons _ _ ih => exact ih

/-- No character of the secret of a token is left. -/
def Hidden (token : List Char) (gone : List Bool) : Prop :=
  ∀ flag ∈ gone.drop (secretFrom token), flag = true

/-- What is left of a token is no part of its secret, or behind a gap a token as a whole. -/
def WholeOrNone (token : List Char) (kept : List Bool) : Prop :=
  leftOf (token.drop (secretFrom token)) (kept.drop (secretFrom token)) = [] ∨
    takeToken ((leftOf token kept).dropWhile isSpace) =
      ((leftOf token kept).dropWhile isSpace).length

/-! ### Places where no token begins -/

theorem hiddenFrom_none {n : Nat} (hn : n ≤ t.length) (h : ∀ k, k < n → takeToken (t.drop k) = 0) :
    hiddenFrom takeToken 0 t = List.replicate n false ++ hiddenFrom takeToken 0 (t.drop n) := by
  induction n generalizing t with
  | zero => rfl
  | succ n ih =>
    cases t with
    | nil => cases hn
    | cons c rest =>
      have hfirst : takeToken (c :: rest) = 0 := h 0 (Nat.succ_pos n)
      rw [hiddenFrom, hfirst]
      rw [ih (Nat.le_of_succ_le_succ hn) fun k hk => h (k + 1) (Nat.succ_lt_succ hk)]
      rfl

theorem takeToken_space {c : Char} (hc : c ∈ t.head?) (hspace : isSpace c = true) :
    takeToken t = 0 := by
  by_contra hne
  obtain ⟨l, hl, d, hd, hmatch⟩ := takeToken_head (Nat.pos_of_ne_zero hne)
  obtain rfl : c = d := Option.some.inj (hc.symm.trans hd)
  have hcred := isCredential_of_letterOrDigit
    (isLetterOrDigit_of_caseless (tokenLetters_letters l hl) hmatch)
  rw [(isCredential_solid hcred).2.1] at hspace
  cases hspace

/-- No token begins inside the word `Bearer`, nor in the gap behind it. -/
theorem takeToken_inside_bearer (h : 0 < bearerLead t) {k : Nat} (hk : 0 < k)
    (hlead : k < bearerLead t) : takeToken (t.drop k) = 0 := by
  obtain ⟨hstarts, -, hlength⟩ := bearerLead_pos h
  by_cases hgap : 6 ≤ k
  · obtain ⟨c, hc, hspace⟩ := bearer_gap hgap (hlength ▸ hlead)
    exact takeToken_space (by rw [List.head?_drop]; exact hc) hspace
  · by_contra hne
    obtain ⟨l, hl, d, hd, hmatch⟩ := takeToken_head (Nat.pos_of_ne_zero hne)
    rw [List.head?_drop] at hd
    have hword : ∀ k, k < 6 → 0 < k → ∃ l' ∈ letters, l' ∉ tokenLetters ∧
        (word "bearer")[k]? = some (caseless l') := by
      intro k hk hpos
      have hcases : k = 1 ∨ k = 2 ∨ k = 3 ∨ k = 4 ∨ k = 5 := by omega
      rcases hcases with rfl | rfl | rfl | rfl | rfl
      · exact ⟨'e', by decide, by decide, rfl⟩
      · exact ⟨'a', by decide, by decide, rfl⟩
      · exact ⟨'r', by decide, by decide, rfl⟩
      · exact ⟨'e', by decide, by decide, rfl⟩
      · exact ⟨'r', by decide, by decide, rfl⟩
    obtain ⟨l', hl', hnot, hp⟩ := hword k (by omega) hk
    obtain ⟨c, hc, hmatch'⟩ := of_starts hstarts hp
    obtain rfl : c = d := Option.some.inj (hc.symm.trans hd)
    have hsame := letters_distinct (tokenLetters_letters l hl) hl' hmatch hmatch'
    exact hnot (hsame ▸ hl)

/-! ### What the second substitution hides -/

theorem takeToken_in_run {m : Nat} (hm : 6 < m)
    (hrun : ∀ k c, k < m → t[k]? = some c → isCredential c = true)
    (hend : ∀ c, t[m]? = some c → isCredential c = false) : takeToken t ≤ m := by
  by_contra hlong
  obtain ⟨kind, -, hsound, htake⟩ := takeToken_kind (t := t) (by omega)
  have hle := takeToken_le t
  have hc : t[m]? = some t[m] := List.getElem?_eq_getElem (by omega)
  have hnot := hend _ hc
  rcases hsound.take_char (by omega) hc with ⟨hlead, hcred | hspace⟩ | ⟨-, hin⟩
  · rw [hnot] at hcred
    cases hcred
  · obtain ⟨-, hsix | ⟨d, hd, hspace'⟩⟩ := hsound.spaces t m _ hlead hc hspace
    · omega
    · have hcred := hrun (m - 1) d (by omega) hd
      rw [(isCredential_solid hcred).2.1] at hspace'
      cases hspace'
  · rw [hsound.credential _ hin] at hnot
    cases hnot

theorem hidden_run {m : Nat} (hm : 6 < m)
    (hrun : ∀ k c, k < m → t[k]? = some c → isCredential c = true)
    (hend : ∀ c, t[m]? = some c → isCredential c = false) :
    (∀ flag ∈ (hiddenFrom takeToken 0 t).take m, flag = true) ↔
      t.take m = [] ∨ takeToken (t.take m) = (t.take m).length := by
  have hin := takeToken_in_run hm hrun hend
  have hle := takeToken_le t
  have hlength : (t.take m).length = min m t.length := List.length_take
  by_cases hnone : takeToken t = 0
  · have hnone' : takeToken (t.take m) = 0 := by
      rw [← List.take_append_drop m t] at hnone
      exact takeToken_append hnone
    rw [hnone']
    cases t with
    | nil => simp [hiddenFrom]
    | cons c rest =>
      obtain ⟨m, rfl⟩ : ∃ j, m = j + 1 := ⟨m - 1, by omega⟩
      rw [hiddenFrom, hnone]
      simp
  · have hpos := Nat.pos_of_ne_zero hnone
    have hsame : takeToken (t.take m) = takeToken t := takeToken_take hpos hin
    have hlanes : hiddenFrom takeToken 0 t = List.replicate (takeToken t) true ++
        hiddenFrom takeToken 0 (t.drop (takeToken t)) := by
      rw [hiddenFrom_match hpos, hiddenFrom_pass hle]
    rw [hsame]
    constructor
    · intro h
      by_contra hshort
      rw [not_or] at hshort
      have hlt : takeToken t < min m t.length := by omega
      -- the character behind the token begins none
      have hnext : (hiddenFrom takeToken 0 t)[takeToken t]? = some false := by
        rw [hlanes, List.getElem?_append_right (by simp), List.length_replicate, Nat.sub_self]
        have hafter := takeToken_after hpos
        cases hrest : t.drop (takeToken t) with
        | nil =>
          have hnil := congrArg List.length hrest
          rw [List.length_drop, List.length_nil] at hnil
          omega
        | cons c rest =>
          rw [hrest] at hafter
          rw [hiddenFrom, hafter]
          rfl
      have hmem : false ∈ (hiddenFrom takeToken 0 t).take m := by
        refine List.mem_of_getElem? (i := takeToken t) ?_
        rw [List.getElem?_take_of_lt (by omega), hnext]
      exact absurd (h false hmem) Bool.false_ne_true
    · intro h flag hflag
      have hfull : takeToken t = min m t.length := by
        rcases h with h | h
        · rw [h, List.length_nil] at hlength
          omega
        · omega
      rw [hlanes, List.take_append] at hflag
      have hrest : (hiddenFrom takeToken 0 (t.drop (takeToken t))).take
          (m - (List.replicate (takeToken t) true).length) = [] := by
        rw [List.length_replicate]
        rcases Nat.le_total m t.length with hmin | hmin
        · have hzero : m - takeToken t = 0 := by omega
          rw [hzero, List.take_zero]
        · have hall : t.drop (takeToken t) = [] := List.drop_eq_nil_of_le (by omega)
          rw [hall]
          simp [hiddenFrom]
      rw [hrest, List.append_nil] at hflag
      exact List.eq_of_mem_replicate (List.mem_of_mem_take hflag)

theorem hiddenFrom_whole (h : takeToken t = t.length) :
    hiddenFrom takeToken 0 t = List.replicate t.length true := by
  by_cases hnil : t = []
  · rw [hnil]
    rfl
  · have hpos : 0 < takeToken t := by
      rw [h]
      exact List.length_pos_iff.mpr hnil
    rw [hiddenFrom_match hpos, h, hiddenFrom_pass (Nat.le_refl _), List.drop_length]
    simp [hiddenFrom]

theorem secretFrom_token (h : 0 < takeToken t) :
    (takeToken t = bearerToken.take t ∧ secretFrom (t.take (takeToken t)) = bearerLead t) ∨
      (secretFrom (t.take (takeToken t)) = 0 ∧
        ∀ k c, k < takeToken t → t[k]? = some c → isCredential c = true) := by
  obtain ⟨kind, hkind, hsound, htake⟩ := takeToken_kind h
  have hself : takeToken (t.take (takeToken t)) = takeToken t := takeToken_take h (Nat.le_refl _)
  by_cases hb : kind.2 = 'b'
  · have hbearer : kind = (bearerToken, 'b') :=
      tokenKinds_letter hkind (by simp [tokenKinds_eq]) hb
    rw [hbearer] at htake
    change takeToken t = bearerToken.take t at htake
    have hpos : 0 < bearerToken.take t := htake ▸ h
    obtain ⟨hlead, hleast, heq⟩ := TokenForm.Sound.take_pos hpos
    have hsame := bearerToken_sound.cut t (takeToken t) hlead (by
      have hmin := bearerToken_sound.least
      omega)
    have hagain : 0 < bearerToken.take (t.take (takeToken t)) := by
      have hhead := bearerToken_sound.first (t.take (takeToken t)) (by omega)
      have hof := @takeToken_of_head (bearerToken, 'b') (by simp [tokenKinds_eq]) _ hhead
      rw [hself] at hof
      dsimp only at hof
      omega
    refine .inl ⟨htake, ?_⟩
    unfold secretFrom
    rw [if_pos hagain]
    exact hsame
  · refine .inr ⟨?_, fun k c hk hc => ?_⟩
    · unfold secretFrom
      refine if_neg fun hpos => ?_
      obtain ⟨hlead, -⟩ := TokenForm.Sound.take_pos hpos
      obtain ⟨c, hc, hmatch⟩ := bearerToken_sound.first _ hlead
      obtain ⟨d, hd, hmatch'⟩ := hsound.first t (TokenForm.Sound.take_pos (htake ▸ h)).1
      rw [List.head?_take, if_neg (by omega)] at hc
      obtain rfl : c = d := Option.some.inj (hc.symm.trans hd)
      refine hb (letters_distinct (tokenLetters_letters _ (List.of_mem_zip hkind).2) (by decide)
        hmatch' hmatch)
    · rw [htake] at hk
      rcases hsound.take_char hk hc with ⟨hlead, hcred | hspace⟩ | ⟨-, hin⟩
      · exact hcred
      · exact absurd (hsound.spaces t k c hlead hc hspace).1 hb
      · exact hsound.credential c hin

theorem takeToken_cut {e : Nat} (hcut : e < takeToken t) : takeToken (t.take e) = e ∨
      (takeToken (t.take e) = 0 ∧ ∀ n, takeToken t = bearerToken.take t → n = bearerLead t →
        e < n + 8) := by
  have hpos : 0 < takeToken t := Nat.zero_lt_of_lt hcut
  obtain ⟨kind, hkind, hsound, htake⟩ := takeToken_kind hpos
  by_cases he : e = 0
  · rw [he]
    exact .inl rfl
  have hhead : ∃ c ∈ (t.take e).head?, caseless kind.2 c = true := by
    rw [List.head?_take, if_neg he]
    exact hsound.first t (TokenForm.Sound.take_pos (htake ▸ hpos)).1
  rw [takeToken_of_head hkind hhead, hsound.take_take (htake ▸ hcut)]
  split
  · exact .inl rfl
  · rename_i hshort
    refine .inr ⟨rfl, fun n hbearer hn => ?_⟩
    -- the kind of the token is the bearer's
    have hlead := (TokenForm.Sound.take_pos (hbearer ▸ hpos)).1
    obtain ⟨c, hc, hmatch⟩ := bearerToken_sound.first t hlead
    obtain ⟨d, hd, hmatch'⟩ := hsound.first t (TokenForm.Sound.take_pos (htake ▸ hpos)).1
    obtain rfl : c = d := Option.some.inj (hc.symm.trans hd)
    have hb : kind.2 = 'b' :=
      letters_distinct (tokenLetters_letters _ (List.of_mem_zip hkind).2) (by decide) hmatch' hmatch
    have hkind' : kind = (bearerToken, 'b') :=
      tokenKinds_letter hkind (by simp [tokenKinds_eq]) hb
    rw [hkind'] at hshort
    change ¬bearerLead t + 8 ≤ e at hshort
    omega

theorem hidden_front {e : Nat} (he : 0 < e) (hcut : e < takeToken t) :
    (∀ flag ∈ (hiddenFrom takeToken 0 (t.take e)).drop (secretFrom (t.take (takeToken t))),
      flag = true) ↔ (t.take e).drop (secretFrom (t.take (takeToken t))) = [] ∨
          takeToken (t.take e) = (t.take e).length := by
  have hpos : 0 < takeToken t := Nat.zero_lt_of_lt hcut
  have hle := takeToken_le t
  have hlength : (t.take e).length = e := by
    rw [List.length_take]
    omega
  rcases takeToken_cut hcut with hwhole | ⟨hnone, hshort⟩
  · have hall := hiddenFrom_whole (hwhole.trans hlength.symm)
    rw [hwhole, hlength, hall]
    refine ⟨fun _ => .inr rfl, fun _ flag hflag => ?_⟩
    exact List.eq_of_mem_replicate (List.mem_of_mem_drop hflag)
  · rw [hnone, hlength]
    generalize hs : secretFrom (t.take (takeToken t)) = s
    constructor
    · intro h
      refine .inl ?_
      by_contra hne
      have hlt : s < e := by
        by_contra hnot
        exact hne (List.drop_eq_nil_of_le (by omega))
      -- nothing begins up to the secret, and what is left of it is too short
      have hzero : ∀ k, k < s + 1 → takeToken ((t.take e).drop k) = 0 := by
        intro k hk
        by_cases hfirst : k = 0
        · rw [hfirst]
          exact hnone
        · rcases secretFrom_token hpos with ⟨hbearer, hlead⟩ | ⟨hzero, -⟩
          · rw [hs] at hlead
            have hsmall := hshort s hbearer hlead
            have hlead' : bearerLead t = s := hlead.symm
            have hbpos := (TokenForm.Sound.take_pos (hbearer ▸ hpos)).1
            by_cases hsecret : k = s
            · by_contra hne'
              have hleast := takeToken_least (Nat.pos_of_ne_zero hne')
              have hbound := takeToken_le ((t.take e).drop k)
              rw [List.length_drop, hlength] at hbound
              omega
            · have hbefore := takeToken_inside_bearer hbpos (Nat.pos_of_ne_zero hfirst)
                (by rw [hlead']; omega)
              rw [List.drop_take]
              rw [← List.take_append_drop (e - k) (t.drop k)] at hbefore
              exact takeToken_append hbefore
          · omega
      have hlanes := hiddenFrom_none (t := t.take e) (n := s + 1) (by omega) hzero
      rw [hlanes, List.replicate_succ', List.append_assoc, List.drop_append_of_le_length
        (by simp)] at h
      have hmem : false ∈ (List.replicate s false).drop s ++ ([false] ++
          hiddenFrom takeToken 0 ((t.take e).drop (s + 1))) := by simp
      exact absurd (h false hmem) Bool.false_ne_true
    · intro h flag hflag
      rcases h with h | h
      · have hend : e ≤ s := by
          have hnil := congrArg List.length h
          rw [List.length_drop, hlength, List.length_nil] at hnil
          omega
        rw [List.drop_eq_nil_of_le (by rw [length_hiddenFrom]; omega)] at hflag
        cases hflag
      · omega

end AlysisCode.Swarm
