/-
When the redaction leaves nothing of a token.

The text is read once, with the state of the first substitution: how much of an assignment is
still to come.  At every token the two flags beside the text, what the assignments keep and what
is gone after both substitutions, are compared; behind it the same state goes on.
-/
import AlysisCode.Swarm.CutTokens

namespace AlysisCode.Swarm

open Substitute Text

/-! ### Reading on -/

variable {t : List Char}

theorem EndsAt.drop {n k : Nat} (h : EndsAt n t) (hk : k < n) : EndsAt (n - k) (t.drop k) := by
  have hlast : k + (n - k - 1) = n - 1 := by omega
  have hnext : k + (n - k) = n := by omega
  unfold EndsAt at h ⊢
  rw [List.getElem?_drop, List.getElem?_drop, hlast, hnext]
  exact h

/-- Behind `n` characters: where in an assignment the first substitution is, and the flags. -/
structure Reads (t : List Char) (p : Option Char) (n a : Nat) (p' : Option Char) : Prop where
  ends : 0 < a → EndsAt a (t.drop n) ∧ a ≤ (t.drop n).length
  kept : keptFrom takeAssignment 0 p t =
    List.replicate (min (untilMatch takeAssignment p t).length n) true ++
      (List.replicate (n - (untilMatch takeAssignment p t).length) false ++
        keptFrom takeAssignment a p' (t.drop n))
  gone : (goneFrom takeAssignment takeToken 0 0 p t).take n =
    (hiddenFrom takeToken 0 (untilMatch takeAssignment p t)).take n ++
      List.replicate (n - (untilMatch takeAssignment p t).length) true
  /-- If no token that the second substitution sees goes on there. -/
  rest : (n ≤ (untilMatch takeAssignment p t).length →
      (hiddenFrom takeToken 0 (untilMatch takeAssignment p t)).drop n =
        hiddenFrom takeToken 0 ((untilMatch takeAssignment p t).drop n)) →
    (goneFrom takeAssignment takeToken 0 0 p t).drop n =
      goneFrom takeAssignment takeToken a 0 p' (t.drop n)

variable {a : Nat} {p : Option Char}

/-- The flags behind a piece, if an assignment that begins in it covers the rest of it. -/
theorem reads {n : Nat} (hn : n ≤ t.length) (hcover : (untilMatch takeAssignment p t).length < n →
      n - (untilMatch takeAssignment p t).length ≤
        takeAssignment (behind p (untilMatch takeAssignment p t))
          (t.drop (untilMatch takeAssignment p t).length)) :
    ∃ a p', Reads t p n a p' := by
  have htake := untilMatch_take takeAssignment p t
  have hgone := @goneFrom_untilMatch takeAssignment takeToken 0 p t takeToken_le (Nat.zero_le _)
  have huntil {k : Nat} (hk : k ≤ (untilMatch takeAssignment p t).length) :=
    @keptFrom_untilMatch takeAssignment k p t hk
  generalize hu : untilMatch takeAssignment p t = u at hcover htake hgone huntil
  have hlength : (hiddenFrom takeToken 0 u).length = u.length := length_hiddenFrom 0 u
  by_cases hle : n ≤ u.length
  · obtain ⟨hkept, hrest⟩ := huntil hle
    have hzero : n - u.length = 0 := by omega
    refine ⟨0, behind p (t.take n), fun h => absurd h (Nat.lt_irrefl 0), ?_, ?_, ?_⟩
    · rw [hu, hzero, Nat.min_eq_right hle]
      exact hkept
    · rw [hu, hgone, hzero, List.take_append_of_le_length (by omega)]
      simp
    · intro h
      rw [hu] at h
      have hgone' := @goneFrom_untilMatch takeAssignment takeToken 0 (behind p (t.take n))
        (t.drop n) takeToken_le (Nat.zero_le _)
      have hbehind : behind (behind p (t.take n)) (u.drop n) = behind p u := by
        rw [← behind_append]
        congr 1
        conv_rhs => rw [← List.take_append_drop n u]
        congr 1
        conv_rhs => rw [← htake]
        rw [List.take_take, Nat.min_eq_left hle]
      rw [hrest, hbehind, List.length_drop, List.drop_drop] at hgone'
      have hsum : n + (u.length - n) = u.length := by omega
      rw [hsum] at hgone'
      rw [hgone, List.drop_append_of_le_length (by omega), h hle, hgone']
  · have hlt : u.length < n := by omega
    have hlong := hcover hlt
    have hpos : 0 < takeAssignment (behind p u) (t.drop u.length) := by omega
    have hat := takeAssignment_pos hpos
    obtain ⟨hkept, -⟩ := huntil (Nat.le_refl u.length)
    have hdrop : (t.drop u.length).drop (n - u.length) = t.drop n := by
      rw [List.drop_drop]
      congr 1
      omega
    have hspace : n - u.length ≤ (t.drop u.length).length := by
      rw [List.length_drop]
      omega
    have hpass := @goneFrom_pass takeAssignment takeToken _ _ hlong _ hspace (behind p u)
    refine ⟨takeAssignment (behind p u) (t.drop u.length) - (n - u.length),
      behind (behind p u) ((t.drop u.length).take (n - u.length)), ?_, ?_, ?_, ?_⟩
    · intro ha
      refine ⟨?_, ?_⟩
      · have hends := hat.ends.drop (k := n - u.length) (by omega)
        rwa [hdrop] at hends
      · have hle' := hat.le
        rw [List.length_drop] at hle' ⊢
        omega
    · rw [hu, hkept, htake, Nat.min_eq_left (by omega), keptFrom_match hpos,
        keptFrom_pass hlong hspace, hdrop]
    · rw [hu, hgone, goneFrom_match hpos, hpass, hdrop, List.take_append, hlength,
        List.take_left' (by simp)]
    · intro _
      rw [hgone, goneFrom_match hpos, hpass, hdrop, List.drop_append, hlength,
        List.drop_eq_nil_of_le (by omega), List.nil_append, List.drop_left' (by simp)]

/-! ### One piece is left -/

def middleKept (front u back : List Char) : List Bool :=
  List.replicate front.length false ++
    (List.replicate u.length true ++ List.replicate back.length false)

theorem leftOf_middle (front u back : List Char) :
    leftOf (front ++ (u ++ back)) (middleKept front u back) = u := by
  unfold middleKept
  rw [leftOf_append _ (by simp), leftOf_append _ (by simp), leftOf_false, leftOf_true,
    leftOf_false, List.nil_append, List.append_nil]

theorem leftOf_middle_drop (front u back : List Char) {s : Nat} (hs : front.length ≤ s) :
    leftOf ((front ++ (u ++ back)).drop s) ((middleKept front u back).drop s) =
      u.drop (s - front.length) := by
  have hflags : (middleKept front u back).drop s =
      middleKept [] (u.drop (s - front.length)) (back.drop (s - front.length - u.length)) := by
    unfold middleKept
    rw [List.drop_append, List.drop_append, List.drop_eq_nil_of_le (by simpa using hs)]
    simp
  rw [hflags, List.drop_append, List.drop_append, List.drop_eq_nil_of_le hs, List.nil_append]
  exact leftOf_middle [] _ _

theorem wholeOrNone_middle {front u back : List Char}
    (hs : front.length ≤ secretFrom (front ++ (u ++ back))) :
    WholeOrNone (front ++ (u ++ back)) (middleKept front u back) ↔
      u.drop (secretFrom (front ++ (u ++ back)) - front.length) = [] ∨
        takeToken (u.dropWhile isSpace) = (u.dropWhile isSpace).length := by
  unfold WholeOrNone
  rw [leftOf_middle_drop front u back hs, leftOf_middle]

theorem hidden_middle {token : List Char} {flags : List Bool} {n k : Nat}
    (hn : n ≤ secretFrom token) :
    Hidden token (List.replicate n true ++ (flags ++ List.replicate k true)) ↔
      ∀ flag ∈ flags.drop (secretFrom token - n), flag = true := by
  unfold Hidden
  rw [List.drop_append, List.drop_append, List.drop_eq_nil_of_le (by simpa using hn),
    List.nil_append, List.length_replicate]
  constructor
  · intro h flag hflag
    exact h flag (List.mem_append_left _ hflag)
  · intro h flag hflag
    rcases List.mem_append.mp hflag with hflag | hflag
    · exact h flag hflag
    · exact List.eq_of_mem_replicate (List.mem_of_mem_drop hflag)

/-! ### One token -/

/-- Behind an assignment that is not yet at its end, the two readings agree. -/
def Agrees (t : List Char) : Prop :=
  ∀ a p p', (0 < a → EndsAt a t ∧ a ≤ t.length) →
    (EachMatch (fun _ => takeToken) Hidden 0 p' t (goneFrom takeAssignment takeToken a 0 p t) ↔
      EachMatch (fun _ => takeToken) WholeOrNone 0 p' t (keptFrom takeAssignment a p t))

theorem token_ne_nil (h : 0 < takeToken t) : t ≠ [] := by
  rintro rfl
  have hle := takeToken_le []
  rw [List.length_nil] at hle
  omega

theorem token_head (h : 0 < takeToken t) : ∃ c ∈ t.head?, isSpace c = false := by
  obtain ⟨l, hl, c, hc, hmatch⟩ := takeToken_head h
  have hcred := isCredential_of_letterOrDigit
    (isLetterOrDigit_of_caseless (tokenLetters_letters l hl) hmatch)
  exact ⟨c, hc, (isCredential_solid hcred).2.1⟩

theorem agrees_covered (ih : ∀ s : List Char, s.length < t.length → Agrees s)
    (hpos : 0 < takeToken t) (ha : takeToken t ≤ a) (hends : EndsAt a t ∧ a ≤ t.length)
    (p p' : Option Char) :
    EachMatch (fun _ => takeToken) Hidden 0 p' t (goneFrom takeAssignment takeToken a 0 p t) ↔
      EachMatch (fun _ => takeToken) WholeOrNone 0 p' t (keptFrom takeAssignment a p t) := by
  have hle := takeToken_le t
  have hne := token_ne_nil hpos
  have hlength : (t.take (takeToken t)).length = takeToken t := by
    rw [List.length_take]
    omega
  rw [eachMatch_match (m := fun _ => takeToken) rfl hpos hne,
    eachMatch_match (m := fun _ => takeToken) rfl hpos hne, goneFrom_pass ha hle,
    keptFrom_pass ha hle, List.take_left' (by simp), List.take_left' (by simp),
    List.drop_left' (by simp), List.drop_left' (by simp)]
  have hhidden : Hidden (t.take (takeToken t)) (List.replicate (takeToken t) true) :=
    fun flag hflag => List.eq_of_mem_replicate (List.mem_of_mem_drop hflag)
  have hwhole : WholeOrNone (t.take (takeToken t)) (List.replicate (takeToken t) false) := by
    refine .inl ?_
    have hnone := leftOf_false ((t.take (takeToken t)).drop (secretFrom (t.take (takeToken t))))
    rw [List.length_drop, hlength] at hnone
    rw [List.drop_replicate]
    exact hnone
  refine and_congr (iff_of_true hhidden hwhole) ?_
  refine ih _ ?_ _ _ _ fun hrest => ⟨hends.1.drop (by omega), ?_⟩
  · rw [List.length_drop]
    omega
  · rw [List.length_drop]
    omega

theorem assignment_covers_token {t : List Char} {p : Option Char} {e : Nat} (he : 0 < e)
    (hcut : e < takeToken t) (h : 0 < takeAssignment (behind p (t.take e)) (t.drop e)) :
    takeToken t - e ≤ takeAssignment (behind p (t.take e)) (t.drop e) := by
  have hpos : 0 < takeToken t := Nat.zero_lt_of_lt hcut
  have hle := takeToken_le t
  have hat := takeAssignment_pos h
  obtain ⟨kind, -, hsound, htake⟩ := takeToken_kind hpos
  have hne : t.take e ≠ [] := by
    rw [← List.length_pos_iff, List.length_take]
    omega
  have hbefore : behind p (t.take e) = t[e - 1]? := by
    rw [behind_of_ne_nil hne, ← List.getLast?_eq_some_getLast hne, List.getLast?_eq_getElem?,
      List.length_take, Nat.min_eq_left (by omega), List.getElem?_take_of_lt (by omega)]
  obtain ⟨c, hc, ⟨l, hl, hmatch⟩, hword⟩ := hat.head
  rw [List.head?_drop] at hc
  have hletter := isCredential_of_letterOrDigit (isLetterOrDigit_of_caseless hl hmatch)
  -- it begins behind no word, so behind the front
  have hlead : kind.1.lead t ≤ e := by
    by_contra hnot
    rcases hsound.inside t e he (by omega) with ⟨d, hd, hd'⟩ | ⟨d, hd, hspace⟩
    · rw [hbefore, hd] at hword
      rw [hword d rfl] at hd'
      cases hd'
    · obtain rfl : c = d := Option.some.inj (hc.symm.trans hd)
      rw [(isCredential_solid hletter).2.1] at hspace
      cases hspace
  refine hat.covers fun k hk => ?_
  have hget : t[e + k]? = some t[e + k] := List.getElem?_eq_getElem (by omega)
  refine ⟨_, by rw [List.getElem?_drop, hget], ?_⟩
  rcases hsound.take_char (by omega) hget with ⟨hbad, -⟩ | ⟨-, hin⟩
  · omega
  · exact hsound.credential _ hin

theorem agrees_front (ih : ∀ s : List Char, s.length < t.length → Agrees s) (hpos : 0 < takeToken t)
    (hnone : takeAssignment p t = 0) (p' : Option Char) :
    EachMatch (fun _ => takeToken) Hidden 0 p' t (goneFrom takeAssignment takeToken 0 0 p t) ↔
      EachMatch (fun _ => takeToken) WholeOrNone 0 p' t (keptFrom takeAssignment 0 p t) := by
  have hle := takeToken_le t
  have hne := token_ne_nil hpos
  have htake := untilMatch_take takeAssignment p t
  have hend := untilMatch_drop takeAssignment p t
  have hu0 : 0 < (untilMatch takeAssignment p t).length := by
    cases t with
    | nil => exact absurd rfl hne
    | cons c rest =>
      rw [untilMatch_cons hnone]
      exact Nat.succ_pos _
  have hcover : (untilMatch takeAssignment p t).length < takeToken t →
      takeToken t - (untilMatch takeAssignment p t).length ≤
        takeAssignment (behind p (untilMatch takeAssignment p t))
          (t.drop (untilMatch takeAssignment p t).length) := by
    intro hcut
    have hmore : t.drop (untilMatch takeAssignment p t).length ≠ [] := by
      rw [← List.length_pos_iff, List.length_drop]
      omega
    have hcovers := @assignment_covers_token t p _ hu0 hcut
      (by rw [htake]; exact hend.resolve_left hmore)
    rwa [htake] at hcovers
  obtain ⟨a, q, hreads⟩ := reads hle hcover
  have hgone := hreads.gone
  have hkept := hreads.kept
  have hrest := hreads.rest
  generalize untilMatch takeAssignment p t = u at htake hu0 hgone hkept hrest
  have hlanes : (hiddenFrom takeToken 0 u).length = u.length := length_hiddenFrom 0 u
  have hafter : takeToken t ≤ u.length → takeToken u = takeToken t := by
    intro hall
    rw [← htake]
    exact takeToken_take hpos hall
  have hflags : (goneFrom takeAssignment takeToken 0 0 p t).drop (takeToken t) =
      goneFrom takeAssignment takeToken a 0 q (t.drop (takeToken t)) := by
    refine hrest fun hall => ?_
    have hsame := hafter hall
    rw [hiddenFrom_match (by omega), hsame, hiddenFrom_pass hall, List.drop_left' (by simp)]
  rw [eachMatch_match (m := fun _ => takeToken) rfl hpos hne,
    eachMatch_match (m := fun _ => takeToken) rfl hpos hne, hgone, hflags, hkept]
  have hshort : (t.drop (takeToken t)).length < t.length := by
    rw [List.length_drop]
    omega
  rw [← List.append_assoc, List.take_left' (by simp; omega), List.drop_left' (by simp; omega)]
  refine and_congr ?_ (ih _ hshort a q _ hreads.ends)
  obtain ⟨d, hd, hspace⟩ := token_head hpos
  by_cases hcut : u.length < takeToken t
  · -- an assignment begins in the token
    have htoken : t.take (takeToken t) =
        [] ++ (u ++ (t.drop u.length).take (takeToken t - u.length)) := by
      conv_lhs => rw [← List.take_append_drop u.length (t.take (takeToken t))]
      rw [List.take_take, Nat.min_eq_left (Nat.le_of_lt hcut), htake, List.drop_take]
      rfl
    have hback : ((t.drop u.length).take (takeToken t - u.length)).length =
        takeToken t - u.length := by
      rw [List.length_take, List.length_drop]
      omega
    have hstrip : u.dropWhile isSpace = u := by
      refine dropWhile_of_head fun c hc => ?_
      rw [← htake, List.head?_take, if_neg (Nat.ne_of_gt hu0)] at hc
      obtain rfl : c = d := Option.some.inj (hc.symm.trans hd)
      exact hspace
    have hfront := hidden_front hu0 hcut
    have hhidden := @hidden_middle (t.take (takeToken t)) (hiddenFrom takeToken 0 u) 0
      (takeToken t - u.length) (Nat.zero_le _)
    have hwhole := @wholeOrNone_middle [] u ((t.drop u.length).take (takeToken t - u.length))
      (Nat.zero_le _)
    rw [htake] at hfront
    rw [← htoken, hstrip] at hwhole
    unfold middleKept at hwhole
    rw [hback] at hwhole
    have hlane : (hiddenFrom takeToken 0 u).take (takeToken t) = hiddenFrom takeToken 0 u :=
      List.take_of_length_le (by omega)
    rw [hlane, Nat.min_eq_left (Nat.le_of_lt hcut)]
    exact hhidden.trans (hfront.trans hwhole.symm)
  · have hall : takeToken t ≤ u.length := by omega
    have hsame := hafter hall
    have hlength : (t.take (takeToken t)).length = takeToken t := by
      rw [List.length_take]
      omega
    rw [hiddenFrom_match (by omega), hsame, hiddenFrom_pass hall, List.take_left' (by simp),
      Nat.min_eq_right hall, Nat.sub_eq_zero_of_le hall]
    refine iff_of_true ?_ (.inr ?_)
    · intro flag hflag
      rw [List.replicate_zero, List.append_nil] at hflag
      exact List.eq_of_mem_replicate (List.mem_of_mem_drop hflag)
    · have hleft := leftOf_true (t.take (takeToken t))
      rw [hlength] at hleft
      have hstrip : (t.take (takeToken t)).dropWhile isSpace = t.take (takeToken t) := by
        refine dropWhile_of_head fun c hc => ?_
        rw [List.head?_take, if_neg (Nat.ne_of_gt hpos)] at hc
        obtain rfl : c = d := Option.some.inj (hc.symm.trans hd)
        exact hspace
      rw [List.replicate_zero, List.append_nil, hleft, hstrip, hlength]
      exact takeToken_take hpos (Nat.le_refl _)

/-- An assignment ends inside a token only behind its `Bearer`. -/
theorem ends_in_bearer (ha : 0 < a) (hcut : a < takeToken t) (hends : EndsAt a t) :
    takeToken t = bearerToken.take t ∧ a = 6 := by
  have hpos : 0 < takeToken t := Nat.zero_lt_of_lt hcut
  have hle := takeToken_le t
  obtain ⟨kind, hkind, hsound, htake⟩ := takeToken_kind hpos
  have hchar {k : Nat} {c : Char} (hk : k < takeToken t) (hc : t[k]? = some c) :
      isCredential c = true ∨ (k < kind.1.lead t ∧ isSpace c = true) := by
    rcases hsound.take_char (by omega) hc with ⟨hlead, h | h⟩ | ⟨-, h⟩
    · exact .inl h
    · exact .inr ⟨hlead, h⟩
    · exact .inl (hsound.credential c h)
  rcases hends with ⟨c, hc, hquote⟩ | ⟨⟨c, hc, hsolid⟩, hnext⟩
  · rcases hchar (k := a - 1) (by omega) hc with h | ⟨-, h⟩
    · obtain ⟨-, -, hno, hno', -⟩ := isCredential_solid h
      exact (hquote.elim hno hno').elim
    · rcases hquote with rfl | rfl
      · exact absurd h (by decide)
      · exact absurd h (by decide)
  · have hget : t[a]? = some t[a] := List.getElem?_eq_getElem (by omega)
    have hgap := hnext _ hget
    rcases hchar hcut hget with h | ⟨hlead, h⟩
    · rw [(isCredential_solid h).1] at hgap
      cases hgap
    · obtain ⟨hb, hsix | ⟨d, hd, hspace⟩⟩ := hsound.spaces t a _ hlead hget h
      · have hbearer : kind = (bearerToken, 'b') :=
          tokenKinds_letter hkind (by simp [tokenKinds_eq]) hb
        rw [hbearer] at htake
        exact ⟨htake, hsix⟩
      · obtain rfl : c = d := Option.some.inj (hc.symm.trans hd)
        unfold isSolid at hsolid
        rw [hspace] at hsolid
        cases hsolid

/-- The gap and the credential of a bearer behind its first word. -/
structure Bearer (t : List Char) (gap creds : Nat) : Prop where
  positive : 0 < gap
  least : 8 ≤ creds
  length : takeToken t = 6 + (gap + creds)
  secret : secretFrom (t.take (takeToken t)) = 6 + gap
  space : ∀ k, k < gap → ∃ c, (t.drop 6)[k]? = some c ∧ isSpace c = true
  credential : ∀ k c, k < creds → (t.drop 6)[gap + k]? = some c → isCredential c = true
  ends : ∀ c, (t.drop 6)[gap + creds]? = some c → isCredential c = false

theorem bearer_of (hbearer : takeToken t = bearerToken.take t) (hpos : 0 < takeToken t) :
    ∃ gap creds, Bearer t gap creds := by
  have hb : 0 < bearerToken.take t := hbearer ▸ hpos
  obtain ⟨hlead, hleast, htake⟩ := TokenForm.Sound.take_pos hb
  change 0 < bearerLead t at hlead
  obtain ⟨-, hgap, hlength⟩ := bearerLead_pos hlead
  change 8 ≤ run isCredential (t.drop (bearerLead t)) at hleast
  change bearerToken.take t = bearerLead t + run isCredential (t.drop (bearerLead t)) at htake
  refine ⟨run isSpace (t.drop 6), run isCredential (t.drop (bearerLead t)), hgap, hleast,
    by omega, ?_, fun k hk => of_mem_run hk, fun k c hk hc => ?_, fun c hc => ?_⟩
  · rcases secretFrom_token hpos with ⟨-, hsecret⟩ | ⟨-, hall⟩
    · rw [hsecret, hlength]
    · obtain ⟨c, hc, hspace⟩ := @bearer_gap t 6 (Nat.le_refl 6) (by omega)
      have hcred := hall 6 c (by omega) hc
      rw [(isCredential_solid hcred).2.1] at hspace
      cases hspace
  · obtain ⟨d, hd, hcred⟩ := of_mem_run hk
    rw [List.getElem?_drop] at hc hd
    have hidx : 6 + (run isSpace (t.drop 6) + k) = bearerLead t + k := by omega
    rw [hidx, hd, Option.some.injEq] at hc
    exact hc ▸ hcred
  · rw [List.getElem?_drop] at hc
    have hidx : 6 + (run isSpace (t.drop 6) + run isCredential (t.drop (bearerLead t))) =
        bearerToken.take t := by omega
    rw [hidx] at hc
    exact TokenForm.Sound.after_take hb hc

section Bearer

variable {t u : List Char} {g r : Nat}

theorem of_taken (htake : (t.drop 6).take u.length = u) {k : Nat} {c : Char}
    (hc : u[k]? = some c) : (t.drop 6)[k]? = some c := by
  obtain ⟨hk, -⟩ := List.getElem?_eq_some_iff.mp hc
  rwa [← htake, List.getElem?_take_of_lt hk] at hc

theorem Bearer.hidden_gap (hb : Bearer t g r) (htake : (t.drop 6).take u.length = u)
    (hge : g ≤ u.length) : hiddenFrom takeToken 0 u =
      List.replicate g false ++ hiddenFrom takeToken 0 (u.drop g) := by
  refine hiddenFrom_none hge fun k hk => ?_
  obtain ⟨c, hc, hspace⟩ := hb.space k hk
  refine takeToken_space ?_ hspace
  rw [List.head?_drop, ← htake, List.getElem?_take_of_lt (by omega)]
  exact hc

theorem Bearer.in_run (hb : Bearer t g r) (htake : (t.drop 6).take u.length = u) :
    (∀ k c, k < r → (u.drop g)[k]? = some c → isCredential c = true) ∧
      ∀ c, (u.drop g)[r]? = some c → isCredential c = false := by
  refine ⟨fun k c hk hc => ?_, fun c hc => ?_⟩
  · rw [List.getElem?_drop] at hc
    exact hb.credential k c hk (of_taken htake hc)
  · rw [List.getElem?_drop] at hc
    exact hb.ends c (of_taken htake hc)

theorem Bearer.hidden_iff (hb : Bearer t g r) (htake : (t.drop 6).take u.length = u)
    (hge : g ≤ u.length) :
    (∀ flag ∈ ((hiddenFrom takeToken 0 u).take (g + r)).drop g, flag = true) ↔
      (u.drop g).take r = [] ∨ takeToken ((u.drop g).take r) = ((u.drop g).take r).length := by
  have hleast := hb.least
  obtain ⟨hrun, hend⟩ := hb.in_run htake
  have hsum : g + r - g = r := by omega
  rw [hb.hidden_gap htake hge, List.drop_take, List.drop_left' (by simp), hsum]
  exact hidden_run (by omega) hrun hend

/-- If the credential is hidden as a whole, the second substitution goes on behind it. -/
theorem Bearer.hidden_rest (hb : Bearer t g r) (htake : (t.drop 6).take u.length = u)
    (hge : g ≤ u.length)
    (hwhole : (u.drop g).take r = [] ∨
      takeToken ((u.drop g).take r) = ((u.drop g).take r).length) (hall : g + r ≤ u.length) :
    (hiddenFrom takeToken 0 u).drop (g + r) = hiddenFrom takeToken 0 (u.drop (g + r)) := by
  have hleast := hb.least
  obtain ⟨hrun, hend⟩ := hb.in_run htake
  have hlength : ((u.drop g).take r).length = r := by
    rw [List.length_take, List.length_drop]
    omega
  have hfull : takeToken ((u.drop g).take r) = r := by
    rcases hwhole with h | h
    · rw [h, List.length_nil] at hlength
      omega
    · rw [h, hlength]
  have hpos : 0 < takeToken (u.drop g) := by
    by_contra hzero
    have hnone : takeToken ((u.drop g).take r ++ (u.drop g).drop r) = 0 := by
      rw [List.take_append_drop]
      omega
    rw [takeToken_append hnone] at hfull
    omega
  have hsame := takeToken_take hpos (takeToken_in_run (by omega) hrun hend)
  have hlanes : hiddenFrom takeToken 0 (u.drop g) =
      List.replicate r true ++ hiddenFrom takeToken 0 ((u.drop g).drop r) := by
    rw [hiddenFrom_match hpos, ← hsame, hfull, hiddenFrom_pass (by rw [List.length_drop]; omega)]
  rw [hb.hidden_gap htake hge, hlanes, ← List.append_assoc, List.drop_left' (by simp),
    List.drop_drop]

theorem Bearer.whole_iff (hb : Bearer t g r) (hle : takeToken t ≤ t.length)
    (htake : (t.drop 6).take u.length = u) (hge : g ≤ u.length) :
    WholeOrNone (t.take (takeToken t)) (List.replicate 6 false ++
      (List.replicate (min u.length (g + r)) true ++ List.replicate (g + r - u.length) false)) ↔
      (u.drop g).take r = [] ∨ takeToken ((u.drop g).take r) = ((u.drop g).take r).length := by
  have hlen := hb.length
  have hulen : u.length ≤ (t.drop 6).length := by
    rw [← htake, List.length_take]
    omega
  rw [List.length_drop] at hulen
  have hfront : (t.take 6).length = 6 := by
    rw [List.length_take]
    omega
  have hmiddle : (u.take (g + r)).length = min u.length (g + r) := by
    rw [List.length_take, Nat.min_comm]
  have hback : (((t.drop 6).drop u.length).take (g + r - u.length)).length = g + r - u.length := by
    rw [List.length_take, List.length_drop, List.length_drop]
    omega
  have htoken : t.take (takeToken t) = t.take 6 ++ (u.take (g + r) ++
      ((t.drop 6).drop u.length).take (g + r - u.length)) := by
    rw [hlen, List.take_add]
    congr 1
    conv_lhs => rw [← List.take_append_drop u.length (t.drop 6), htake]
    rw [List.take_append]
  have hstrip : (u.take (g + r)).dropWhile isSpace = (u.drop g).take r := by
    have hcut : u.take (g + r) = u.take g ++ (u.drop g).take r := List.take_add
    rw [hcut, List.dropWhile_append_of_pos]
    · refine dropWhile_of_head fun c hc => ?_
      rw [List.head?_take, if_neg (by have hleast := hb.least; omega)] at hc
      rw [List.head?_eq_getElem?] at hc
      have hleast := hb.least
      exact (isCredential_solid ((hb.in_run htake).1 0 c (by omega) hc)).2.1
    · intro c hc
      obtain ⟨k, hk, hget⟩ := List.mem_take_iff_getElem.mp hc
      obtain ⟨d, hd, hspace⟩ := hb.space k (by omega)
      have hsome : u[k]? = some c := by rw [← hget]; exact List.getElem?_eq_getElem _
      rw [of_taken htake hsome, Option.some.injEq] at hd
      exact hd ▸ hspace
  have hsecret := hb.secret
  rw [htoken] at hsecret ⊢
  have hwhole := @wholeOrNone_middle (t.take 6) (u.take (g + r))
    (((t.drop 6).drop u.length).take (g + r - u.length)) (by omega)
  unfold middleKept at hwhole
  have hsix : 6 + g - 6 = g := by omega
  have hsum : g + r - g = r := by omega
  rwa [hfront, hmiddle, hback, hsecret, hstrip, hsix, List.drop_take, hsum] at hwhole

end Bearer

/-- A token of which an assignment took the `Bearer`. -/
theorem agrees_bearer (ih : ∀ s : List Char, s.length < t.length → Agrees s)
    (hbearer : takeToken t = bearerToken.take t) (hpos : 0 < takeToken t) (p p' : Option Char) :
    EachMatch (fun _ => takeToken) Hidden 0 p' t (goneFrom takeAssignment takeToken 6 0 p t) ↔
      EachMatch (fun _ => takeToken) WholeOrNone 0 p' t (keptFrom takeAssignment 6 p t) := by
  obtain ⟨g, r, hb⟩ := bearer_of hbearer hpos
  have hle := takeToken_le t
  have hne := token_ne_nil hpos
  have hlen := hb.length
  have hlong : 6 ≤ t.length := by omega
  have hlength6 : (t.drop 6).length = t.length - 6 := List.length_drop
  have htake := untilMatch_take takeAssignment (behind p (t.take 6)) (t.drop 6)
  have hend := untilMatch_drop takeAssignment (behind p (t.take 6)) (t.drop 6)
  -- no assignment begins in the gap
  have hge : g ≤ (untilMatch takeAssignment (behind p (t.take 6)) (t.drop 6)).length := by
    by_contra hnot
    rcases hend with hnil | hbegins
    · have hzero := congrArg List.length hnil
      rw [List.length_drop, hlength6, List.length_nil] at hzero
      omega
    · obtain ⟨c, hc, ⟨l, hl, hmatch⟩, -⟩ := (takeAssignment_pos hbegins).head
      rw [List.head?_drop] at hc
      obtain ⟨d, hd, hspace⟩ := hb.space _ (Nat.lt_of_not_le hnot)
      obtain rfl : c = d := Option.some.inj (hc.symm.trans hd)
      have hcred := isCredential_of_letterOrDigit (isLetterOrDigit_of_caseless hl hmatch)
      rw [(isCredential_solid hcred).2.1] at hspace
      cases hspace
  have hcover : (untilMatch takeAssignment (behind p (t.take 6)) (t.drop 6)).length < g + r →
      g + r - (untilMatch takeAssignment (behind p (t.take 6)) (t.drop 6)).length ≤
        takeAssignment (behind (behind p (t.take 6))
            (untilMatch takeAssignment (behind p (t.take 6)) (t.drop 6)))
          ((t.drop 6).drop (untilMatch takeAssignment (behind p (t.take 6)) (t.drop 6)).length) := by
    intro hcut
    have hmore : (t.drop 6).drop
        (untilMatch takeAssignment (behind p (t.take 6)) (t.drop 6)).length ≠ [] := by
      rw [← List.length_pos_iff, List.length_drop, hlength6]
      omega
    have hbegins := hend.resolve_left hmore
    generalize untilMatch takeAssignment (behind p (t.take 6)) (t.drop 6) = u at *
    have hfront : behind (behind p (t.take 6)) u = behind p (t.take (6 + u.length)) := by
      rw [← behind_append, List.take_add, htake]
    rw [hfront, List.drop_drop] at hbegins ⊢
    have hcovers := assignment_covers_token (by omega) (by omega) hbegins
    omega
  obtain ⟨a, q, hreads⟩ := reads (t := t.drop 6) (p := behind p (t.take 6)) (n := g + r)
    (by omega) hcover
  have hgone := hreads.gone
  have hkept := hreads.kept
  have hrest := hreads.rest
  have hends := hreads.ends
  generalize untilMatch takeAssignment (behind p (t.take 6)) (t.drop 6) = u at *
  have hgoneAll := @goneFrom_pass takeAssignment takeToken 6 6 (Nat.le_refl 6) t hlong p
  have hkeptAll := @keptFrom_pass takeAssignment 6 6 (Nat.le_refl 6) t hlong p
  rw [Nat.sub_self] at hgoneAll hkeptAll
  have hbehind : t.drop (takeToken t) = (t.drop 6).drop (g + r) := by
    rw [hlen, List.drop_drop]
  have hshort : ((t.drop 6).drop (g + r)).length < t.length := by
    rw [List.length_drop, hlength6]
    omega
  rw [eachMatch_match (m := fun _ => takeToken) rfl hpos hne,
    eachMatch_match (m := fun _ => takeToken) rfl hpos hne, hgoneAll, hkeptAll, hkept, hbehind]
  generalize goneFrom takeAssignment takeToken 0 0 (behind p (t.take 6)) (t.drop 6) = gone at *
  -- the flags of the token, and those behind it
  have hgoneToken : (List.replicate 6 true ++ gone).take (takeToken t) =
      List.replicate 6 true ++ ((hiddenFrom takeToken 0 u).take (g + r) ++
        List.replicate (g + r - u.length) true) := by
    rw [hlen, List.take_append, List.length_replicate, Nat.add_sub_cancel_left, hgone,
      List.take_of_length_le (by simp)]
  have hgoneRest : (List.replicate 6 true ++ gone).drop (takeToken t) = gone.drop (g + r) := by
    rw [hlen, List.drop_append, List.length_replicate, Nat.add_sub_cancel_left,
      List.drop_eq_nil_of_le (by simp), List.nil_append]
  rw [hgoneToken, hgoneRest, ← List.append_assoc (List.replicate (min _ _) true),
    ← List.append_assoc (List.replicate 6 false), List.take_left' (by simp; omega),
    List.drop_left' (by simp; omega), hb.whole_iff hle htake hge]
  have hhidden := @hidden_middle (t.take (takeToken t)) ((hiddenFrom takeToken 0 u).take (g + r))
    6 (g + r - u.length) (by rw [hb.secret]; omega)
  rw [hb.secret, Nat.add_sub_cancel_left] at hhidden
  rw [hhidden, hb.hidden_iff htake hge]
  refine and_congr_right fun hwhole => ?_
  rw [hrest (hb.hidden_rest htake hge hwhole)]
  exact ih _ hshort a q _ hends

/-! ### The whole text -/

theorem agrees_none {c : Char} {rest : List Char}
    (ih : ∀ s : List Char, s.length < (c :: rest).length → Agrees s)
    (hnone : takeToken (c :: rest) = 0)
    (hends : 0 < a → EndsAt a (c :: rest) ∧ a ≤ (c :: rest).length)
    (hstart : a = 0 → takeAssignment p (c :: rest) = 0) (p' : Option Char) :
    EachMatch (fun _ => takeToken) Hidden 0 p' (c :: rest)
        (goneFrom takeAssignment takeToken a 0 p (c :: rest)) ↔
      EachMatch (fun _ => takeToken) WholeOrNone 0 p' (c :: rest)
        (keptFrom takeAssignment a p (c :: rest)) := by
  have hshort : rest.length < (c :: rest).length := Nat.lt_succ_self _
  rw [EachMatch, hnone, EachMatch, hnone]
  cases a with
  | zero =>
    have hfirst := hstart rfl
    have hsecond : takeToken (untilMatch takeAssignment p (c :: rest)) = 0 := by
      obtain ⟨more, hsplit, -⟩ := untilMatch_spec takeAssignment p (c :: rest)
      rw [hsplit] at hnone
      exact takeToken_append hnone
    have hgone : goneFrom takeAssignment takeToken 0 0 p (c :: rest) =
        false :: goneFrom takeAssignment takeToken 0 0 (some c) rest := by
      rw [goneFrom.eq_def]
      dsimp only
      rw [hfirst, hsecond]
    have hkept : keptFrom takeAssignment 0 p (c :: rest) =
        true :: keptFrom takeAssignment 0 (some c) rest := by
      rw [keptFrom, hfirst]
    rw [hgone, hkept]
    exact ih rest hshort 0 _ _ fun h => absurd h (Nat.lt_irrefl 0)
  | succ a =>
    obtain ⟨hend, hle⟩ := hends (Nat.succ_pos a)
    rw [goneFrom, keptFrom]
    refine ih rest hshort a _ _ fun ha => ⟨?_, Nat.le_of_succ_le_succ hle⟩
    exact hend.drop (k := 1) (Nat.succ_lt_succ ha)

theorem agrees (t : List Char) : Agrees t := by
  induction hlength : t.length using Nat.strongRecOn generalizing t with
  | ind length ih =>
    have ih' : ∀ s : List Char, s.length < t.length → Agrees s := fun s hs =>
      ih s.length (hlength ▸ hs) s rfl
    -- inside an assignment, or where none begins
    have hread : ∀ a p p', (0 < a → EndsAt a t ∧ a ≤ t.length) → (a = 0 → takeAssignment p t = 0) →
        (EachMatch (fun _ => takeToken) Hidden 0 p' t (goneFrom takeAssignment takeToken a 0 p t) ↔
          EachMatch (fun _ => takeToken) WholeOrNone 0 p' t (keptFrom takeAssignment a p t)) := by
      intro a p p' hends hstart
      by_cases hpos : 0 < takeToken t
      · rcases Nat.eq_zero_or_pos a with rfl | ha
        · exact agrees_front ih' hpos (hstart rfl) p'
        · by_cases hcovers : takeToken t ≤ a
          · exact agrees_covered ih' hpos hcovers (hends ha) p p'
          · obtain ⟨hbearer, rfl⟩ :=
              ends_in_bearer ha (Nat.lt_of_not_le hcovers) (hends ha).1
            exact agrees_bearer ih' hbearer hpos p p'
      · cases t with
        | nil => exact Iff.rfl
        | cons c rest => exact agrees_none ih' (Nat.eq_zero_of_not_pos hpos) hends hstart p'
    intro a p p' hends
    by_cases hbegins : a = 0 ∧ 0 < takeAssignment p t
    · obtain ⟨rfl, hpos⟩ := hbegins
      have hat := takeAssignment_pos hpos
      rw [goneFrom_match hpos, keptFrom_match hpos]
      exact hread _ p p' (fun _ => ⟨hat.ends, hat.le⟩) fun hzero => by omega
    · exact hread a p p' hends fun ha => by
        by_contra hne
        exact hbegins ⟨ha, Nat.pos_of_ne_zero hne⟩

theorem mem_surviving {value : List Char} {place : Nat} : place ∈ surviving value ↔
      (goneFrom takeAssignment takeToken 0 0 none value)[place]? = some false := by
  have hplaced (i : Nat) : (placed value)[i]? = value[i]?.map fun c => (c, some i) := by
    unfold placed
    rw [List.getElem?_map, List.getElem?_zipIdx, Option.map_map]
    simp only [Function.comp_def, Nat.zero_add]
  have hvalue : (placed value).map Prod.fst = value := by
    unfold placed
    rw [List.map_map]
    exact List.zipIdx_map_fst 0 value
  have hmarker : (redacted.map fun c => (c, (none : Option Nat))).map Prod.fst = redacted := by
    rw [List.map_map]
    exact List.map_id redacted
  have hleft := @filter_sub_sub (Char × Option Nat) takeAssignment takeToken Prod.fst
    (redacted.map fun c => (c, none)) (fun a => a.2.isSome) (by rw [hmarker]; exact redacted_stops)
    (fun a ha => by obtain ⟨c, -, rfl⟩ := List.mem_map.mp ha; rfl) (placed value)
    (fun a ha => by
      obtain ⟨i, hi⟩ := List.mem_iff_getElem?.mp ha
      rw [hplaced, Option.map_eq_some_iff] at hi
      obtain ⟨c, -, rfl⟩ := hi
      rfl) 0 0 none (Nat.zero_le _) none
  rw [hvalue] at hleft
  change (redactPlaced value).filter (fun a => a.2.isSome) = _ at hleft
  have hlength := @length_goneFrom takeAssignment takeToken 0 0 none value
  generalize goneFrom takeAssignment takeToken 0 0 none value = gone at hleft hlength ⊢
  have hmem : place ∈ surviving value ↔
      ∃ a ∈ (redactPlaced value).filter (fun a => a.2.isSome), a.2 = some place := by
    unfold surviving
    rw [List.mem_filterMap]
    constructor
    · rintro ⟨a, ha, hplace⟩
      exact ⟨a, List.mem_filter.mpr ⟨ha, by rw [hplace]; rfl⟩, hplace⟩
    · rintro ⟨a, ha, hplace⟩
      exact ⟨a, (List.mem_filter.mp ha).1, hplace⟩
  rw [hmem, hleft]
  constructor
  · rintro ⟨a, ha, hplace⟩
    obtain ⟨⟨a, flag⟩, hpair, rfl⟩ := List.mem_map.mp ha
    obtain ⟨hzip, hflag⟩ := List.mem_filter.mp hpair
    obtain ⟨i, hi⟩ := List.mem_iff_getElem?.mp hzip
    obtain ⟨hget, hgone⟩ := List.getElem?_zip_eq_some.mp hi
    rw [hplaced, Option.map_eq_some_iff] at hget
    obtain ⟨c, -, rfl⟩ := hget
    obtain rfl : i = place := Option.some.inj hplace
    rw [hgone]
    simpa using hflag
  · intro hgone
    obtain ⟨hlt, -⟩ := List.getElem?_eq_some_iff.mp hgone
    have hget : value[place]? = some value[place] := List.getElem?_eq_getElem (by omega)
    refine ⟨(value[place], some place), List.mem_map.mpr ⟨((_, some place), false), ?_, rfl⟩, rfl⟩
    refine List.mem_filter.mpr ⟨?_, rfl⟩
    refine List.mem_iff_getElem?.mpr ⟨place, List.getElem?_zip_eq_some.mpr ⟨?_, hgone⟩⟩
    rw [hplaced, hget]
    rfl

theorem all_true_iff {lane : List Bool} {i k s : Nat} :
    (∀ flag ∈ ((lane.drop i).take k).drop s, flag = true) ↔
      ∀ place, i + s ≤ place → place < i + k → lane[place]? ≠ some false := by
  constructor
  · intro h place hfrom hto hfalse
    refine absurd (h false (List.mem_of_getElem? (i := place - (i + s)) ?_)) Bool.false_ne_true
    have hidx : i + (s + (place - (i + s))) = place := by omega
    rw [List.getElem?_drop, List.getElem?_take_of_lt (by omega), List.getElem?_drop, hidx]
    exact hfalse
  · intro h flag hflag
    obtain ⟨j, hj⟩ := List.mem_iff_getElem?.mp hflag
    rw [List.getElem?_drop, List.getElem?_take] at hj
    split at hj
    · rw [List.getElem?_drop] at hj
      have hne := h (i + (s + j)) (by omega) (by omega)
      rw [hj] at hne
      simpa using hne
    · cases hj

/-- Of every token, what the assignments leave holds nothing of its secret, or is itself a
whole token. -/
def TokensWhole (value : List Char) : Prop :=
  ∀ found ∈ finditer (fun _ => takeToken) value, WholeOrNone ((value.drop found.1).take found.2)
      (((keptFrom takeAssignment 0 none value).drop found.1).take found.2)

theorem noneLeft_iff (value : List Char) : NoneLeft value ↔ TokensWhole value := by
  have hagrees := agrees value 0 none none fun h => absurd h (Nat.lt_irrefl 0)
  rw [eachMatch_iff, eachMatch_iff] at hagrees
  refine Iff.trans ?_ hagrees
  unfold NoneLeft Hidden
  refine forall_congr' fun found => forall_congr' fun _ => ?_
  rw [all_true_iff]
  simp only [mem_surviving]

/-- **When the redaction takes out every token**, and it is always stable. -/
theorem redaction_iff (value : List Char) :
    (NoneLeft value ∧ redactText (redactText value) = redactText value) ↔ TokensWhole value := by
  rw [noneLeft_iff]
  exact and_iff_left (redactText_twice value)

/-- The assignment takes the word `Bearer`, and the credential behind it stays. -/
theorem bearer_left : ¬NoneLeft "password=Bearer abcdefghij".toList := by
  intro h
  have hfound : (9, 17) ∈ finditer (fun _ => takeToken) "password=Bearer abcdefghij".toList := by
    decide +kernel
  have hleft : 16 ∈ surviving "password=Bearer abcdefghij".toList := by decide +kernel
  exact h (9, 17) hfound 16 (by decide +kernel) (by decide) hleft

end AlysisCode.Swarm
