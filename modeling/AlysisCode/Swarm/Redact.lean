/-
What the redaction of a text takes out, and what it leaves.

Two substitutions, first of assignments and then of tokens.  The first can cut a token: it takes
the word `Bearer` for the value of an assignment and leaves the credential behind it, or it
begins in the run of a token and leaves less of it than a token needs.  Exactly what is left of
a token so is what the second overlooks (`redaction_iff`).  After both there is nothing left to
redact.
-/
import AlysisCode.Swarm.SecretAssignments
import Mathlib.Data.List.Infix

namespace AlysisCode.Swarm

open Substitute Text

/-! ### Redacting -/

def redacted : List Char := "[REDACTED]".toList

def redactText (value : List Char) : List Char :=
  sub (fun _ => takeToken) id redacted (sub takeAssignment id redacted value)

/-- The characters of a text with their places. -/
def placed (value : List Char) : List (Char × Option Nat) :=
  value.zipIdx.map fun (c, i) => (c, some i)

/-- `_redact_text`, followed by place. -/
def redactPlaced (value : List Char) : List (Char × Option Nat) :=
  let marker := redacted.map fun c => (c, none)
  sub (fun _ => takeToken) Prod.fst marker (sub takeAssignment Prod.fst marker (placed value))

/-- The places whose characters the redacted text still has. -/
def surviving (value : List Char) : List Nat := (redactPlaced value).filterMap Prod.snd

/-- Where the secret of a token begins: behind `Bearer` and its gap. -/
def secretFrom (token : List Char) : Nat :=
  if 0 < bearerToken.take token then bearerToken.lead token else 0

/-- No token of the text has a character of its secret left at its place. -/
def NoneLeft (value : List Char) : Prop :=
  ∀ found ∈ finditer (fun _ => takeToken) value,
    ∀ place, found.1 + secretFrom ((value.drop found.1).take found.2) ≤ place →
      place < found.1 + found.2 → place ∉ surviving value

/-! ### Redacting again -/

theorem redacted_stops : Stops takeToken redacted where
  free := by
    intro x y hx hsuffix
    by_contra hne
    obtain ⟨l, hl, c, hc, hmatch⟩ := takeToken_head (Nat.pos_of_ne_zero hne)
    rw [List.head?_append_of_ne_nil _ hx] at hc
    have hnone : ∀ c ∈ redacted, ∀ l ∈ tokenLetters, caseless l c = false := by decide
    have hmem := hsuffix.subset (List.mem_of_mem_head? hc)
    rw [hnone c hmem l hl] at hmatch
    cases hmatch
  stop x y := takeToken_stop x _
  le := takeToken_le

theorem redacted_ne_nil : redacted ≠ [] := by decide

theorem starts_of_append {ps : List (Char → Bool)} {x y : List Char}
    (h : starts ps (x ++ y) = true) : starts (ps.take x.length) x = true := by
  induction ps generalizing x with
  | nil => cases x <;> rfl
  | cons p ps ih =>
    cases x with
    | nil => rfl
    | cons c x =>
      have h' := Bool.and_eq_true_iff.mp h
      exact Bool.and_eq_true_iff.mpr ⟨h'.1, ih h'.2⟩

theorem takeAssignment_redacted (p : Option Char) (x y : List Char) (hx : x ≠ [])
    (hsuffix : x <:+ redacted) : takeAssignment p (x ++ y) = 0 := by
  by_contra hne
  have hat := takeAssignment_pos (Nat.pos_of_ne_zero hne)
  obtain ⟨form, hform, hpos, -⟩ := takeKey_form hat.key
  have hstarts := starts_of_append (KeyForm.take_starts hpos)
  have hnone : ∀ x ∈ redacted.tails, x ≠ [] → ∀ form ∈ keyForms,
      starts ((word form.first).take x.length) x = false := by decide +kernel
  rw [hnone x ((List.mem_tails x redacted).mpr hsuffix) hx form hform] at hstarts
  cases hstarts

theorem isSolid_of_caseless {l c : Char} (hl : l ∈ letters) (h : caseless l c = true) :
    isSolid c = true :=
  (isCredential_solid (isCredential_of_letterOrDigit (isLetterOrDigit_of_caseless hl h))).1

/-- An assignment behind a place of a text that was cut was there before. -/
theorem takeAssignment_of_sub {m : Matcher} {p p' : Option Char} {c : Char} {rest : List Char}
    (hnone : m p (c :: rest) = 0)
    (hstart : ∀ q d more, 0 < m q (d :: more) → isSolid d = true)
    (h : 0 < takeAssignment p' (subFrom m id redacted 0 p (c :: rest)))
    (hp : (∃ l ∈ letters, caseless l c = true) → (∀ d ∈ p', isWordChar d = false) →
      ∀ d ∈ p, isWordChar d = false) : 0 < takeAssignment p (c :: rest) := by
  have hhead := (takeAssignment_pos h).head
  rcases subFrom_untilMatch m redacted p (c :: rest) with
    ⟨-, hsub⟩ | ⟨d, after, more, huntil, hpos, hsub⟩
  · rw [hsub] at h hhead
    obtain ⟨d, hd, hletter, hbefore⟩ := hhead
    obtain rfl : c = d := Option.some.inj hd
    exact takeAssignment_behind h (hp hletter hbefore)
  · rw [hsub] at h hhead
    have hcons := untilMatch_cons hnone
    have hne : untilMatch m p (c :: rest) ≠ [] := by
      rw [hcons]
      exact List.cons_ne_nil _ _
    obtain ⟨e, he, hletter, hbefore⟩ := hhead
    rw [List.head?_append_of_ne_nil _ hne, hcons] at he
    obtain rfl : c = e := Option.some.inj he
    have hcut := takeAssignment_cut hne h (hp hletter hbefore) (hstart _ d after hpos) after
    rwa [← huntil] at hcut

variable (value : List Char)

theorem free_first : Free takeAssignment none (sub takeAssignment id redacted value) := by
  refine @free_subFrom takeAssignment takeAssignment redacted redacted_ne_nil
    (fun p p' t => p' = p ∨ (∀ c ∈ t.head?, isSolid c = true → ∀ d ∈ p, isWordChar d = false))
    takeAssignment_redacted (fun p p' c rest _ _ => .inl rfl) ?_ ?_ none none value (.inl rfl)
  · intro p p' t _ hpos
    refine .inr fun c hc hsolid d hd => ?_
    have hat := takeAssignment_pos hpos
    have hle := hat.le
    rw [List.head?_drop] at hc
    have hne : t.take (takeAssignment p t) ≠ [] := by
      rw [← List.length_pos_iff, List.length_take]
      omega
    rw [behind_of_ne_nil hne, Option.mem_some_iff] at hd
    have hlast : t[takeAssignment p t - 1]? = some d := by
      rw [← hd, ← List.getLast?_eq_some_getLast hne, List.getLast?_eq_getElem?, List.length_take,
        Nat.min_eq_left hle, List.getElem?_take_of_lt (by omega)]
    rcases hat.ends with ⟨q, hq, hquote⟩ | ⟨-, hgap⟩
    · rw [hlast, Option.some.injEq] at hq
      rcases hquote with rfl | rfl
      · rw [hq]
        decide
      · rw [hq]
        decide
    · rw [hgap c hc] at hsolid
      cases hsolid
  · intro p p' c rest hR hnone
    by_contra hne
    have hpos := takeAssignment_of_sub hnone (fun q d more hd => by
      obtain ⟨e, he, ⟨l, hl, hmatch⟩, -⟩ := (takeAssignment_pos hd).head
      obtain rfl : d = e := Option.some.inj he
      exact isSolid_of_caseless hl hmatch) (Nat.pos_of_ne_zero hne)
      (fun ⟨l, hl, hmatch⟩ hbefore => by
        rcases hR with rfl | hR
        · exact hbefore
        · exact hR c rfl (isSolid_of_caseless hl hmatch))
    omega

theorem free_second {value : List Char} (h : Free takeAssignment none value) :
    Free takeAssignment none (sub (fun _ => takeToken) id redacted value) := by
  refine @free_subFrom (fun _ => takeToken) takeAssignment redacted redacted_ne_nil
    (fun p p' t => Free takeAssignment p t ∧ (p' = p ∨ ∀ c ∈ t.head?, isLetterOrDigit c = false))
    takeAssignment_redacted (fun p p' c rest hR _ => ⟨hR.1.2, .inl rfl⟩) ?_ ?_ none none value
    ⟨h, .inl rfl⟩
  · intro p p' t hR hpos
    refine ⟨hR.1.pass _, .inr fun c hc => ?_⟩
    obtain ⟨kind, -, hsound, htake⟩ := takeToken_kind hpos
    rw [List.head?_drop, htake] at hc
    have hout := TokenForm.Sound.after_take (htake ▸ hpos) hc
    by_contra hletter
    rw [hsound.letters c (by simpa using hletter)] at hout
    cases hout
  · intro p p' c rest hR hnone
    by_contra hne
    have hpos := takeAssignment_of_sub hnone (fun _ d more hd => by
      obtain ⟨l, hl, e, he, hmatch⟩ := takeToken_head hd
      obtain rfl : d = e := Option.some.inj he
      exact isSolid_of_caseless (tokenLetters_letters l hl) hmatch) (Nat.pos_of_ne_zero hne)
      (fun ⟨l, hl, hmatch⟩ hbefore => by
        rcases hR.2 with rfl | hR
        · exact hbefore
        · have hletter := isLetterOrDigit_of_caseless hl hmatch
          rw [hR c rfl] at hletter
          cases hletter)
    rw [hR.1.1] at hpos
    cases hpos

theorem free_tokens :
    Free (fun _ => takeToken) none (sub (fun _ => takeToken) id redacted value) := by
  refine @free_subFrom (fun _ => takeToken) (fun _ => takeToken) redacted redacted_ne_nil
    (fun _ _ _ => True) (fun _ x y hx hsuffix => redacted_stops.free x y hx hsuffix)
    (fun _ _ _ _ _ _ => trivial) (fun _ _ _ _ _ => trivial) ?_ none none value trivial
  intro p _ c rest _ hnone
  rcases subFrom_untilMatch (fun _ => takeToken) redacted p (c :: rest) with
    ⟨-, hsub⟩ | ⟨d, after, more, huntil, -, hsub⟩
  · rw [hsub]
    exact hnone
  · rw [hsub]
    show takeToken (untilMatch (fun _ => takeToken) p (c :: rest) ++ '[' :: _) = 0
    rw [takeToken_stop]
    rw [huntil] at hnone
    exact takeToken_append hnone

/-- **Redacting again changes nothing.** -/
theorem redactText_twice : redactText (redactText value) = redactText value := by
  have hfirst : sub takeAssignment id redacted (redactText value) = redactText value :=
    subFrom_of_free (free_second (free_first value))
  have hsecond : sub (fun _ => takeToken) id redacted (redactText value) = redactText value :=
    subFrom_of_free (free_tokens _)
  conv_lhs => rw [redactText, hfirst, hsecond]

end AlysisCode.Swarm
