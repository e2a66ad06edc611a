/-
A JSON text that is cut short.

What is read off the front of a text does not depend on what follows, once the value has
ended.  A value with brackets ends with the last of them, so a text that was cut off inside a
written object is not read as one, and neither are two objects behind one another.
-/
import AlysisCode.Library.JsonText
import AlysisCode.Library.Text

namespace Json

variable {F : Type} [Floats F]

/-! ### Numbers -/

variable {rest t : List Char} {v : Json F} {members : List (String × Json F)} {c : Char}
  {fuel' : Nat}

variable {digits exp frac sign : List Char} {style : Style} (fuel : Nat) {s : List Char}
  {items : List (Json F)}

theorem scanSign_eq (h : scanSign t = (sign, rest)) :
    t = sign ++ rest ∧ (sign = [] ∨ sign = ['-']) := by
  unfold scanSign at h
  split at h
  · cases h
    exact ⟨rfl, .inr rfl⟩
  · cases h
    exact ⟨rfl, .inl rfl⟩

theorem scanDigits_eq (h : scanDigits t = some (digits, rest)) : t = digits ++ rest ∧
      (digits = ['0'] ∨ ∃ c ds, digits = c :: ds ∧ c ≠ '0' ∧ ∀ d ∈ digits, d.isDigit = true) := by
  unfold scanDigits at h
  split at h
  · cases h
  rename_i c t
  split at h
  · rename_i hc
    cases h
    exact ⟨by rw [hc]; rfl, .inl rfl⟩
  · rename_i hc
    split at h
    · rename_i hdigit
      cases h
      refine ⟨by rw [List.cons_append, List.takeWhile_append_dropWhile], .inr ⟨c, _, rfl, hc, ?_⟩⟩
      intro d hd
      rcases List.mem_cons.mp hd with rfl | hd
      · exact hdigit
      · exact List.mem_takeWhile_imp hd
    · cases h

/-- Digits behind a point, or behind an exponent's sign. -/
theorem digits_of_head (h : t.head?.any Char.isDigit = true) :
    t.takeWhile Char.isDigit ≠ [] ∧ ∀ d ∈ t.takeWhile Char.isDigit, d.isDigit = true := by
  refine ⟨?_, fun d hd => List.mem_takeWhile_imp hd⟩
  cases t with
  | nil => cases h
  | cons c t =>
    have hc : c.isDigit = true := h
    rw [List.takeWhile_cons_of_pos hc]
    exact List.cons_ne_nil _ _

theorem scanFraction_eq (h : scanFraction t = (frac, rest)) :
    t = frac ++ rest ∧ IsFraction frac := by
  unfold scanFraction at h
  split at h
  · cases h
    exact ⟨rfl, .inl rfl⟩
  split at h
  · rename_i hc
    cases h
    obtain ⟨hne, hdigits⟩ := digits_of_head hc.2
    refine ⟨by rw [List.cons_append, List.takeWhile_append_dropWhile], .inr ⟨_, ?_, hne, hdigits⟩⟩
    rw [hc.1]
  · cases h
    exact ⟨rfl, .inl rfl⟩

theorem scanExponentSign_eq (t : List Char) : t = (scanExponentSign t).1 ++ (scanExponentSign t).2 ∧
      ((scanExponentSign t).1 = [] ∨ (scanExponentSign t).1 = ['+'] ∨
        (scanExponentSign t).1 = ['-']) := by
  unfold scanExponentSign
  split
  · exact ⟨rfl, .inr (.inl rfl)⟩
  · exact ⟨rfl, .inr (.inr rfl)⟩
  · exact ⟨rfl, .inl rfl⟩

theorem scanExponent_eq (h : scanExponent t = (exp, rest)) : t = exp ++ rest ∧ IsExponent exp := by
  unfold scanExponent at h
  split at h
  · cases h
    exact ⟨rfl, .inl rfl⟩
  rename_i c t
  obtain ⟨hsplit, hsign⟩ := scanExponentSign_eq t
  dsimp only at h
  split at h
  · rename_i hc
    cases h
    obtain ⟨hne, hdigits⟩ := digits_of_head hc.2
    refine ⟨?_, .inr ⟨c, _, _, rfl, hc.1, hsign, hne, hdigits⟩⟩
    rw [List.append_assoc, List.takeWhile_append_dropWhile, List.cons_append, ← hsplit]
  · cases h
    exact ⟨rfl, .inl rfl⟩

theorem EndsNumber.append (h : EndsNumber t) (hne : t ≠ []) (q : List Char) :
    EndsNumber (t ++ q) := by
  obtain ⟨c, rest, rfl⟩ := List.exists_cons_of_ne_nil hne
  exact h

/-- A number as it was scanned. -/
theorem scanNumber_eq (h : scanNumber t = some (v, rest)) :
    ∃ sign digits frac exp, t = sign ++ (digits ++ (frac ++ (exp ++ rest))) ∧
      IsInteger sign digits ∧ IsFraction frac ∧ IsExponent exp ∧
      v = if frac = [] ∧ exp = [] then .int (intOf sign digits)
        else .float (Floats.ofText (String.ofList (sign ++ digits ++ frac ++ exp))) := by
  unfold scanNumber at h
  cases hsign : scanSign t with
  | mk sign t₁ =>
  rw [hsign] at h
  dsimp only at h
  cases hdigits : scanDigits t₁ with
  | none =>
    rw [hdigits] at h
    cases h
  | some scanned =>
  obtain ⟨digits, t₂⟩ := scanned
  rw [hdigits] at h
  dsimp only [Option.bind_eq_bind, Option.bind_some] at h
  cases hfrac : scanFraction t₂ with
  | mk frac t₃ =>
  rw [hfrac] at h
  cases hexp : scanExponent t₃ with
  | mk exp t₄ =>
  rw [hexp] at h
  obtain ⟨rfl, hsigned⟩ := scanSign_eq hsign
  obtain ⟨rfl, hwhole⟩ := scanDigits_eq hdigits
  obtain ⟨rfl, hfraction⟩ := scanFraction_eq hfrac
  obtain ⟨rfl, hexponent⟩ := scanExponent_eq hexp
  split at h
  · rename_i hboth
    cases h
    exact ⟨sign, digits, frac, exp, rfl, ⟨hsigned, hwhole⟩, hfraction, hexponent,
      (if_pos hboth).symm⟩
  · rename_i hboth
    cases h
    exact ⟨sign, digits, frac, exp, rfl, ⟨hsigned, hwhole⟩, hfraction, hexponent,
      (if_neg hboth).symm⟩

/-- A number that something else ends, whatever follows. -/
theorem scanNumber_stable (h : scanNumber t = some (v, rest)) (hne : rest ≠ [])
    (hends : EndsNumber rest) (q : List Char) :
    scanNumber (t ++ q) = some (v, rest ++ q) ∧ StartsNumber (t ++ q) := by
  obtain ⟨sign, digits, frac, exp, rfl, hint, hfrac, hexp, rfl⟩ := scanNumber_eq h
  simp only [List.append_assoc]
  refine ⟨?_, hint.starts _⟩
  rw [scanNumber_append hint hfrac hexp (hends.append hne q)]
  split
  · rfl
  · simp only [List.append_assoc]

theorem scanNumber_ne_obj : scanNumber t ≠ some (.obj members, rest) := by
  intro h
  obtain ⟨sign, digits, frac, exp, -, -, -, -, hv⟩ := scanNumber_eq h
  split at hv
  · cases hv
  · cases hv

/-! ### Strings -/

theorem hexValues_stable {n : Nat} (h : hexValues t = some (n, rest)) (q : List Char) :
    hexValues (t ++ q) = some (n, rest ++ q) := by
  unfold hexValues at h
  split at h
  · rename_i a b c d t
    simp only [Option.bind_eq_bind, Option.bind_eq_some_iff, Option.some.injEq, Prod.mk.injEq] at h
    obtain ⟨a', ha, b', hb, c', hc, d', hd, hn, rfl⟩ := h
    show hexValues (a :: b :: c :: d :: (t ++ q)) = _
    simp only [hexValues, ha, hb, hc, hd, Option.bind_eq_bind, Option.bind_some, hn]
  · cases h

theorem scanUnicode_stable (h : scanUnicode t = some (c, rest)) (q : List Char) :
    scanUnicode (t ++ q) = some (c, rest ++ q) := by
  unfold scanUnicode at h ⊢
  obtain ⟨⟨high, t'⟩, hhigh, h⟩ := Option.bind_eq_some_iff.mp h
  rw [hexValues_stable hhigh q]
  dsimp only [Option.bind_eq_bind, Option.bind_some] at h ⊢
  split at h
  · rename_i hpair
    rw [if_pos hpair]
    split at h
    · rename_i t''
      obtain ⟨⟨low, t₃⟩, hlow, h⟩ := Option.bind_eq_some_iff.mp h
      show ((hexValues (t'' ++ q)).bind _) = _
      rw [hexValues_stable hlow q]
      dsimp only [Option.bind_some] at h ⊢
      split at h
      · rename_i hlow
        rw [if_pos hlow]
        obtain ⟨rfl, rfl⟩ := Prod.mk.inj (Option.some.inj h)
        rfl
      · cases h
    · cases h
  · rename_i hpair
    rw [if_neg hpair]
    split at h
    · cases h
    · rename_i hlow
      rw [if_neg hlow]
      cases h
      rfl

theorem scanChar_plain (hc : c ≠ '\\') (t : List Char) :
    scanChar (c :: t) = if c.toNat < 0x20 then none else some (c, t) := by
  rw [scanChar]
  · simp only [hc, false_or]
  · exact fun _ h _ => hc h
  · exact fun _ _ h _ => hc h

theorem scanChar_escaped {e : Char} (he : e ≠ 'u') (t : List Char) :
    scanChar ('\\' :: e :: t) = (unescape e).map (·, t) := by
  rw [scanChar]
  exact fun h => he h

theorem scanChar_stable (h : scanChar t = some (c, rest)) (q : List Char) :
    scanChar (t ++ q) = some (c, rest ++ q) := by
  cases t with
  | nil => cases h
  | cons c' t =>
    by_cases hc : c' = '\\'
    · subst hc
      cases t with
      | nil => cases h
      | cons e t =>
        by_cases he : e = 'u'
        · subst he
          exact scanUnicode_stable h q
        · rw [scanChar_escaped he] at h
          obtain ⟨d, hd, heq⟩ := Option.map_eq_some_iff.mp h
          obtain ⟨rfl, rfl⟩ := Prod.mk.inj heq
          show scanChar ('\\' :: e :: (t ++ q)) = _
          rw [scanChar_escaped he, hd]
          rfl
    · rw [scanChar_plain hc] at h
      rw [List.cons_append, scanChar_plain hc]
      split at h
      · cases h
      · rename_i hcontrol
        cases h
        rw [if_neg hcontrol]

theorem scanStringFuel_stable {fuel : Nat} (h : scanStringFuel fuel t = some (s, rest))
    (hfuel : fuel ≤ fuel') (q : List Char) :
    scanStringFuel fuel' (t ++ q) = some (s, rest ++ q) := by
  induction fuel generalizing t s fuel' with
  | zero => cases h
  | succ fuel ih =>
    obtain ⟨fuel', rfl⟩ := Nat.exists_eq_succ_of_ne_zero (n := fuel') (by omega)
    cases t with
    | nil => cases h
    | cons c t =>
      by_cases hc : c = '"'
      · subst hc
        cases h
        rfl
      · have hstep (fuel : Nat) (t : List Char) : scanStringFuel (fuel + 1) (c :: t) =
            (scanChar (c :: t)).bind fun d => (scanStringFuel fuel d.2).bind fun r =>
              some (d.1 :: r.1, r.2) := by
          rw [scanStringFuel]
          · rfl
          · exact fun _ h => hc (List.cons.inj h).1
        rw [hstep] at h
        obtain ⟨⟨d, t₁⟩, hd, h⟩ := Option.bind_eq_some_iff.mp h
        obtain ⟨⟨s', t₂⟩, hs', h⟩ := Option.bind_eq_some_iff.mp h
        cases h
        have hchar : scanChar (c :: (t ++ q)) = some (d, t₁ ++ q) := scanChar_stable hd q
        rw [List.cons_append, hstep, hchar]
        dsimp only [Option.bind_some]
        rw [ih hs' (by omega)]
        rfl

theorem scanString_stable (h : scanString t = some (s, rest)) (q : List Char) :
    scanString (t ++ q) = some (s, rest ++ q) :=
  scanStringFuel_stable h (by rw [List.length_append]; omega) q

/-! ### Values -/

theorem skipSpaces_append (h : skipSpaces t ≠ []) (q : List Char) :
    skipSpaces (t ++ q) = skipSpaces t ++ q := by
  unfold skipSpaces at h ⊢
  rw [List.dropWhile_append, if_neg (by simpa using h)]

theorem skipSpaces_stable (h : skipSpaces t = c :: rest) (q : List Char) :
    skipSpaces (t ++ q) = c :: (rest ++ q) := by
  rw [skipSpaces_append (by simp [h]), h]
  rfl

/-- What follows ends the value before it. -/
def Ends (v : Json F) (rest : List Char) : Prop :=
  (rest ≠ [] ∧ EndsNumber rest) ∨ ∃ members, v = .obj members

omit [Floats F] in
/-- A bracket or a comma ends any value, also behind spaces. -/
theorem ends_of_skipSpaces (h : skipSpaces t = c :: rest) (hc : c = ',' ∨ c = ']' ∨ c = '\x7d') :
    Ends v t := by
  cases t with
  | nil => cases h
  | cons d t =>
    refine .inl ⟨List.cons_ne_nil d t, ?_⟩
    intro d' hd'
    cases hd'
    unfold skipSpaces at h
    by_cases hspace : (d == ' ' || d == '\t' || d == '\n' || d == '\r') = true
    · simp only [Bool.or_eq_true, beq_iff_eq] at hspace
      rcases hspace with ((rfl | rfl) | rfl) | rfl
      all_goals decide
    · have hdrop : (d :: t).dropWhile
          (fun c => c == ' ' || c == '\t' || c == '\n' || c == '\r') = d :: t :=
        List.dropWhile_cons_of_neg hspace
      rw [hdrop] at h
      obtain ⟨rfl, -⟩ := List.cons.inj h
      rcases hc with rfl | rfl | rfl
      all_goals decide

theorem scanLiteral_stable (h : scanLiteral t = some (v, rest)) (hends : Ends v rest)
    (q : List Char) : scanLiteral (t ++ q) = some (v, rest ++ q) := by
  unfold scanLiteral at h
  split at h
  iterate 6
    · cases h
      rfl
  · rcases hends with ⟨hne, hends⟩ | ⟨members, rfl⟩
    · obtain ⟨hnumber, hstarts⟩ := scanNumber_stable h hne hends q
      rw [scanLiteral_of_starts hstarts, hnumber]
    · exact absurd h scanNumber_ne_obj

theorem ne_nil_of_some {α : Type*} {f : List Char → Option α} {a : α} (hnil : f [] = none)
    (h : f t = some a) : t ≠ [] := by
  rintro rfl
  cases hnil.symm.trans h

theorem scanItems_nil : scanItems (F := F) fuel [] = none := by
  match fuel with
  | 0 | 1 | fuel + 2 => rfl

theorem scanValue_nil : scanValue (F := F) fuel [] = none := by
  cases fuel with
  | zero | succ fuel => rfl

theorem scanMembers_nil (dict : List (String × Json F)) : scanMembers fuel dict [] = none := by
  cases fuel with
  | zero | succ fuel => rfl

/-- What is read with `fuel`, whatever follows and whatever more there is of fuel. -/
structure Stable (F : Type) [Floats F] (fuel : Nat) : Prop where
  value : ∀ {t rest : List Char} {v : Json F}, scanValue fuel t = some (v, rest) → Ends v rest →
    ∀ fuel' ≥ fuel, ∀ q, scanValue fuel' (t ++ q) = some (v, rest ++ q)
  items : ∀ {t rest : List Char} {items : List (Json F)}, scanItems fuel t = some (items, rest) →
    ∀ fuel' ≥ fuel, ∀ q, scanItems fuel' (t ++ q) = some (items, rest ++ q)
  members : ∀ {t rest : List Char} {dict members : List (String × Json F)},
    scanMembers fuel dict t = some (members, rest) →
      ∀ fuel' ≥ fuel, ∀ q, scanMembers fuel' dict (t ++ q) = some (members, rest ++ q)

theorem Stable.items_succ {fuel : Nat} (h : Stable F fuel)
    (hscan : scanItems (fuel + 1) t = some (items, rest)) (hfuel : fuel ≤ fuel') (q : List Char) :
    scanItems (fuel' + 1) (t ++ q) = some (items, rest ++ q) := by
  rw [scanItems] at hscan ⊢
  obtain ⟨⟨v, t₁⟩, hv, hscan⟩ := Option.bind_eq_some_iff.mp hscan
  dsimp only at hscan
  split at hscan
  · rename_i t₂ hskip
    cases hscan
    rw [h.value hv (ends_of_skipSpaces hskip (by simp)) fuel' hfuel q]
    dsimp only [Option.bind_eq_bind, Option.bind_some]
    rw [skipSpaces_stable hskip q]
    rfl
  · rename_i t₂ hskip
    obtain ⟨⟨more, t₃⟩, hmore, hscan⟩ := Option.bind_eq_some_iff.mp hscan
    cases hscan
    have hne : skipSpaces t₂ ≠ [] := ne_nil_of_some (scanItems_nil _) hmore
    rw [h.value hv (ends_of_skipSpaces hskip (by simp)) fuel' hfuel q]
    dsimp only [Option.bind_eq_bind, Option.bind_some]
    rw [skipSpaces_stable hskip q]
    show ((scanItems fuel' (skipSpaces (t₂ ++ q))).bind _) = _
    rw [skipSpaces_append hne, h.items hmore fuel' hfuel q]
    rfl
  · cases hscan

theorem Stable.members_succ {fuel : Nat} (h : Stable F fuel) {dict : List (String × Json F)}
    (hscan : scanMembers (fuel + 1) dict t = some (members, rest)) (hfuel : fuel ≤ fuel')
    (q : List Char) :
    scanMembers (fuel' + 1) dict (t ++ q) = some (members, rest ++ q) := by
  unfold scanMembers at hscan
  split at hscan
  · rename_i t
    obtain ⟨⟨key, t₁⟩, hkey, hscan⟩ := Option.bind_eq_some_iff.mp hscan
    dsimp only at hscan
    show ((scanString (t ++ q)).bind _) = _
    rw [scanString_stable hkey q]
    dsimp only [Option.bind_some]
    split at hscan
    · rename_i t₂ hcolon
      obtain ⟨⟨v, t₃⟩, hv, hscan⟩ := Option.bind_eq_some_iff.mp hscan
      have hne : skipSpaces t₂ ≠ [] := ne_nil_of_some (scanValue_nil _) hv
      rw [skipSpaces_stable hcolon q]
      show ((scanValue fuel' (skipSpaces (t₂ ++ q))).bind _) = _
      split at hscan
      · rename_i t₄ hskip
        cases hscan
        rw [skipSpaces_append hne, h.value hv (ends_of_skipSpaces hskip (by simp)) fuel' hfuel q]
        dsimp only [Option.bind_some]
        rw [skipSpaces_stable hskip q]
        rfl
      · rename_i t₄ hskip
        have hne' : skipSpaces t₄ ≠ [] := ne_nil_of_some (scanMembers_nil _ _) hscan
        rw [skipSpaces_append hne, h.value hv (ends_of_skipSpaces hskip (by simp)) fuel' hfuel q]
        dsimp only [Option.bind_some]
        rw [skipSpaces_stable hskip q]
        show scanMembers fuel' _ (skipSpaces (t₄ ++ q)) = _
        rw [skipSpaces_append hne', h.members hscan fuel' hfuel q]
      · cases hscan
    · cases hscan
  · cases hscan

theorem scanValue_items (h : ∀ rest, skipSpaces t ≠ ']' :: rest) (fuel : Nat) :
    scanValue (F := F) (fuel + 1) ('[' :: t) = (do
      let (items, t) ← scanItems fuel (skipSpaces t)
      some (.arr items, t)) := by
  rw [scanValue]
  split
  · rename_i heq
    exact absurd heq (h _)
  · rfl

theorem scanValue_members (h : ∀ rest, skipSpaces t ≠ '\x7d' :: rest) (fuel : Nat) :
    scanValue (F := F) (fuel + 1) ('\x7b' :: t) = (do
      let (members, t) ← scanMembers fuel [] (skipSpaces t)
      some (.obj members, t)) := by
  rw [scanValue]
  split
  · rename_i heq
    exact absurd heq (h _)
  · rfl

/-- A text that does not begin with a character goes on not to. -/
theorem head_append (hne : t ≠ []) (h : ∀ rest, t ≠ c :: rest) (q : List Char) :
    ∀ rest, t ++ q ≠ c :: rest := by
  obtain ⟨d, ds, rfl⟩ := List.exists_cons_of_ne_nil hne
  intro rest heq
  exact h ds (by rw [(List.cons.inj heq).1])

theorem Stable.value_succ {fuel : Nat} (h : Stable F fuel)
    (hscan : scanValue (fuel + 1) t = some (v, rest)) (hends : Ends v rest) (hfuel : fuel ≤ fuel')
    (q : List Char) :
    scanValue (fuel' + 1) (t ++ q) = some (v, rest ++ q) := by
  unfold scanValue at hscan
  split at hscan
  · rename_i t
    obtain ⟨⟨s, t₁⟩, hs, hscan⟩ := Option.bind_eq_some_iff.mp hscan
    cases hscan
    show ((scanString (t ++ q)).bind _) = _
    rw [scanString_stable hs q]
    rfl
  · rename_i t
    split at hscan
    · rename_i t₁ hskip
      cases hscan
      rw [List.cons_append, scanValue, skipSpaces_stable hskip q]
      rfl
    · rename_i hopen
      obtain ⟨⟨items, t₁⟩, hitems, hscan⟩ := Option.bind_eq_some_iff.mp hscan
      cases hscan
      have hne : skipSpaces t ≠ [] := ne_nil_of_some (scanItems_nil _) hitems
      rw [List.cons_append, scanValue_items, skipSpaces_append hne, h.items hitems fuel' hfuel q]
      · rfl
      · rw [skipSpaces_append hne]
        exact head_append hne hopen q
  · rename_i t
    split at hscan
    · rename_i t₁ hskip
      cases hscan
      rw [List.cons_append, scanValue, skipSpaces_stable hskip q]
      rfl
    · rename_i hopen
      obtain ⟨⟨members, t₁⟩, hmembers, hscan⟩ := Option.bind_eq_some_iff.mp hscan
      cases hscan
      have hne : skipSpaces t ≠ [] := ne_nil_of_some (scanMembers_nil _ _) hmembers
      rw [List.cons_append, scanValue_members, skipSpaces_append hne,
        h.members hmembers fuel' hfuel q]
      · rfl
      · rw [skipSpaces_append hne]
        exact head_append hne hopen q
  · rename_i hstring harray hobject
    have hne : t ≠ [] := by
      rintro rfl
      cases hscan
    rw [scanValue]
    · exact scanLiteral_stable hscan hends q
    · exact head_append hne hstring q
    · exact head_append hne harray q
    · exact head_append hne hobject q

/-- **What is read does not depend on what follows.** -/
theorem stable : Stable F fuel := by
  induction fuel with
  | zero =>
    refine ⟨?_, ?_, ?_⟩
    · intro t rest v h
      cases h
    · intro t rest items h
      cases h
    · intro t rest dict members h
      cases h
  | succ fuel ih =>
    have hsucc {fuel' : Nat} (h : fuel + 1 ≤ fuel') : ∃ n, fuel' = n + 1 ∧ fuel ≤ n :=
      ⟨fuel' - 1, by omega, by omega⟩
    refine ⟨?_, ?_, ?_⟩
    · intro t rest v h hends fuel' hfuel q
      obtain ⟨n, rfl, hn⟩ := hsucc hfuel
      exact ih.value_succ h hends hn q
    · intro t rest items h fuel' hfuel q
      obtain ⟨n, rfl, hn⟩ := hsucc hfuel
      exact ih.items_succ h hn q
    · intro t rest dict members h fuel' hfuel q
      obtain ⟨n, rfl, hn⟩ := hsucc hfuel
      exact ih.members_succ h hn q

/-! ### Written objects -/

/-- An object is read off the front of a text that goes on behind it. -/
theorem loads_eq_obj {text : String} (h : loads text = some (.obj members)) :
    ∃ rest, skipSpaces rest = [] ∧ ∀ fuel ≥ 2 * (skipSpaces text.toList).length + 1, ∀ q,
      scanValue fuel (skipSpaces text.toList ++ q) = some (.obj members, rest ++ q) := by
  unfold loads at h
  obtain ⟨⟨v, rest⟩, hscan, h⟩ := Option.bind_eq_some_iff.mp h
  dsimp only at h
  split at h
  · rename_i hrest
    cases h
    exact ⟨rest, hrest, (stable _).value hscan (.inr ⟨members, rfl⟩)⟩
  · cases h

/-- **A written value that is cut short is not read as an object.** -/
theorem loads_prefix (hdist : v.Distinct) {p q : List Char} (happend : p ++ q = v.render style)
    (hq : q ≠ []) (members : List (String × Json F)) :
    loads (String.ofList p) ≠ some (.obj members) := by
  intro h
  obtain ⟨rest, -, hscan⟩ := loads_eq_obj h
  rw [String.toList_ofList] at hscan
  have hskip : skipSpaces p = p := by
    cases p with
    | nil => rfl
    | cons c p =>
      obtain ⟨d, ds, hd, hstarts⟩ := render_starts style v []
      rw [List.append_nil, ← happend, List.cons_append, List.cons.injEq] at hd
      rw [hd.1]
      exact skipSpaces_of_starts hstarts p
  rw [hskip] at hscan
  have hlength : p.length ≤ (v.render style).length := by
    rw [← happend, List.length_append]
    omega
  have hwhole := readBack style hdist (2 * (v.render style).length + 1) [] (by omega)
    (by simp [EndsValue])
  rw [List.append_nil, ← happend, hscan _ (by rw [happend]; omega), Option.some.injEq,
    Prod.mk.injEq, List.append_eq_nil_iff] at hwhole
  exact hq hwhole.2.2

/-- An object does not begin with another one. -/
theorem loads_open_open (t : List Char) :
    loads (F := F) (String.ofList ('\x7b' :: '\x7b' :: t)) = none := by
  have hskip (t : List Char) : skipSpaces ('\x7b' :: t) = '\x7b' :: t := rfl
  have hmembers (fuel : Nat) : scanMembers (F := F) fuel [] ('\x7b' :: t) = none := by
    cases fuel with
    | zero | succ fuel => rfl
  rw [loads, String.toList_ofList, hskip, scanValue_members (by simp [hskip]), hskip, hmembers]
  rfl

/-! ### The characters of a text -/

/-- No control character. -/
def Printed (t : List Char) : Prop := ∀ c ∈ t, 0x20 ≤ c.toNat

theorem Printed.append (hs : Printed s) (ht : Printed t) : Printed (s ++ t) := by
  intro c hc
  rcases List.mem_append.mp hc with hc | hc
  · exact hs c hc
  · exact ht c hc

theorem Printed.cons {c : Char} {t : List Char} (hc : 0x20 ≤ c.toNat) (ht : Printed t) :
    Printed (c :: t) := by
  intro d hd
  rcases List.mem_cons.mp hd with rfl | hd
  · exact hc
  · exact ht d hd

theorem printed_nil : Printed [] := by
  intro c hc
  cases hc

theorem printed_digits (h : ∀ c ∈ t, c.isDigit = true) : Printed t := by
  intro c hc
  have hdigit := Char.isDigit_iff_toNat.mp (h c hc)
  have hzero : 0x20 ≤ '0'.toNat := by decide
  omega

theorem printed_digitChar (n : Nat) : 0x20 ≤ (Nat.digitChar n).toNat := by
  by_cases hn : n < 16
  · have hall : ∀ n < 16, 0x20 ≤ (Nat.digitChar n).toNat := by decide
    exact hall n hn
  · unfold Nat.digitChar
    iterate 16 rw [if_neg (by omega)]
    decide

theorem printed_unicodeEscape (n : Nat) : Printed (unicodeEscape n) := by
  have hdigit := printed_digitChar
  exact .cons (by decide) (.cons (by decide) (.cons (hdigit _) (.cons (hdigit _)
    (.cons (hdigit _) (.cons (hdigit _) printed_nil)))))

theorem printed_escapeChar (ascii : Bool) (c : Char) : Printed (escapeChar ascii c) := by
  unfold escapeChar
  split_ifs with h₁ h₂ h₃ h₄ h₅ h₆ h₇ h₈ h₉ h₁₀
  iterate 7 exact .cons (by decide) (.cons (by decide) printed_nil)
  · exact printed_unicodeEscape _
  · exact printed_unicodeEscape _
  · exact (printed_unicodeEscape _).append (printed_unicodeEscape _)
  · exact .cons (by omega) printed_nil

theorem printed_quote (ascii : Bool) (s : String) : Printed (quote ascii s) := by
  refine .append (.cons (by decide) ?_) (.cons (by decide) printed_nil)
  intro c hc
  obtain ⟨d, -, hd⟩ := List.mem_flatMap.mp hc
  exact printed_escapeChar ascii d c hd

theorem printed_sign (h : sign = [] ∨ sign = ['-']) : Printed sign := by
  rcases h with rfl | rfl
  · exact printed_nil
  · exact .cons (by decide) printed_nil

theorem printed_whole
    (h : digits = ['0'] ∨ ∃ c ds, digits = c :: ds ∧ c ≠ '0' ∧ ∀ d ∈ digits, d.isDigit = true) :
    Printed digits := by
  rcases h with rfl | ⟨c, ds, -, -, hdigits⟩
  · exact .cons (by decide) printed_nil
  · exact printed_digits hdigits

theorem printed_fraction (h : IsFraction frac) : Printed frac := by
  rcases h with rfl | ⟨ds, rfl, -, hds⟩
  · exact printed_nil
  · exact .cons (by decide) (printed_digits hds)

theorem printed_exponent (h : IsExponent exp) : Printed exp := by
  rcases h with rfl | ⟨c, sign, ds, rfl, hc, hsign, -, hds⟩
  · exact printed_nil
  have hletter : 0x20 ≤ c.toNat := by
    rcases hc with rfl | rfl
    all_goals decide
  have hsigned : Printed sign := by
    rcases hsign with rfl | rfl | rfl
    · exact printed_nil
    · exact .cons (by decide) printed_nil
    · exact .cons (by decide) printed_nil
  exact .append (.cons hletter hsigned) (printed_digits hds)

theorem printed_float (x : F) : Printed (Floats.repr x).toList := by
  by_cases hx : Floats.isFinite x = true
  · obtain ⟨sign, digits, frac, exp, heq, hint, hfrac, hexp, -⟩ := Floats.repr_text x hx
    rw [heq]
    exact (((printed_sign hint.sign).append (printed_whole hint.digits)).append
      (printed_fraction hfrac)).append (printed_exponent hexp)
  · have hall : ∀ text ∈ specialTexts, ∀ c ∈ text.toList, 0x20 ≤ c.toNat := by decide
    exact hall _ (Floats.repr_special x (by simpa using hx))

theorem printed_int (n : Int) : Printed (intText n) := by
  have hdigits (n : Nat) : Printed (Nat.toDigits 10 n) := printed_digits fun c hc =>
    Nat.isDigit_of_mem_toDigits (by omega) (le_refl 10) hc
  cases n with
  | ofNat n => exact hdigits n
  | negSucc n => exact .cons (by decide) (hdigits _)

theorem printed_gap (style : Style) : Printed style.gap := by
  unfold Style.gap
  split
  · exact .cons (by decide) printed_nil
  · exact printed_nil

theorem printed_items (h : ∀ v ∈ items, Printed (v.render style)) :
    Printed (renderItems style items) := by
  induction items with
  | nil =>
    rw [renderItems]
    exact printed_nil
  | cons v rest ih =>
    rw [renderItems]
    refine (h v List.mem_cons_self).append ?_
    split
    · exact printed_nil
    · exact .append (.cons (by decide) (printed_gap style))
        (ih fun w hw => h w (List.mem_cons_of_mem v hw))

theorem printed_members (h : ∀ m ∈ members, Printed (m.2.render style)) :
    Printed (renderMembers style members) := by
  induction members with
  | nil =>
    rw [renderMembers]
    exact printed_nil
  | cons m rest ih =>
    obtain ⟨key, v⟩ := m
    have hv : Printed (v.render style) := h (key, v) List.mem_cons_self
    have hmember : Printed (quote style.ascii key ++ ':' :: style.gap ++ v.render style) :=
      ((printed_quote _ _).append (.cons (by decide) (printed_gap style))).append hv
    rw [renderMembers]
    refine hmember.append ?_
    split
    · exact printed_nil
    · exact .append (.cons (by decide) (printed_gap style))
        (ih fun w hw => h w (List.mem_cons_of_mem _ hw))

/-- **A written value stands on one line.** -/
theorem printed_render (style : Style) (v : Json F) : Printed (v.render style) := by
  induction v using Json.induct with
  | null =>
    rw [render]
    unfold Printed
    decide
  | bool b =>
    cases b with
    | true | false =>
      rw [render]
      unfold Printed
      decide
  | int n =>
    rw [render]
    exact printed_int n
  | float x =>
    rw [render]
    exact printed_float x
  | str s =>
    rw [render]
    exact printed_quote _ s
  | arr items ih =>
    rw [render]
    exact .append (.cons (by decide) (printed_items ih)) (.cons (by decide) printed_nil)
  | obj members ih =>
    rw [render]
    exact .append (.cons (by decide) (printed_members ih)) (.cons (by decide) printed_nil)

end Json
