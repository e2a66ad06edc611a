/-
Replacing what a pattern matches in a text.

A pattern is read as the number of characters it takes off the front of a text, behind a
character; a pattern that may take none is not considered.  A scan goes from left to right and
goes on behind every match.  `sub` works on items that carry characters, so that it can be
followed where an item came from.  The results are about two substitutions one after the
other: what the second sees is cut at the markers of the first.
-/
import Mathlib.Data.List.Basic

namespace Substitute

/-- How many characters a pattern takes off the front of a text, behind a character; none if it
does not match. -/
abbrev Matcher := Option Char → List Char → Nat

variable {α : Type*}

/-! ### Scanning -/

/-- The matches of a scan that first passes some characters: where they begin, and how long
they are. -/
def matchesFrom (m : Matcher) : Nat → Option Char → List Char → List (Nat × Nat)
  | _, _, [] => []
  | n + 1, _, c :: rest => (matchesFrom m n (some c) rest).map fun (i, k) => (i + 1, k)
  | 0, previous, c :: rest =>
    match m previous (c :: rest) with
    | 0 => (matchesFrom m 0 (some c) rest).map fun (i, k) => (i + 1, k)
    | n + 1 => (0, n + 1) :: (matchesFrom m n (some c) rest).map fun (i, k) => (i + 1, k)

def finditer (m : Matcher) (t : List Char) : List (Nat × Nat) := matchesFrom m 0 none t

def keptFrom (m : Matcher) : Nat → Option Char → List Char → List Bool
  | _, _, [] => []
  | n + 1, _, c :: rest => false :: keptFrom m n (some c) rest
  | 0, previous, c :: rest =>
    match m previous (c :: rest) with
    | 0 => true :: keptFrom m 0 (some c) rest
    | n + 1 => false :: keptFrom m n (some c) rest

def subFrom (m : Matcher) (char : α → Char) (marker : List α) : Nat → Option Char → List α → List α
  | _, _, [] => []
  | n + 1, _, a :: rest => subFrom m char marker n (some (char a)) rest
  | 0, previous, a :: rest =>
    match m previous (char a :: rest.map char) with
    | 0 => a :: subFrom m char marker 0 (some (char a)) rest
    | n + 1 => marker ++ subFrom m char marker n (some (char a)) rest

def sub (m : Matcher) (char : α → Char) (marker items : List α) : List α :=
  subFrom m char marker 0 none items

/-- The character behind which a scan is that has passed the text. -/
def behind (previous : Option Char) (passed : List Char) : Option Char :=
  passed.foldl (fun _ c => some c) previous

theorem behind_append (previous : Option Char) (s t : List Char) :
    behind previous (s ++ t) = behind (behind previous s) t :=
  List.foldl_append

variable {previous : Option Char} {m : Matcher} {t : List Char} {Q : List Char → List Bool → Prop}
  {s : List Char} {n : Nat} {flags : List Bool}

theorem behind_of_ne_nil (h : s ≠ []) : behind previous s = some (s.getLast h) := by
  conv_lhs => rw [← List.dropLast_append_getLast h, behind_append]
  rfl

theorem subFrom_map {β : Type*} {m : Matcher} {char : α → Char} {char' : β → Char} {f : α → β}
    (hf : ∀ a, char' (f a) = char a) (marker : List α) (n : Nat) (previous : Option Char)
    (items : List α) :
    (subFrom m char marker n previous items).map f =
      subFrom m char' (marker.map f) n previous (items.map f) := by
  have hchars (rest : List α) : (rest.map f).map char' = rest.map char := by
    rw [List.map_map]
    exact List.map_congr_left fun a _ => hf a
  induction items generalizing n previous with
  | nil => cases n <;> rfl
  | cons a rest ih =>
    cases n with
    | succ n =>
      rw [subFrom, ih, List.map_cons, subFrom, hf]
    | zero =>
      rw [subFrom, List.map_cons, subFrom, hchars, hf]
      cases m previous (char a :: rest.map char) with
      | zero => rw [List.map_cons, ih]
      | succ n => rw [List.map_append, ih]

theorem subFrom_pass (m : Matcher) (char : α → Char) (marker : List α) (n : Nat)
    (previous : Option Char) (items : List α) :
    subFrom m char marker n previous items =
      subFrom m char marker 0 (behind previous ((items.take n).map char)) (items.drop n) := by
  induction n generalizing previous items with
  | zero => rfl
  | succ n ih =>
    cases items with
    | nil => rfl
    | cons a rest =>
      rw [subFrom, ih]
      rfl

/-! ### Flags beside a text -/

/-- To begin a match is to be in one. -/
theorem keptFrom_match (h : 0 < m previous t) :
    keptFrom m 0 previous t = keptFrom m (m previous t) previous t := by
  cases t with
  | nil => cases m previous [] <;> rfl
  | cons c rest =>
    conv_lhs => rw [keptFrom]
    cases hm : m previous (c :: rest) with
    | zero => rw [hm] at h; cases h
    | succ n => rfl

/-- In a match nothing is kept. -/
theorem keptFrom_pass {m : Matcher} {n k : Nat} (h : k ≤ n) {t : List Char} (hk : k ≤ t.length)
    (previous : Option Char) :
    keptFrom m n previous t =
      List.replicate k false ++ keptFrom m (n - k) (behind previous (t.take k)) (t.drop k) := by
  induction k generalizing n previous t with
  | zero => rfl
  | succ k ih =>
    obtain ⟨n, rfl⟩ : ∃ j, n = j + 1 := ⟨n - 1, by omega⟩
    cases t with
    | nil => cases hk
    | cons c rest =>
      rw [keptFrom, ih (Nat.le_of_succ_le_succ h) (Nat.le_of_succ_le_succ hk),
        Nat.add_sub_add_right, List.replicate_succ]
      rfl

/-- The property holds of every match of a scan, with the flags at its place. -/
def EachMatch (m : Matcher) (Q : List Char → List Bool → Prop) :
    Nat → Option Char → List Char → List Bool → Prop
  | _, _, [], _ => True
  | n + 1, _, c :: rest, flags => EachMatch m Q n (some c) rest flags.tail
  | 0, previous, c :: rest, flags =>
    match m previous (c :: rest) with
    | 0 => EachMatch m Q 0 (some c) rest flags.tail
    | n + 1 => Q ((c :: rest).take (n + 1)) (flags.take (n + 1)) ∧
        EachMatch m Q n (some c) rest flags.tail

theorem eachMatch_iff : EachMatch m Q n previous t flags ↔ ∀ found ∈ matchesFrom m n previous t,
        Q ((t.drop found.1).take found.2) ((flags.drop found.1).take found.2) := by
  induction t generalizing n previous flags with
  | nil => cases n <;> simp [EachMatch, matchesFrom]
  | cons c rest ih =>
    have hnext (k : Nat) : EachMatch m Q k (some c) rest flags.tail ↔
        ∀ found ∈ (matchesFrom m k (some c) rest).map fun (i, k) => (i + 1, k),
          Q (((c :: rest).drop found.1).take found.2) ((flags.drop found.1).take found.2) := by
      rw [ih, List.forall_mem_map]
      simp only [List.drop_succ_cons, List.drop_tail]
    cases n with
    | succ n =>
      rw [EachMatch, matchesFrom]
      exact hnext n
    | zero =>
      rw [EachMatch, matchesFrom]
      cases m previous (c :: rest) with
      | zero => exact hnext 0
      | succ n =>
        rw [List.forall_mem_cons]
        exact and_congr_right fun _ => hnext n

theorem eachMatch_pass : EachMatch m Q n previous t flags ↔
      EachMatch m Q 0 (behind previous (t.take n)) (t.drop n) (flags.drop n) := by
  induction n generalizing previous t flags with
  | zero => rfl
  | succ n ih =>
    cases t with
    | nil => rfl
    | cons c rest =>
      rw [EachMatch, ih, List.drop_tail]
      rfl

/-- A match at the front, and those behind it. -/
theorem eachMatch_match (hn : m previous t = n) (hpos : 0 < n) (ht : t ≠ []) :
    EachMatch m Q 0 previous t flags ↔ Q (t.take n) (flags.take n) ∧
        EachMatch m Q 0 (behind previous (t.take n)) (t.drop n) (flags.drop n) := by
  cases t with
  | nil => exact absurd rfl ht
  | cons c rest =>
    obtain ⟨n, rfl⟩ : ∃ j, n = j + 1 := ⟨n - 1, by omega⟩
    rw [EachMatch, hn]
    refine and_congr_right fun _ => ?_
    rw [eachMatch_pass, List.drop_tail]
    rfl

/-! ### Up to the next match -/

/-- What stands before the next match. -/
def untilMatch (m : Matcher) : Option Char → List Char → List Char
  | _, [] => []
  | previous, c :: rest =>
    if m previous (c :: rest) = 0 then c :: untilMatch m (some c) rest else []

theorem untilMatch_cons {c : Char} {rest : List Char} (h : m previous (c :: rest) = 0) :
    untilMatch m previous (c :: rest) = c :: untilMatch m (some c) rest :=
  if_pos h

/-- The text goes on with a match, or ends. -/
theorem untilMatch_spec (m : Matcher) (previous : Option Char) (t : List Char) :
    ∃ rest, t = untilMatch m previous t ++ rest ∧
      (rest = [] ∨ 0 < m (behind previous (untilMatch m previous t)) rest) := by
  induction t generalizing previous with
  | nil => exact ⟨[], rfl, .inl rfl⟩
  | cons c rest ih =>
    by_cases h : m previous (c :: rest) = 0
    · rw [untilMatch_cons h]
      obtain ⟨more, hmore, hend⟩ := ih (some c)
      exact ⟨more, congrArg (c :: ·) hmore, hend⟩
    · refine ⟨c :: rest, ?_, .inr ?_⟩
      · rw [untilMatch, if_neg h]
        rfl
      · rw [untilMatch, if_neg h]
        exact Nat.pos_of_ne_zero h

theorem untilMatch_take (m : Matcher) (previous : Option Char) (t : List Char) :
    t.take (untilMatch m previous t).length = untilMatch m previous t := by
  obtain ⟨rest, hsplit, -⟩ := untilMatch_spec m previous t
  generalize untilMatch m previous t = u at hsplit ⊢
  rw [hsplit, List.take_left]

theorem untilMatch_drop (m : Matcher) (previous : Option Char) (t : List Char) :
    t.drop (untilMatch m previous t).length = [] ∨ 0 < m (behind previous (untilMatch m previous t))
        (t.drop (untilMatch m previous t).length) := by
  obtain ⟨rest, hsplit, hend⟩ := untilMatch_spec m previous t
  generalize untilMatch m previous t = u at hsplit hend ⊢
  rw [hsplit, List.drop_left]
  exact hend

/-- Before the next match everything is kept. -/
theorem keptFrom_untilMatch {m : Matcher} {k : Nat} {previous : Option Char} {t : List Char}
    (hk : k ≤ (untilMatch m previous t).length) :
    keptFrom m 0 previous t =
        List.replicate k true ++ keptFrom m 0 (behind previous (t.take k)) (t.drop k) ∧
      untilMatch m (behind previous (t.take k)) (t.drop k) = (untilMatch m previous t).drop k := by
  induction k generalizing previous t with
  | zero => exact ⟨rfl, rfl⟩
  | succ k ih =>
    cases t with
    | nil => cases hk
    | cons c rest =>
      by_cases h : m previous (c :: rest) = 0
      · rw [untilMatch_cons h] at hk ⊢
        obtain ⟨hkept, huntil⟩ := ih (Nat.le_of_succ_le_succ hk)
        refine ⟨?_, huntil⟩
        rw [keptFrom, h]
        exact congrArg (true :: ·) hkept
      · rw [untilMatch, if_neg h] at hk
        cases hk

/-- What a substitution makes of a text: what stands before the next match, and then a marker,
if there is a match. -/
theorem subFrom_untilMatch (m : Matcher) (marker : List Char) (previous : Option Char)
    (t : List Char) :
    (t = untilMatch m previous t ∧ subFrom m id marker 0 previous t = t) ∨
      ∃ c rest more, t = untilMatch m previous t ++ c :: rest ∧
        0 < m (behind previous (untilMatch m previous t)) (c :: rest) ∧
          subFrom m id marker 0 previous t = untilMatch m previous t ++ (marker ++ more) := by
  induction t generalizing previous with
  | nil => exact .inl ⟨rfl, rfl⟩
  | cons c rest ih =>
    rw [subFrom]
    simp only [id, List.map_id_fun]
    by_cases h : m previous (c :: rest) = 0
    · rw [untilMatch_cons h, h]
      rcases ih (some c) with ⟨huntil, hsub⟩ | ⟨d, after, more, huntil, hpos, hsub⟩
      · exact .inl ⟨congrArg (c :: ·) huntil, congrArg (c :: ·) hsub⟩
      · exact .inr ⟨d, after, more, congrArg (c :: ·) huntil, hpos, congrArg (c :: ·) hsub⟩
    · rw [untilMatch, if_neg h]
      obtain ⟨n, hn⟩ := Nat.exists_eq_succ_of_ne_zero h
      rw [hn]
      refine .inr ⟨c, rest, _, rfl, ?_, rfl⟩
      exact Nat.pos_of_ne_zero h

/-! ### One substitution after another -/

/-- A pattern that asks nothing of the character in front, as the second substitution. -/
abbrev Pattern := List Char → Nat

/-- The pattern stops at the marker: nothing begins in it, and nothing reaches over it. -/
structure Stops (second : Pattern) (marker : List Char) : Prop where
  free : ∀ x y, x ≠ [] → x <:+ marker → second (x ++ y) = 0
  stop : ∀ x y, second (x ++ (marker ++ y)) = second x
  le : ∀ x, second x ≤ x.length

def goneFrom (first : Matcher) (second : Pattern) : Nat → Nat → Option Char → List Char → List Bool
  | _, _, _, [] => []
  | n + 1, _, _, c :: rest => true :: goneFrom first second n 0 (some c) rest
  | 0, k, previous, c :: rest =>
    match first previous (c :: rest) with
    | n + 1 => true :: goneFrom first second n 0 (some c) rest
    | 0 =>
      match k with
      | k + 1 => true :: goneFrom first second 0 k (some c) rest
      | 0 =>
        match second (untilMatch first previous (c :: rest)) with
        | 0 => false :: goneFrom first second 0 0 (some c) rest
        | k + 1 => true :: goneFrom first second 0 k (some c) rest

/-- A scan passes over a marker at which its pattern stops. -/
theorem subFrom_marker {second : Pattern} {char : α → Char} {marker : List α}
    (hstops : Stops second (marker.map char)) {shown : List α} (hshown : shown <:+ marker)
    (replacement : List α) (previous : Option Char) (rest : List α) :
    ∃ previous', subFrom (fun _ => second) char replacement 0 previous (shown ++ rest) =
      shown ++ subFrom (fun _ => second) char replacement 0 previous' rest := by
  induction shown generalizing previous with
  | nil => exact ⟨previous, rfl⟩
  | cons a shown ih =>
    have hfree := hstops.free ((a :: shown).map char) (rest.map char) (by simp) (hshown.map char)
    obtain ⟨previous', hrest⟩ := ih ((List.suffix_cons a shown).trans hshown) (some (char a))
    refine ⟨previous', ?_⟩
    have hfree' : second (char a :: (shown ++ rest).map char) = 0 := by
      simpa using hfree
    rw [List.cons_append, subFrom, hfree', hrest]
    rfl

/-- The second substitution sees no more than what stands before the next match of the first. -/
theorem second_subFrom {first : Matcher} {second : Pattern} {char : α → Char} {marker : List α}
    (hstops : Stops second (marker.map char)) {previous : Option Char} {items : List α} :
    second ((subFrom first char marker 0 previous items).map char) =
      second (untilMatch first previous (items.map char)) := by
  have hmap := @subFrom_map α Char first char id char (fun _ => rfl) marker 0 previous items
  rw [hmap]
  rcases subFrom_untilMatch first (marker.map char) previous (items.map char) with
    ⟨huntil, hsub⟩ | ⟨c, rest, more, _, _, hsub⟩
  · rw [hsub, ← huntil]
  · rw [hsub, hstops.stop]

/-- **What is left of the items after both substitutions.** -/
theorem filter_sub_sub {first : Matcher} {second : Pattern} {char : α → Char} {marker : List α}
    {isInput : α → Bool} (hstops : Stops second (marker.map char))
    (hmarker : ∀ a ∈ marker, isInput a = false) {items : List α}
    (hitems : ∀ a ∈ items, isInput a = true) {n k : Nat} {previous : Option Char}
    (hk : k ≤ if n = 0 then (untilMatch first previous (items.map char)).length else 0)
    (previous' : Option Char) :
    (subFrom (fun _ => second) char marker k previous'
        (subFrom first char marker n previous items)).filter isInput =
      ((items.zip (goneFrom first second n k previous (items.map char))).filter (!·.2)).map
        (·.1) := by
  induction items generalizing n k previous previous' with
  | nil => cases n <;> cases k <;> rfl
  | cons a rest ih =>
    have hrest : ∀ b ∈ rest, isInput b = true := fun b hb =>
      hitems b (List.mem_cons_of_mem a hb)
    cases n with
    | succ n =>
      obtain rfl : k = 0 := by simpa using hk
      rw [subFrom, List.map_cons, goneFrom, ih hrest (Nat.zero_le _)]
      rfl
    | zero =>
      rw [if_pos rfl, List.map_cons] at hk
      rw [subFrom, List.map_cons, goneFrom.eq_def]
      dsimp only
      cases hfirst : first previous (char a :: rest.map char) with
      | succ n =>
        rw [untilMatch, if_neg (by omega)] at hk
        obtain rfl : k = 0 := by simpa using hk
        obtain ⟨p, hpass⟩ := subFrom_marker hstops (List.suffix_refl marker) marker previous'
          (subFrom first char marker n (some (char a)) rest)
        have hnone : marker.filter isInput = [] := by
          rw [List.filter_eq_nil_iff]
          intro b hb
          rw [hmarker b hb]
          exact Bool.false_ne_true
        rw [hpass, List.filter_append, hnone, List.nil_append, ih hrest (Nat.zero_le _)]
        rfl
      | zero =>
        rw [untilMatch_cons hfirst, List.length_cons] at hk
        cases k with
        | succ k =>
          rw [subFrom, ih hrest (by rw [if_pos rfl]; omega)]
          rfl
        | zero =>
          have hsecond := @second_subFrom α first second char marker hstops previous (a :: rest)
          rw [subFrom, List.map_cons, hfirst] at hsecond
          rw [List.map_cons] at hsecond
          rw [subFrom, hsecond]
          cases hs : second (untilMatch first previous (char a :: rest.map char)) with
          | zero =>
            rw [List.filter_cons_of_pos (hitems a List.mem_cons_self), ih hrest (Nat.zero_le _)]
            rfl
          | succ k =>
            have hle := hstops.le (untilMatch first previous (char a :: rest.map char))
            rw [hs, untilMatch_cons hfirst, List.length_cons] at hle
            have hnone : marker.filter isInput = [] := by
              rw [List.filter_eq_nil_iff]
              intro b hb
              rw [hmarker b hb]
              exact Bool.false_ne_true
            rw [List.filter_append, hnone, List.nil_append, ih hrest (by rw [if_pos rfl]; omega)]
            rfl

/-! ### What is gone -/

variable {first : Matcher} {second : Pattern}

/-- For every character of a text without a match of the first, whether the second hides it. -/
def hiddenFrom (second : Pattern) : Nat → List Char → List Bool
  | _, [] => []
  | n + 1, _ :: rest => true :: hiddenFrom second n rest
  | 0, c :: rest =>
    match second (c :: rest) with
    | 0 => false :: hiddenFrom second 0 rest
    | n + 1 => true :: hiddenFrom second n rest

theorem length_hiddenFrom (n : Nat) (t : List Char) :
    (hiddenFrom second n t).length = t.length := by
  induction t generalizing n with
  | nil => cases n <;> rfl
  | cons c rest ih =>
    cases n with
    | succ n => rw [hiddenFrom, List.length_cons, List.length_cons, ih]
    | zero =>
      rw [hiddenFrom]
      cases second (c :: rest) with
      | zero | succ n => rw [List.length_cons, List.length_cons, ih]

theorem length_goneFrom (n k : Nat) (previous : Option Char) (t : List Char) :
    (goneFrom first second n k previous t).length = t.length := by
  induction t generalizing n k previous with
  | nil => cases n <;> rfl
  | cons c rest ih =>
    cases n with
    | succ n => rw [goneFrom, List.length_cons, List.length_cons, ih]
    | zero =>
      rw [goneFrom.eq_def]
      dsimp only
      split
      · rw [List.length_cons, List.length_cons, ih]
      · split
        · rw [List.length_cons, List.length_cons, ih]
        · split
          · rw [List.length_cons, List.length_cons, ih]
          · rw [List.length_cons, List.length_cons, ih]

theorem goneFrom_match (h : 0 < first previous t) : goneFrom first second 0 0 previous t =
      goneFrom first second (first previous t) 0 previous t := by
  cases t with
  | nil => cases first previous [] <;> rfl
  | cons c rest =>
    rw [goneFrom.eq_def]
    dsimp only
    cases hm : first previous (c :: rest) with
    | zero => rw [hm] at h; cases h
    | succ n => rw [goneFrom]

/-- In a match of the first everything is gone. -/
theorem goneFrom_pass {n k : Nat} (h : k ≤ n) {t : List Char} (hk : k ≤ t.length)
    (previous : Option Char) :
    goneFrom first second n 0 previous t = List.replicate k true ++
      goneFrom first second (n - k) 0 (behind previous (t.take k)) (t.drop k) := by
  induction k generalizing n previous t with
  | zero => rfl
  | succ k ih =>
    obtain ⟨n, rfl⟩ : ∃ j, n = j + 1 := ⟨n - 1, by omega⟩
    cases t with
    | nil => cases hk
    | cons c rest =>
      rw [goneFrom, ih (Nat.le_of_succ_le_succ h) (Nat.le_of_succ_le_succ hk),
        Nat.add_sub_add_right, List.replicate_succ]
      rfl

/-- Before the next match of the first, what the second hides is gone. -/
theorem goneFrom_untilMatch {k : Nat} {previous : Option Char} {t : List Char}
    (hle : ∀ x, second x ≤ x.length) (hk : k ≤ (untilMatch first previous t).length) :
    goneFrom first second 0 k previous t = hiddenFrom second k (untilMatch first previous t) ++
        goneFrom first second 0 0 (behind previous (untilMatch first previous t))
          (t.drop (untilMatch first previous t).length) := by
  induction t generalizing k previous with
  | nil => cases k <;> rfl
  | cons c rest ih =>
    by_cases h : first previous (c :: rest) = 0
    · rw [untilMatch_cons h] at hk ⊢
      rw [goneFrom.eq_def]
      dsimp only
      rw [h, untilMatch_cons h]
      cases k with
      | succ k =>
        dsimp only
        rw [ih (Nat.le_of_succ_le_succ hk)]
        rfl
      | zero =>
        rw [hiddenFrom]
        have hle' := hle (c :: untilMatch first (some c) rest)
        cases hs : second (c :: untilMatch first (some c) rest) with
        | zero =>
          rw [ih (Nat.zero_le _)]
          rfl
        | succ k =>
          rw [hs] at hle'
          dsimp only
          rw [ih (Nat.le_of_succ_le_succ hle')]
          rfl
    · rw [untilMatch, if_neg h] at hk ⊢
      obtain rfl : k = 0 := by simpa using hk
      rfl

theorem hiddenFrom_pass (h : n ≤ t.length) :
    hiddenFrom second n t = List.replicate n true ++ hiddenFrom second 0 (t.drop n) := by
  induction n generalizing t with
  | zero => rfl
  | succ n ih =>
    cases t with
    | nil => cases h
    | cons c rest =>
      rw [hiddenFrom, ih (Nat.le_of_succ_le_succ h)]
      rfl

theorem hiddenFrom_match (h : 0 < second t) :
    hiddenFrom second 0 t = hiddenFrom second (second t) t := by
  cases t with
  | nil => cases second [] <;> rfl
  | cons c rest =>
    conv_lhs => rw [hiddenFrom]
    cases hm : second (c :: rest) with
    | zero => rw [hm] at h; cases h
    | succ n => rfl

/-! ### Substituting again -/

/-- The pattern matches nowhere in the text. -/
def Free (m : Matcher) : Option Char → List Char → Prop
  | _, [] => True
  | previous, c :: rest => m previous (c :: rest) = 0 ∧ Free m (some c) rest

theorem subFrom_of_free {marker : List Char} (h : Free m previous t) :
    subFrom m id marker 0 previous t = t := by
  induction t generalizing previous with
  | nil => rfl
  | cons c rest ih =>
    rw [subFrom]
    simp only [id, List.map_id_fun]
    rw [h.1, ih h.2]

theorem Free.pass (h : Free m previous t) (n : Nat) :
    Free m (behind previous (t.take n)) (t.drop n) := by
  induction n generalizing previous t with
  | zero => exact h
  | succ n ih =>
    cases t with
    | nil => exact h
    | cons c rest => exact ih h.2

theorem free_append (hs : ∀ p x, x ≠ [] → x <:+ s → m p (x ++ t) = 0)
    (ht : Free m (behind previous s) t) :
    Free m previous (s ++ t) := by
  induction s generalizing previous with
  | nil => exact ht
  | cons c s ih =>
    refine ⟨hs previous (c :: s) (List.cons_ne_nil c s) (List.suffix_refl _), ?_⟩
    exact ih (fun p x hx hsuffix => hs p x hx (hsuffix.trans (List.suffix_cons c s))) ht

/-- **A pattern matches nowhere after a substitution**, if it matches neither in the markers nor
before them.  `R` is what is known of a place: of the character in front of it, of the one in
front of it afterwards, and of the text that follows. -/
theorem free_subFrom {m m' : Matcher} {marker : List Char} (hne : marker ≠ [])
    {R : Option Char → Option Char → List Char → Prop}
    (hmarker : ∀ p x y, x ≠ [] → x <:+ marker → m' p (x ++ y) = 0)
    (hkeep : ∀ p p' c rest, R p p' (c :: rest) → m p (c :: rest) = 0 → R (some c) (some c) rest)
    (hmatch : ∀ p p' t, R p p' t → 0 < m p t →
      R (behind p (t.take (m p t))) (some (marker.getLast hne)) (t.drop (m p t)))
    (hfree : ∀ p p' c rest, R p p' (c :: rest) → m p (c :: rest) = 0 →
      m' p' (subFrom m id marker 0 p (c :: rest)) = 0)
    {p p' : Option Char} {t : List Char} (h : R p p' t) :
    Free m' p' (subFrom m id marker 0 p t) := by
  induction hlength : t.length using Nat.strongRecOn generalizing p p' t with
  | ind length ih =>
    cases t with
    | nil => exact trivial
    | cons c rest =>
      by_cases hnone : m p (c :: rest) = 0
      · have hfirst := hfree p p' c rest h hnone
        have hrest := ih rest.length (by simp at hlength; omega) (hkeep p p' c rest h hnone) rfl
        have hsub : subFrom m id marker 0 p (c :: rest) =
            c :: subFrom m id marker 0 (some c) rest := by
          rw [subFrom]
          simp only [id, List.map_id_fun]
          rw [hnone]
        rw [hsub] at hfirst ⊢
        exact ⟨hfirst, hrest⟩
      · have hpos : 0 < m p (c :: rest) := Nat.pos_of_ne_zero hnone
        have hnext := hmatch p p' (c :: rest) h hpos
        have hsub : subFrom m id marker 0 p (c :: rest) = marker ++
            subFrom m id marker 0 (behind p ((c :: rest).take (m p (c :: rest))))
              ((c :: rest).drop (m p (c :: rest))) := by
          rw [subFrom]
          simp only [id, List.map_id_fun]
          obtain ⟨n, hn⟩ := Nat.exists_eq_succ_of_ne_zero hnone
          rw [hn]
          dsimp only
          rw [subFrom_pass]
          simp only [id, List.map_id_fun]
          rfl
        rw [hsub]
        refine free_append (fun q x hx hsuffix => hmarker q x _ hx hsuffix) ?_
        rw [behind_of_ne_nil hne]
        refine ih _ ?_ hnext rfl
        rw [List.length_drop, ← hlength, List.length_cons]
        omega

end Substitute
