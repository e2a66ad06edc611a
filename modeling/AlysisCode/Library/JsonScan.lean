/-
Numbers and strings of a JSON text, as `json.dumps` writes them, with or without
`ensure_ascii`, and `json.loads` reads them.

What is written is read back whatever follows it, as long as that does not go on with the
number.  A float is written and read by `repr` and `float`, of which `Floats` says what
Python promises: the text is a decimal literal, or one of three words, and names the float.
-/
import Mathlib.Data.List.TakeWhile
import Mathlib.Tactic.IntervalCases
import AlysisCode.Library.Json

namespace Json

/-! ### Numbers -/

def scanSign : List Char → List Char × List Char
  | '-' :: t => (['-'], t)
  | t => ([], t)

/-- `0|[1-9]\d*` -/
def scanDigits : List Char → Option (List Char × List Char)
  | [] => none
  | c :: t =>
    if c = '0' then some (['0'], t)
    else if c.isDigit then some (c :: t.takeWhile Char.isDigit, t.dropWhile Char.isDigit)
    else none

/-- `(\.\d+)?` -/
def scanFraction : List Char → List Char × List Char
  | [] => ([], [])
  | c :: t =>
    if c = '.' ∧ t.head?.any Char.isDigit then
      (c :: t.takeWhile Char.isDigit, t.dropWhile Char.isDigit)
    else ([], c :: t)

/-- `[-+]?` -/
def scanExponentSign : List Char → List Char × List Char
  | '+' :: t => (['+'], t)
  | '-' :: t => (['-'], t)
  | t => ([], t)

/-- `([eE][-+]?\d+)?` -/
def scanExponent : List Char → List Char × List Char
  | [] => ([], [])
  | c :: t =>
    let (sign, digits) := scanExponentSign t
    if (c = 'e' ∨ c = 'E') ∧ digits.head?.any Char.isDigit then
      (c :: sign ++ digits.takeWhile Char.isDigit, digits.dropWhile Char.isDigit)
    else ([], c :: t)

/-- `-?(0|[1-9]\d*)` -/
structure IsInteger (sign digits : List Char) : Prop where
  sign : sign = [] ∨ sign = ['-']
  digits : digits = ['0'] ∨ ∃ c ds, digits = c :: ds ∧ c ≠ '0' ∧ ∀ d ∈ digits, d.isDigit = true

def IsFraction (t : List Char) : Prop :=
  t = [] ∨ ∃ ds, t = '.' :: ds ∧ ds ≠ [] ∧ ∀ d ∈ ds, d.isDigit = true

def IsExponent (t : List Char) : Prop :=
  t = [] ∨ ∃ c sign ds, t = c :: sign ++ ds ∧ (c = 'e' ∨ c = 'E') ∧
    (sign = [] ∨ sign = ['+'] ∨ sign = ['-']) ∧ ds ≠ [] ∧ ∀ d ∈ ds, d.isDigit = true

/-- The text of a number that is no integer. -/
def IsFloatText (t : List Char) : Prop :=
  ∃ sign digits frac exp, t = sign ++ digits ++ frac ++ exp ∧ IsInteger sign digits ∧
    IsFraction frac ∧ IsExponent exp ∧ (frac ≠ [] ∨ exp ≠ [])

/-- The texts of the floats that are no numbers. -/
def specialTexts : List String := ["NaN", "Infinity", "-Infinity"]

/-- Python's floats: `math.isfinite`, `repr` (of the special ones as `json` writes them) and
`float`. -/
class Floats (F : Type) where
  isFinite : F → Bool
  repr : F → String
  ofText : String → F
  repr_text : ∀ x, isFinite x = true → IsFloatText (repr x).toList
  repr_special : ∀ x, isFinite x = false → repr x ∈ specialTexts
  ofText_repr : ∀ x, ofText (repr x) = x

/-- No float but NaN. -/
instance : Floats Unit where
  isFinite _ := false
  repr _ := "NaN"
  ofText _ := ()
  repr_text _ h := by cases h
  repr_special _ _ := List.mem_cons_self
  ofText_repr _ := rfl

def intText : Int → List Char
  | .ofNat n => Nat.toDigits 10 n
  | .negSucc n => '-' :: Nat.toDigits 10 (n + 1)

/-- `int(text)`, of a sign and digits. -/
def intOf (sign digits : List Char) : Int :=
  if sign = ['-'] then -(Nat.ofDigitChars 10 digits 0 : Int) else Nat.ofDigitChars 10 digits 0

variable {F : Type} {sign digits t : List Char}

/-- `NUMBER_RE.match`, and what the scanner makes of it. -/
def scanNumber [Floats F] (t : List Char) : Option (Json F × List Char) := do
  let (sign, t) := scanSign t
  let (digits, t) ← scanDigits t
  let (frac, t) := scanFraction t
  let (exp, t) := scanExponent t
  if frac = [] ∧ exp = [] then some (.int (intOf sign digits), t)
  else some (.float (Floats.ofText (String.ofList (sign ++ digits ++ frac ++ exp))), t)

/-- The text goes on with something else than the number before it. -/
def EndsNumber (t : List Char) : Prop :=
  ∀ c ∈ t.head?, c.isDigit = false ∧ c ≠ '.' ∧ c ≠ 'e' ∧ c ≠ 'E'

theorem takeWhile_append_of_head {p : Char → Bool} {s : List Char} (hs : ∀ c ∈ s, p c = true)
    (ht : ∀ c ∈ t.head?, p c = false) :
    (s ++ t).takeWhile p = s ∧ (s ++ t).dropWhile p = t := by
  have hnil : t.takeWhile p = [] ∧ t.dropWhile p = t := by
    cases t with
    | nil => exact ⟨rfl, rfl⟩
    | cons c rest => simp [ht c rfl]
  rw [List.takeWhile_append_of_pos hs, List.dropWhile_append_of_pos hs, hnil.1, hnil.2]
  exact ⟨List.append_nil s, rfl⟩

theorem scanDigits_append (h : IsInteger sign digits) (ht : ∀ c ∈ t.head?, c.isDigit = false) :
    scanDigits (digits ++ t) = some (digits, t) := by
  rcases h.digits with rfl | ⟨c, ds, rfl, hc, hds⟩
  · rfl
  · have hspan := takeWhile_append_of_head (fun d hd => hds d (List.mem_cons_of_mem _ hd)) ht
    rw [List.cons_append, scanDigits, if_neg hc, if_pos (hds c List.mem_cons_self), hspan.1,
      hspan.2]

theorem scanSign_append (h : IsInteger sign digits) :
    scanSign (sign ++ (digits ++ t)) = (sign, digits ++ t) := by
  rcases h.sign with rfl | rfl
  · have hne : ∀ rest, digits ++ t = '-' :: rest → False := by
      intro rest heq
      rcases h.digits with rfl | ⟨c, ds, rfl, -, hds⟩
      · simp at heq
      · obtain ⟨rfl, -⟩ := List.cons.inj heq
        exact absurd (hds '-' List.mem_cons_self) (by decide)
    rw [List.nil_append, scanSign]
    exact hne
  · rfl

variable (ascii : Bool) {n : Nat} {frac exp ds : List Char}

theorem scanFraction_append (h : IsFraction frac) (ht : ∀ c ∈ t.head?, c.isDigit = false ∧ c ≠ '.') :
    scanFraction (frac ++ t) = (frac, t) := by
  rcases h with rfl | ⟨ds, rfl, hne, hds⟩
  · cases t with
    | nil => rfl
    | cons c rest => rw [List.nil_append, scanFraction, if_neg fun h => (ht c rfl).2 h.1]
  · obtain ⟨d, rest, rfl⟩ := List.exists_cons_of_ne_nil hne
    have hspan := takeWhile_append_of_head hds fun c hc => (ht c hc).1
    rw [List.cons_append, scanFraction, if_pos, hspan.1, hspan.2]
    exact ⟨rfl, by simpa using hds d List.mem_cons_self⟩

theorem scanExponentSign_append (h : sign = [] ∨ sign = ['+'] ∨ sign = ['-'])
    (hds : ∀ c ∈ ds.head?, c.isDigit = true) (hne : ds ≠ []) :
    scanExponentSign (sign ++ (ds ++ t)) = (sign, ds ++ t) := by
  obtain ⟨d, rest, rfl⟩ := List.exists_cons_of_ne_nil hne
  rcases h with rfl | rfl | rfl
  · have hd := hds d rfl
    have hsign : ∀ c rest', c.isDigit = false → d :: (rest ++ t) = c :: rest' → False := by
      intro c rest' hc heq
      rw [(List.cons.inj heq).1, hc] at hd
      cases hd
    rw [List.nil_append, List.cons_append, scanExponentSign]
    · exact fun rest' => hsign '+' rest' (by decide)
    · exact fun rest' => hsign '-' rest' (by decide)
  · rfl
  · rfl

theorem scanExponent_append (h : IsExponent exp) (ht : EndsNumber t) :
    scanExponent (exp ++ t) = (exp, t) := by
  rcases h with rfl | ⟨c, sign, ds, rfl, hc, hsign, hne, hds⟩
  · cases t with
    | nil => rfl
    | cons c rest =>
      obtain ⟨-, -, he, hE⟩ := ht c rfl
      simp [scanExponent, he, hE]
  · have hspan := takeWhile_append_of_head hds fun c hc => (ht c hc).1
    have hhead : ∀ c ∈ ds.head?, c.isDigit = true := fun c hc =>
      hds c (List.mem_of_mem_head? hc)
    have hany : (ds ++ t).head?.any Char.isDigit = true := by
      obtain ⟨d, rest, rfl⟩ := List.exists_cons_of_ne_nil hne
      exact hds d List.mem_cons_self
    rw [List.append_assoc, List.cons_append, scanExponent, scanExponentSign_append hsign hhead hne]
    simp only [hc, hany, and_self, if_true, hspan.1, hspan.2]

/-- A number read off the front of a text. -/
theorem scanNumber_append [Floats F] (hint : IsInteger sign digits) (hfrac : IsFraction frac)
    (hexp : IsExponent exp) (ht : EndsNumber t) :
    scanNumber (F := F) (sign ++ (digits ++ (frac ++ (exp ++ t)))) =
      if frac = [] ∧ exp = [] then some (.int (intOf sign digits), t)
      else some (.float (Floats.ofText (String.ofList (sign ++ digits ++ frac ++ exp))), t) := by
  have hexpHead : ∀ c ∈ (exp ++ t).head?, c.isDigit = false ∧ c ≠ '.' := by
    rcases hexp with rfl | ⟨c, sign, ds, rfl, hc, -⟩
    · exact fun c hc => ⟨(ht c hc).1, (ht c hc).2.1⟩
    · intro c' hc'
      cases hc'
      rcases hc with rfl | rfl <;> exact ⟨by decide, by decide⟩
  have hfracHead : ∀ c ∈ (frac ++ (exp ++ t)).head?, c.isDigit = false := by
    rcases hfrac with rfl | ⟨ds, rfl, -⟩
    · exact fun c hc => (hexpHead c hc).1
    · intro c hc
      cases hc
      decide
  unfold scanNumber
  rw [scanSign_append hint]
  dsimp only
  rw [scanDigits_append hint hfracHead]
  dsimp only [Option.bind_eq_bind, Option.bind_some]
  rw [scanFraction_append hfrac hexpHead]
  rw [scanExponent_append hexp ht]

/-- A number other than zero begins with another digit. -/
theorem head_toDigits (hn : n ≠ 0) {c : Char} (h : Nat.toDigits 10 n = c :: ds) : c ≠ '0' := by
  induction n using Nat.strongRecOn generalizing ds with
  | ind n ih =>
    by_cases hlt : n < 10
    · rw [Nat.toDigits_of_lt_base hlt] at h
      obtain ⟨rfl, -⟩ := List.cons.inj h
      interval_cases n
      · exact absurd rfl hn
      all_goals decide
    · rw [Nat.toDigits_of_base_le (by omega) (by omega)] at h
      have hdiv : n / 10 ≠ 0 := by omega
      obtain ⟨c', ds', hds'⟩ :=
        List.exists_cons_of_ne_nil (Nat.toDigits_ne_nil (n := n / 10) (b := 10))
      rw [hds', List.cons_append] at h
      obtain ⟨rfl, -⟩ := List.cons.inj h
      exact ih (n / 10) (by omega) hdiv hds'

theorem isInteger_of_nat (hsign : sign = [] ∨ sign = ['-']) (n : Nat) :
    IsInteger sign (Nat.toDigits 10 n) := by
  refine ⟨hsign, ?_⟩
  by_cases hn : n = 0
  · subst hn
    exact .inl (by decide)
  · right
    obtain ⟨c, ds, hds⟩ := List.exists_cons_of_ne_nil (Nat.toDigits_ne_nil (n := n) (b := 10))
    refine ⟨c, ds, hds, ?_, fun d hd => Nat.isDigit_of_mem_toDigits (by omega) (le_refl 10) hd⟩
    exact head_toDigits hn hds

/-- An integer is read back. -/
theorem scanNumber_int [Floats F] (n : Int) (ht : EndsNumber t) :
    scanNumber (F := F) (intText n ++ t) = some (.int n, t) := by
  cases n with
  | ofNat n =>
    have h := scanNumber_append (F := F) (isInteger_of_nat (.inl rfl) n) (.inl rfl) (.inl rfl) ht
    rw [if_pos ⟨rfl, rfl⟩] at h
    refine h.trans ?_
    rw [intOf, if_neg (by decide), Nat.ofDigitChars_ten_toDigits]
    rfl
  | negSucc n =>
    have h := scanNumber_append (F := F) (isInteger_of_nat (.inr rfl) (n + 1)) (.inl rfl)
      (.inl rfl) ht
    rw [if_pos ⟨rfl, rfl⟩] at h
    refine h.trans ?_
    rw [intOf, if_pos rfl, Nat.ofDigitChars_ten_toDigits]
    rfl

/-- A finite float is read back. -/
theorem scanNumber_float [Floats F] {x : F} (hx : Floats.isFinite x = true) (ht : EndsNumber t) :
    scanNumber (F := F) ((Floats.repr x).toList ++ t) = some (.float x, t) := by
  obtain ⟨sign, digits, frac, exp, heq, hint, hfrac, hexp, hne⟩ := Floats.repr_text x hx
  have h := scanNumber_append (F := F) hint hfrac hexp ht
  have hnot : ¬(frac = [] ∧ exp = []) := fun hboth => hne.elim (· hboth.1) (· hboth.2)
  rw [if_neg hnot, ← heq, String.ofList_toList, Floats.ofText_repr x] at h
  rw [heq]
  simpa using h

/-! ### Strings -/

/-- `\\u` and four hexadecimal digits. -/
def unicodeEscape (n : Nat) : List Char :=
  ['\\', 'u', Nat.digitChar (n / 4096), Nat.digitChar (n / 256 % 16),
    Nat.digitChar (n / 16 % 16), Nat.digitChar (n % 16)]

/-- A character inside a written string; `ascii` leaves none outside ASCII. -/
def escapeChar (ascii : Bool) (c : Char) : List Char :=
  if c = '"' then ['\\', '"']
  else if c = '\\' then ['\\', '\\']
  else if c = '\n' then ['\\', 'n']
  else if c = '\r' then ['\\', 'r']
  else if c = '\t' then ['\\', 't']
  else if c = '\x0c' then ['\\', 'f']
  else if c = '\x08' then ['\\', 'b']
  else if c.toNat < 0x20 then unicodeEscape c.toNat
  else if ascii && 0x7F ≤ c.toNat then
    if c.toNat < 0x10000 then unicodeEscape c.toNat
    else unicodeEscape (0xD800 + (c.toNat - 0x10000) / 0x400) ++
      unicodeEscape (0xDC00 + (c.toNat - 0x10000) % 0x400)
  else [c]

def quote (ascii : Bool) (s : String) : List Char :=
  '"' :: s.toList.flatMap (escapeChar ascii) ++ ['"']

/-- `_HEXDIGITS`, one of them. -/
def hexValue (c : Char) : Option Nat :=
  if c.isDigit then some (c.toNat - '0'.toNat)
  else if 'a' ≤ c ∧ c ≤ 'f' then some (c.toNat - 'a'.toNat + 10)
  else if 'A' ≤ c ∧ c ≤ 'F' then some (c.toNat - 'A'.toNat + 10)
  else none

/-- Four of them, and what follows. -/
def hexValues : List Char → Option (Nat × List Char)
  | a :: b :: c :: d :: t => do
    let a ← hexValue a
    let b ← hexValue b
    let c ← hexValue c
    let d ← hexValue d
    some (((a * 16 + b) * 16 + c) * 16 + d, t)
  | _ => none

/-- `BACKSLASH` -/
def unescape (c : Char) : Option Char :=
  if c = '"' ∨ c = '\\' ∨ c = '/' then some c
  else if c = 'b' then some '\x08'
  else if c = 'f' then some '\x0c'
  else if c = 'n' then some '\n'
  else if c = 'r' then some '\r'
  else if c = 't' then some '\t'
  else none

/-- The character behind `\u`.  Half of a surrogate pair alone is no character and is
refused. -/
def scanUnicode (t : List Char) : Option (Char × List Char) := do
  let (high, t) ← hexValues t
  if 0xD800 ≤ high ∧ high ≤ 0xDBFF then
    match t with
    | '\\' :: 'u' :: t =>
      let (low, t) ← hexValues t
      if 0xDC00 ≤ low ∧ low ≤ 0xDFFF then
        some (Char.ofNat (0x10000 + (high - 0xD800) * 0x400 + (low - 0xDC00)), t)
      else none
    | _ => none
  else if 0xDC00 ≤ high ∧ high ≤ 0xDFFF then none
  else some (Char.ofNat high, t)

/-- A character of a string: itself, or what its escape stands for. -/
def scanChar : List Char → Option (Char × List Char)
  | [] => none
  | '\\' :: 'u' :: t => scanUnicode t
  | '\\' :: e :: t => (unescape e).map (·, t)
  | c :: t => if c = '\\' ∨ c.toNat < 0x20 then none else some (c, t)

/-- `scanstring`, behind the opening quote, for a text of at most `fuel` characters. -/
def scanStringFuel : Nat → List Char → Option (List Char × List Char)
  | 0, _ => none
  | _ + 1, '"' :: t => some ([], t)
  | fuel + 1, t => do
    let (c, t) ← scanChar t
    let (s, t) ← scanStringFuel fuel t
    some (c :: s, t)

def scanString (t : List Char) : Option (List Char × List Char) := scanStringFuel t.length t

/-- Four written digits are read back. -/
theorem hexValues_digits (hn : n < 0x10000) (t : List Char) :
    hexValues (Nat.digitChar (n / 4096) :: Nat.digitChar (n / 256 % 16) ::
      Nat.digitChar (n / 16 % 16) :: Nat.digitChar (n % 16) :: t) = some (n, t) := by
  have hall : ∀ d < 16, hexValue (Nat.digitChar d) = some d := by decide
  rw [hexValues, hall _ (by omega), hall _ (by omega), hall _ (by omega), hall _ (by omega)]
  simp only [Option.bind_eq_bind, Option.bind_some, Option.some.injEq, Prod.mk.injEq, and_true]
  omega

/-- A character that is no half of a surrogate pair is read back from its digits. -/
theorem scanChar_unicodeEscape (hn : n < 0x10000) (hhalf : n < 0xD800 ∨ 0xDFFF < n) (t : List Char) :
    scanChar (unicodeEscape n ++ t) = some (Char.ofNat n, t) := by
  have hhigh : ¬(0xD800 ≤ n ∧ n ≤ 0xDBFF) := by omega
  have hlow : ¬(0xDC00 ≤ n ∧ n ≤ 0xDFFF) := by omega
  show scanUnicode (Nat.digitChar _ :: Nat.digitChar _ :: Nat.digitChar _ :: Nat.digitChar _ :: t) = _
  simp only [scanUnicode, hexValues_digits hn, Option.bind_eq_bind, Option.bind_some, if_neg hhigh,
    if_neg hlow]

/-- Both halves of a surrogate pair are read back as one character. -/
theorem scanChar_surrogates {high low : Nat} (hhigh : 0xD800 ≤ high ∧ high ≤ 0xDBFF)
    (hlow : 0xDC00 ≤ low ∧ low ≤ 0xDFFF) (t : List Char) :
    scanChar (unicodeEscape high ++ (unicodeEscape low ++ t)) =
      some (Char.ofNat (0x10000 + (high - 0xD800) * 0x400 + (low - 0xDC00)), t) := by
  show scanUnicode (Nat.digitChar _ :: Nat.digitChar _ :: Nat.digitChar _ :: Nat.digitChar _ ::
    '\\' :: 'u' :: Nat.digitChar _ :: Nat.digitChar _ :: Nat.digitChar _ :: Nat.digitChar _ :: t) = _
  simp only [scanUnicode, hexValues_digits (show high < 0x10000 by omega),
    hexValues_digits (show low < 0x10000 by omega), Option.bind_eq_bind, Option.bind_some,
    if_pos hhigh, if_pos hlow]

theorem scanChar_escapeChar (c : Char) (t : List Char) :
    scanChar (escapeChar ascii c ++ t) = some (c, t) := by
  have hvalid : c.toNat < 0xD800 ∨ 0xDFFF < c.toNat ∧ c.toNat < 0x110000 := c.valid
  unfold escapeChar
  split_ifs with h₁ h₂ h₃ h₄ h₅ h₆ h₇ h₈ h₉ h₁₀
  iterate 7
    · subst_vars
      rfl
  · rw [scanChar_unicodeEscape (by omega) (by omega), Char.ofNat_toNat]
  · rw [scanChar_unicodeEscape h₁₀ (by omega), Char.ofNat_toNat]
  · have hpair : 0x10000 + (0xD800 + (c.toNat - 0x10000) / 0x400 - 0xD800) * 0x400 +
        (0xDC00 + (c.toNat - 0x10000) % 0x400 - 0xDC00) = c.toNat := by omega
    rw [List.append_assoc, scanChar_surrogates (by omega) (by omega), hpair, Char.ofNat_toNat]
  · rw [List.singleton_append, scanChar, if_neg fun h => h.elim h₂ h₈]
    · exact fun _ hc _ => absurd hc h₂
    · exact fun _ _ hc _ => absurd hc h₂

/-- What is written for a character begins with a backslash, or is the character. -/
theorem escapeChar_head (ascii : Bool) (c : Char) :
    ∃ rest, escapeChar ascii c = '\\' :: rest ∨ c ≠ '"' ∧ escapeChar ascii c = [c] := by
  unfold escapeChar
  split_ifs with h₁ h₂ h₃ h₄ h₅ h₆ h₇ h₈ h₉ h₁₀
  all_goals first
    | exact ⟨_, .inl rfl⟩
    | exact ⟨[], .inr ⟨h₁, rfl⟩⟩

/-- What is written for a character is not the closing quote. -/
theorem escapeChar_ne_quote (ascii : Bool) (c : Char) (t t' : List Char) :
    escapeChar ascii c ++ t ≠ '"' :: t' := by
  obtain ⟨rest, h | ⟨hc, h⟩⟩ := escapeChar_head ascii c
  · rw [h]
    simp
  · rw [h]
    simp [hc]

theorem length_escapeChar_pos (c : Char) : 0 < (escapeChar ascii c).length := by
  obtain ⟨rest, h | ⟨-, h⟩⟩ := escapeChar_head ascii c
  · simp [h]
  · simp [h]

theorem scanStringFuel_append (ascii : Bool) (s t : List Char) {fuel : Nat}
    (hfuel : (s.flatMap (escapeChar ascii)).length < fuel) :
    scanStringFuel fuel (s.flatMap (escapeChar ascii) ++ '"' :: t) = some (s, t) := by
  induction s generalizing fuel with
  | nil =>
    obtain ⟨fuel, rfl⟩ := Nat.exists_eq_succ_of_ne_zero (Nat.ne_of_gt hfuel)
    rfl
  | cons c rest ih =>
    rw [List.flatMap_cons, List.length_append] at hfuel
    have hpos := length_escapeChar_pos ascii c
    obtain ⟨fuel, rfl⟩ := Nat.exists_eq_succ_of_ne_zero (n := fuel) (by omega)
    rw [List.flatMap_cons, List.append_assoc, scanStringFuel, scanChar_escapeChar]
    · dsimp only [Option.bind_eq_bind, Option.bind_some]
      rw [ih (by omega)]
      rfl
    · exact fun t' => escapeChar_ne_quote ascii c _ t'

/-- **A string is read back.** -/
theorem scanString_append (s : String) (t : List Char) :
    scanString (s.toList.flatMap (escapeChar ascii) ++ '"' :: t) = some (s.toList, t) := by
  refine scanStringFuel_append ascii _ _ ?_
  rw [List.length_append, List.length_cons]
  omega

end Json
