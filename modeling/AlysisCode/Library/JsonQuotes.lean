/-
What the reader of JSON makes of pieces of a written string.

Inside a written string every quotation mark stands behind a backslash, and no value begins
with a backslash.  So the front of a string is read as no value, and a piece from behind its
opening mark is read as one only if the piece has no mark in it; the value then holds no
string.
-/
import AlysisCode.Library.JsonPrefix

namespace Json

/-! ### Quotation marks -/

/-- Every quotation mark of the text is behind a backslash, or ends the text. -/
def QuotesEscaped (t : List Char) : Prop :=
  ∀ pre post, t = pre ++ '"' :: post → pre.getLast? = some '\\' ∨ post = []

variable {s t rest r : List Char}

theorem QuotesEscaped.left (h : QuotesEscaped (s ++ t)) : QuotesEscaped s := by
  intro pre post heq
  have hwhole : s ++ t = pre ++ '"' :: (post ++ t) := by simp [heq]
  rcases h pre (post ++ t) hwhole with hlast | hnil
  · exact .inl hlast
  · exact .inr (List.append_eq_nil_iff.mp hnil).1

theorem QuotesEscaped.right (h : QuotesEscaped (s ++ t)) (hs : s.getLast? ≠ some '\\') :
    QuotesEscaped t := by
  intro pre post heq
  have hwhole : s ++ t = (s ++ pre) ++ '"' :: post := by simp [heq]
  rcases h _ _ hwhole with hlast | hnil
  · rw [List.getLast?_append] at hlast
    cases hpre : pre.getLast? with
    | none =>
      rw [hpre] at hlast
      exact absurd hlast hs
    | some c =>
      rw [hpre] at hlast
      exact .inl hlast
  · exact .inr hnil

theorem no_quote_unicodeEscape (n : Nat) : '"' ∉ unicodeEscape n := by
  have hdigit (n : Nat) : '"' ≠ Nat.digitChar n := by
    by_cases hn : n < 16
    · have hall : ∀ n < 16, '"' ≠ Nat.digitChar n := by decide
      exact hall n hn
    · unfold Nat.digitChar
      iterate 16 rw [if_neg (by omega)]
      decide
  simp [unicodeEscape, hdigit]

variable {ascii : Bool} {c : Char}

theorem no_quote_escapeChar (hc : c ≠ '"') : '"' ∉ escapeChar ascii c := by
  unfold escapeChar
  rw [if_neg hc]
  split_ifs
  · decide
  · decide
  · decide
  · decide
  · decide
  · decide
  · exact no_quote_unicodeEscape _
  · exact no_quote_unicodeEscape _
  · rw [List.mem_append, not_or]
    exact ⟨no_quote_unicodeEscape _, no_quote_unicodeEscape _⟩
  · simpa using hc.symm

/-- The characters of one escape have a quotation mark only behind a backslash. -/
theorem escapeChar_quote {pre post : List Char}
    (h : escapeChar ascii c = pre ++ '"' :: post) : pre = ['\\'] := by
  by_cases hc : c = '"'
  · have hescape : escapeChar ascii c = ['\\', '"'] := by
      unfold escapeChar
      rw [if_pos hc]
    rw [hescape] at h
    cases pre with
    | nil => simp at h
    | cons d pre =>
      obtain ⟨rfl, h⟩ := List.cons.inj h
      cases pre with
      | nil => rfl
      | cons e pre =>
        have hlength := congrArg List.length h
        simp at hlength
  · have hmem : '"' ∈ escapeChar ascii c := by
      rw [h]
      exact List.mem_append_right _ List.mem_cons_self
    exact absurd hmem (no_quote_escapeChar hc)

/-- A written string, behind its opening mark. -/
theorem quotesEscaped_written (ascii : Bool) (s : List Char) :
    QuotesEscaped (s.flatMap (escapeChar ascii) ++ ['"']) := by
  induction s with
  | nil =>
    intro pre post h
    cases pre with
    | nil => exact .inr (List.cons.inj h).2.symm
    | cons c pre =>
      have hlength := congrArg List.length h
      simp at hlength
  | cons c s ih =>
    intro pre post h
    rw [List.flatMap_cons, List.append_assoc] at h
    rcases List.append_eq_append_iff.mp h with ⟨mid, hpre, hrest⟩ | ⟨mid, hblock, hrest⟩
    · -- the mark is behind the first escape
      rcases ih mid post hrest with hlast | hnil
      · left
        rw [hpre, List.getLast?_append, hlast]
        rfl
      · exact .inr hnil
    · -- the mark is in the first escape
      cases mid with
      | nil =>
        rw [List.append_nil] at hblock
        rw [List.nil_append] at hrest
        rcases ih [] post hrest.symm with hlast | hnil
        · cases hlast
        · exact .inr hnil
      | cons d mid =>
        obtain ⟨rfl, -⟩ := List.cons.inj hrest
        left
        rw [escapeChar_quote hblock]
        rfl

/-! ### Values without strings -/

/-- No string in the value, and no member. -/
inductive Stringless {F : Type} : Json F → Prop
  | null : Stringless .null
  | bool (b : Bool) : Stringless (.bool b)
  | int (n : Int) : Stringless (.int n)
  | float (x : F) : Stringless (.float x)
  | arr {items : List (Json F)} (h : ∀ v ∈ items, Stringless v) : Stringless (.arr items)
  | empty : Stringless (.obj [])

/-- What stops a scan outside a string: a backslash, or a mark that opens a string without an
end. -/
def Wall (rest : List Char) : Prop := rest = [] ∨ rest = ['"'] ∨ rest.head? = some '\\'

/-- The text goes on to `rest` without a quotation mark. -/
def Before (rest t : List Char) : Prop := ∃ a, '"' ∉ a ∧ t = a ++ rest

theorem QuotesEscaped.before (h : QuotesEscaped t) :
    ∃ rest, Wall rest ∧ Before rest t ∧ (rest = [] → '"' ∉ t) := by
  by_cases hmem : '"' ∈ t
  · obtain ⟨pre, post, rfl, hpre⟩ := List.eq_append_cons_of_mem hmem
    rcases h pre post rfl with hlast | rfl
    · obtain ⟨front, rfl⟩ := List.getLast?_eq_some_iff.mp hlast
      refine ⟨'\\' :: '"' :: post, .inr (.inr rfl), ⟨front, ?_, by simp⟩, by simp⟩
      exact fun hfront => hpre (List.mem_append_left _ hfront)
    · exact ⟨['"'], .inr (.inl rfl), ⟨pre, hpre, rfl⟩, by simp⟩
  · exact ⟨[], .inl rfl, ⟨t, hmem, (List.append_nil t).symm⟩, fun _ => hmem⟩

theorem Before.tail (hwall : Wall rest) (h : Before rest (c :: t)) (hquote : c ≠ '"')
    (hslash : c ≠ '\\') : Before rest t := by
  obtain ⟨a, ha, heq⟩ := h
  cases a with
  | nil =>
    rcases hwall with rfl | rfl | hhead
    · cases heq
    · exact absurd (List.cons.inj heq).1 hquote
    · rw [List.nil_append] at heq
      rw [← heq] at hhead
      exact absurd (Option.some.inj hhead) hslash
  | cons d a =>
    cases heq
    exact ⟨a, fun hmem => ha (List.mem_cons_of_mem _ hmem), rfl⟩

/-- What is consumed in front of a wall. -/
theorem Before.drop (hwall : Wall rest) (h : Before rest (s ++ t))
    (hs : ∀ c ∈ s, c ≠ '"' ∧ c ≠ '\\') : Before rest t := by
  induction s with
  | nil => exact h
  | cons c s ih =>
    have hc := hs c List.mem_cons_self
    exact ih (h.tail hwall hc.1 hc.2) fun d hd => hs d (List.mem_cons_of_mem c hd)

theorem Before.skipSpaces (hwall : Wall rest) (h : Before rest t) : Before rest (skipSpaces t) := by
  have hsplit : t.takeWhile (fun c => c == ' ' || c == '\t' || c == '\n' || c == '\r') ++
      Json.skipSpaces t = t := List.takeWhile_append_dropWhile
  rw [← hsplit] at h
  refine h.drop hwall fun c hc => ?_
  have hspace := List.mem_takeWhile_imp hc
  constructor
  · rintro rfl
    exact absurd hspace (by decide)
  · rintro rfl
    exact absurd hspace (by decide)

/-! ### Scanning up to the wall -/

variable {F : Type} [Floats F]

variable {v : Json F}

theorem scanNumber_consumes (h : scanNumber t = some (v, r)) :
    Stringless v ∧ ∃ s, t = s ++ r ∧ ∀ c ∈ s, c ≠ '"' ∧ c ≠ '\\' := by
  obtain ⟨sign, digits, frac, exp, rfl, hint, hfrac, hexp, rfl⟩ := scanNumber_eq h
  have hdigit {c : Char} (hc : c.isDigit = true) : c ≠ '"' ∧ c ≠ '\\' := by
    constructor
    · rintro rfl
      exact absurd hc (by decide)
    · rintro rfl
      exact absurd hc (by decide)
  refine ⟨?_, sign ++ (digits ++ (frac ++ exp)), by simp, ?_⟩
  · split
    · exact .int _
    · exact .float _
  · intro c hc
    rcases List.mem_append.mp hc with hc | hc
    · rcases hint.sign with rfl | rfl
      · cases hc
      · rw [List.mem_singleton.mp hc]
        decide
    rcases List.mem_append.mp hc with hc | hc
    · rcases hint.digits with rfl | ⟨d, ds, -, -, hall⟩
      · rw [List.mem_singleton.mp hc]
        decide
      · exact hdigit (hall c hc)
    rcases List.mem_append.mp hc with hc | hc
    · rcases hfrac with rfl | ⟨ds, rfl, -, hall⟩
      · cases hc
      · rcases List.mem_cons.mp hc with rfl | hc
        · decide
        · exact hdigit (hall c hc)
    · rcases hexp with rfl | ⟨d, sign, ds, rfl, hd, hsigned, -, hall⟩
      · cases hc
      · rw [List.cons_append, List.mem_cons, List.mem_append] at hc
        rcases hc with rfl | hc | hc
        · rcases hd with rfl | rfl
          · decide
          · decide
        · rcases hsigned with rfl | rfl | rfl
          · cases hc
          · rw [List.mem_singleton.mp hc]
            decide
          · rw [List.mem_singleton.mp hc]
            decide
        · exact hdigit (hall c hc)

theorem scanLiteral_consumes (h : scanLiteral t = some (v, r)) :
    Stringless v ∧ ∃ s, t = s ++ r ∧ ∀ c ∈ s, c ≠ '"' ∧ c ≠ '\\' := by
  unfold scanLiteral at h
  split at h
  · cases h
    exact ⟨.null, ['n', 'u', 'l', 'l'], rfl, by decide⟩
  · cases h
    exact ⟨.bool true, ['t', 'r', 'u', 'e'], rfl, by decide⟩
  · cases h
    exact ⟨.bool false, ['f', 'a', 'l', 's', 'e'], rfl, by decide⟩
  · cases h
    exact ⟨.float _, ['N', 'a', 'N'], rfl, by decide⟩
  · cases h
    exact ⟨.float _, ['I', 'n', 'f', 'i', 'n', 'i', 't', 'y'], rfl, by decide⟩
  · cases h
    exact ⟨.float _, ['-', 'I', 'n', 'f', 'i', 'n', 'i', 't', 'y'], rfl, by decide⟩
  · exact scanNumber_consumes h

/-- What a scan with `fuel` makes of a text in front of a wall: a value without strings, or
nothing. -/
structure Walled (F : Type) [Floats F] (rest : List Char) (fuel : Nat) : Prop where
  value : ∀ {t r : List Char} {v : Json F}, Before rest t → scanValue fuel t = some (v, r) →
    Stringless v ∧ Before rest r
  items : ∀ {t r : List Char} {items : List (Json F)}, Before rest t →
    scanItems fuel t = some (items, r) → (∀ v ∈ items, Stringless v) ∧ Before rest r
  members : ∀ {t : List Char} (dict : List (String × Json F)), Before rest t →
    scanMembers fuel dict t = none

/-- A string that begins at the wall has no end. -/
theorem Before.scanString (hwall : Wall rest) (h : Before rest ('"' :: t)) :
    scanString t = none := by
  obtain ⟨a, ha, heq⟩ := h
  cases a with
  | nil =>
    rcases hwall with rfl | rfl | hhead
    · cases heq
    · rw [(List.cons.inj heq).2]
      rfl
    · rw [List.nil_append] at heq
      rw [← heq] at hhead
      cases hhead
  | cons c a =>
    rw [(List.cons.inj heq).1] at ha
    exact absurd List.mem_cons_self ha

theorem Walled.items_succ {fuel : Nat} (hwall : Wall rest) (h : Walled F rest fuel)
    {items : List (Json F)} (ht : Before rest t) (hscan : scanItems (fuel + 1) t = some (items, r)) :
    (∀ v ∈ items, Stringless v) ∧ Before rest r := by
  rw [scanItems] at hscan
  obtain ⟨⟨v, t₁⟩, hv, hscan⟩ := Option.bind_eq_some_iff.mp hscan
  dsimp only at hscan
  obtain ⟨hless, hbefore⟩ := h.value ht hv
  have hskipped := hbefore.skipSpaces hwall
  split at hscan
  · rename_i t₂ hskip
    cases hscan
    rw [hskip] at hskipped
    refine ⟨fun w hw => ?_, hskipped.tail hwall (by decide) (by decide)⟩
    rw [List.mem_singleton.mp hw]
    exact hless
  · rename_i t₂ hskip
    obtain ⟨⟨more, t₃⟩, hmore, hscan⟩ := Option.bind_eq_some_iff.mp hscan
    cases hscan
    rw [hskip] at hskipped
    have hnext := (hskipped.tail hwall (by decide) (by decide)).skipSpaces hwall
    obtain ⟨hlesses, hrest⟩ := h.items hnext hmore
    refine ⟨fun w hw => ?_, hrest⟩
    rcases List.mem_cons.mp hw with rfl | hw
    · exact hless
    · exact hlesses w hw
  · cases hscan

theorem Walled.value_succ {fuel : Nat} (hwall : Wall rest) (h : Walled F rest fuel)
    (ht : Before rest t) (hscan : scanValue (fuel + 1) t = some (v, r)) :
    Stringless v ∧ Before rest r := by
  unfold scanValue at hscan
  split at hscan
  · rw [ht.scanString hwall] at hscan
    cases hscan
  · have hskipped := (ht.tail hwall (by decide) (by decide)).skipSpaces hwall
    split at hscan
    · rename_i t₂ hskip
      cases hscan
      rw [hskip] at hskipped
      exact ⟨.arr (by simp), hskipped.tail hwall (by decide) (by decide)⟩
    · obtain ⟨⟨items, t₁⟩, hitems, hscan⟩ := Option.bind_eq_some_iff.mp hscan
      cases hscan
      obtain ⟨hless, hrest⟩ := h.items hskipped hitems
      exact ⟨.arr hless, hrest⟩
  · have hskipped := (ht.tail hwall (by decide) (by decide)).skipSpaces hwall
    split at hscan
    · rename_i t₂ hskip
      cases hscan
      rw [hskip] at hskipped
      exact ⟨.empty, hskipped.tail hwall (by decide) (by decide)⟩
    · rw [h.members [] hskipped] at hscan
      cases hscan
  · obtain ⟨hless, s, rfl, hs⟩ := scanLiteral_consumes hscan
    exact ⟨hless, ht.drop hwall hs⟩

theorem walled (hwall : Wall rest) (fuel : Nat) : Walled F rest fuel := by
  induction fuel with
  | zero =>
    refine ⟨fun _ hscan => ?_, fun _ hscan => ?_, fun _ _ => rfl⟩
    · cases hscan
    · cases hscan
  | succ fuel ih =>
    refine ⟨fun ht hscan => ih.value_succ hwall ht hscan,
      fun ht hscan => ih.items_succ hwall ht hscan, fun dict ht => ?_⟩
    unfold scanMembers
    split
    · rw [ht.scanString hwall]
      rfl
    · rfl

/-- **Where every mark is escaped, a value that is read holds no string, and the text no
mark.** -/
theorem loads_of_quotesEscaped (ht : QuotesEscaped t)
    (h : loads (String.ofList t) = some v) : Stringless v ∧ '"' ∉ t := by
  obtain ⟨rest, hwall, hbefore, hnone⟩ := ht.before
  unfold loads at h
  rw [String.toList_ofList] at h
  obtain ⟨⟨w, r⟩, hscan, h⟩ := Option.bind_eq_some_iff.mp h
  dsimp only at h
  obtain ⟨hless, hrest⟩ := (walled hwall _).value (hbefore.skipSpaces hwall) hscan
  split at h
  · rename_i hend
    cases h
    refine ⟨hless, hnone ?_⟩
    have hall := hrest.skipSpaces hwall
    obtain ⟨a, -, ha⟩ := hall
    rw [hend] at ha
    exact (List.append_eq_nil_iff.mp ha.symm).2
  · cases h

/-- **The front of a written string is read as no value.** -/
theorem loads_front {p q : List Char}
    (hsplit : p ++ q = s.flatMap (escapeChar ascii) ++ ['"']) (hq : q ≠ []) :
    loads (F := F) (String.ofList ('"' :: p)) = none := by
  have hscan : scanString p = none := by
    cases hp : scanString p with
    | none => rfl
    | some found =>
      obtain ⟨found, r⟩ := found
      have hstable := scanString_stable hp q
      have hwhole := scanString_append ascii (String.ofList s) []
      rw [String.toList_ofList, ← hsplit, hstable] at hwhole
      have hnil := (Prod.mk.inj (Option.some.inj hwhole)).2
      exact absurd (List.append_eq_nil_iff.mp hnil).2 hq
  have hskip : skipSpaces ('"' :: p) = '"' :: p := rfl
  unfold loads
  rw [String.toList_ofList, hskip]
  show ((scanString p).bind _).bind _ = none
  rw [hscan]
  rfl

end Json
