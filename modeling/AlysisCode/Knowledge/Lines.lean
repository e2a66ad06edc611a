/-
What the reader makes of one field that was written.

A field whose strings hold none of the line ends that `json.dumps` leaves unescaped is read
back as it was written, and the lines of another key do not touch it.
-/
import AlysisCode.Knowledge.Entry
import AlysisCode.Library.JsonPrefix
import AlysisCode.Library.Lines

namespace AlysisCode.Knowledge

open Text

variable {F : Type}

/-- A line end that is no control character: U+0085, U+2028 and U+2029. -/
def isWideBreak (c : Char) : Bool := isLineBreak c && 0x20 ≤ c.toNat

def Field.strings : Field → List String
  | .scalar value => value.toList
  | .list items => items

/-- None of the strings of the field has such a line end in it. -/
def Field.Unbroken (f : Field) : Prop := ∀ s ∈ f.strings, ∀ c ∈ s.toList, isWideBreak c = false

instance (f : Field) : Decidable f.Unbroken :=
  inferInstanceAs (Decidable (∀ s ∈ f.strings, ∀ c ∈ s.toList, isWideBreak c = false))

/-- A key as the writer's keys are. -/
structure PlainKey (key : String) : Prop where
  ne : key.toList ≠ []
  chars : ∀ c ∈ key.toList, isSpace c = false ∧ c ≠ ':' ∧ isLineBreak c = false

def Field.value : Field → Json F
  | .scalar none => .null
  | .scalar (some s) => .str s
  | .list items => .arr (items.map .str)

/-! ### Characters of a written scalar -/

theorem isSpace_of_isLineBreak {c : Char} (h : isLineBreak c = true) : isSpace c = true := by
  simp only [isLineBreak, Bool.or_eq_true, Bool.and_eq_true, decide_eq_true_eq, beq_iff_eq] at h
  simp only [isSpace, Bool.or_eq_true, Bool.and_eq_true, decide_eq_true_eq, beq_iff_eq]
  omega

theorem mem_escapeChar_of_isWideBreak {c d : Char} (h : c ∈ Json.escapeChar false d)
    (hc : isWideBreak c = true) : c = d := by
  have hc' : 0x7F < c.toNat := by
    simp only [isWideBreak, isLineBreak, Bool.or_eq_true, Bool.and_eq_true, decide_eq_true_eq,
      beq_iff_eq] at hc
    omega
  have hdigit (n : Nat) : (Nat.digitChar n).toNat ≤ 0x7F := by
    by_cases hn : n < 16
    · have hall : ∀ n < 16, (Nat.digitChar n).toNat ≤ 0x7F := by decide
      exact hall n hn
    · unfold Nat.digitChar
      iterate 16 rw [if_neg (by omega)]
      decide
  have hpair (a b : Char) (ha : a.toNat ≤ 0x7F) (hb : b.toNat ≤ 0x7F) : c ∉ [a, b] := by
    intro hmem
    simp only [List.mem_cons, List.not_mem_nil, or_false] at hmem
    rcases hmem with rfl | rfl <;> omega
  unfold Json.escapeChar at h
  split_ifs at h
  iterate 7 exact absurd h (hpair _ _ (by decide) (by decide))
  · simp only [Json.unicodeEscape, List.mem_cons, List.not_mem_nil, or_false] at h
    have h₁ := hdigit (d.toNat / 4096)
    have h₂ := hdigit (d.toNat / 256 % 16)
    have h₃ := hdigit (d.toNat / 16 % 16)
    have h₄ := hdigit (d.toNat % 16)
    have h₅ : '\\'.toNat = 92 := by decide
    have h₆ : 'u'.toNat = 117 := by decide
    rcases h with rfl | rfl | rfl | rfl | rfl | rfl <;> omega
  · simp_all
  · simp_all
  · exact List.mem_singleton.mp h

theorem isWideBreak_of_mem_quote {s : String} {c : Char} (h : c ∈ Json.quote false s)
    (hc : isLineBreak c = true) : isWideBreak c = true ∧ c ∈ s.toList := by
  have hprinted := Json.printed_quote false s c h
  have hwide : isWideBreak c = true := by simp [isWideBreak, hc, hprinted]
  refine ⟨hwide, ?_⟩
  have hquote : c ≠ '"' := by
    rintro rfl
    exact absurd hc (by decide)
  simp only [Json.quote, List.cons_append, List.mem_cons, List.mem_append, List.mem_flatMap,
    List.not_mem_nil, or_false, hquote, false_or] at h
  obtain ⟨d, hd, hmem⟩ := h
  rw [mem_escapeChar_of_isWideBreak hmem hwide]
  exact hd

theorem no_return_quote (s : String) : '\r' ∉ Json.quote false s := by
  intro h
  exact absurd (Json.printed_quote false s _ h) (by decide)

/-! ### Stripping -/

theorem rstrip_append_cons {c : Char} (hc : isSpace c = false) (s t : List Char) :
    rstrip (s ++ c :: t) = s ++ c :: rstrip t := by
  have hcons : rstrip (c :: t) = c :: rstrip t := by
    have happend := rdropWhile_append (p := isSpace) [c] t
    rw [List.rdropWhile_singleton, hc] at happend
    rw [List.singleton_append] at happend
    unfold rstrip
    rw [happend]
    split
    · rename_i hnil
      rw [hnil]
      rfl
    · rfl
  unfold rstrip at hcons ⊢
  rw [rdropWhile_append, hcons, if_neg (by simp)]

theorem stripWhere_space (t : List Char) : stripWhere isSpace (' ' :: t) = stripWhere isSpace t := by
  unfold stripWhere
  rw [List.dropWhile_cons_of_pos (by decide)]

theorem strip_quote (s : String) : stripWhere isSpace (Json.quote false s) = Json.quote false s := by
  refine Bare.stripWhere_eq ⟨?_, ?_⟩
  · intro c hc
    obtain rfl : '"' = c := by simpa [Json.quote] using hc
    decide
  · intro c hc
    have hlast : (Json.quote false s).getLast? = some '"' := List.getLast?_concat
    rw [hlast] at hc
    cases hc
    decide

theorem strip_frontmatterScalar (value : Option String) :
    stripWhere isSpace (frontmatterScalar value) = frontmatterScalar value := by
  cases value with
  | none => decide
  | some s => exact strip_quote s

theorem frontmatterScalar_ne_nil (value : Option String) : frontmatterScalar value ≠ [] := by
  cases value with
  | none | some s => exact List.cons_ne_nil _ _

/-! ### Single lines -/

section Line

variable [Json.Floats F] (python : Python F)

theorem parseFrontmatterScalar_congr {s t : List Char}
    (h : stripWhere isSpace s = stripWhere isSpace t) :
    parseFrontmatterScalar (F := F) s = parseFrontmatterScalar t := by
  unfold parseFrontmatterScalar
  rw [h]

/-- **A written scalar is read back.** -/
theorem parseFrontmatterScalar_written (value : Option String) :
    parseFrontmatterScalar (F := F) (frontmatterScalar value) = (Field.scalar value).value := by
  let style : Json.Style := ⟨false, true, false⟩
  have hread : Json.loads (String.ofList (frontmatterScalar value)) =
      some ((Field.scalar value).value (F := F)) := by
    cases value with
    | none => exact @Json.loads_dumps F _ style .null .null
    | some s => exact @Json.loads_dumps F _ style (.str s) .str
  unfold parseFrontmatterScalar
  rw [strip_frontmatterScalar]
  rw [if_neg (by simpa using frontmatterScalar_ne_nil value), hread]

theorem readLine_key (r : Reading F) {key : String} (hkey : PlainKey key) (raw : List Char) :
    readLine python r (key.toList ++ ':' :: raw) =
      .ok (if stripWhere isSpace raw = [] then ⟨Json.assign r.data key (.arr []), some key⟩
        else ⟨Json.assign r.data key (parseFrontmatterScalar raw), none⟩) := by
  have hstrip : rstrip (key.toList ++ ':' :: raw) = key.toList ++ ':' :: rstrip raw :=
    rstrip_append_cons (by decide) _ _
  have hspan := Json.takeWhile_append_of_head (p := (· != ':')) (s := key.toList)
    (t := ':' :: rstrip raw) (fun c hc => by simpa using (hkey.chars c hc).2.1)
    (by rintro c hc; obtain rfl := Option.some.inj hc; rfl)
  have hbare : stripWhere isSpace key.toList = key.toList :=
    Bare.stripWhere_eq ⟨fun c hc => (hkey.chars c (List.mem_of_mem_head? hc)).1,
      fun c hc => (hkey.chars c (List.mem_of_getLast? hc)).1⟩
  have hbullet : bullet.isPrefixOf (key.toList ++ ':' :: rstrip raw) = false := by
    obtain ⟨c, rest, hc⟩ := List.exists_cons_of_ne_nil hkey.ne
    have hspace : isSpace c = false := (hkey.chars c (by rw [hc]; exact List.mem_cons_self)).1
    have hne : (' ' == c) = false := by
      rw [beq_eq_false_iff_ne]
      rintro rfl
      exact absurd hspace (by decide)
    rw [hc]
    simp [bullet, List.isPrefixOf, hne]
  have hraw : stripWhere isSpace (rstrip raw) = stripWhere isSpace raw :=
    stripWhere_rdropWhile isSpace raw
  simp only [readLine, hstrip, hbullet, hspan.1, hspan.2, hbare, hraw, Bool.false_eq_true, if_false,
    String.ofList_toList, parseFrontmatterScalar_congr (F := F) hraw]
  rw [if_neg (by simpa using hkey.ne)]
  split_ifs with h₁ h₂ h₂
  · rfl
  · exact absurd (List.isEmpty_iff.mp h₁) h₂
  · exact absurd (List.isEmpty_iff.mpr h₂) h₁
  · rfl

theorem readLine_item {r : Reading F} {key : String} {items : List (Json F)}
    (hkey : r.key = some key) (hitems : r.data.lookup key = some (.arr items)) {raw : List Char}
    (hraw : rstrip raw ≠ []) :
    readLine python r (bullet ++ raw) = .ok ⟨Json.assign r.data key
      (.arr (items ++ [.str (python.text (parseFrontmatterScalar (F := F) raw))])), some key⟩ := by
  have hstrip : rstrip (bullet ++ raw) = bullet ++ rstrip raw := by
    unfold rstrip at hraw ⊢
    rw [rdropWhile_append, if_neg hraw]
  have hbullet : bullet.isPrefixOf (bullet ++ rstrip raw) = true :=
    List.isPrefixOf_iff_prefix.mpr (List.prefix_append _ _)
  have hdrop : (bullet ++ rstrip raw).drop 4 = rstrip raw := rfl
  have hparse : parseFrontmatterScalar (F := F) (rstrip raw) = parseFrontmatterScalar raw :=
    parseFrontmatterScalar_congr (stripWhere_rdropWhile isSpace raw)
  unfold readLine
  rw [hstrip]
  simp only [hbullet, if_true, hkey, hitems, Option.getD_some, hdrop, hparse]

end Line

end AlysisCode.Knowledge
