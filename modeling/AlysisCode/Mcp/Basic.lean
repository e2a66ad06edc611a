/-
The names of servers and the records of their tokens.

A name is told apart from another one only by its canonical form: no spaces around it, and
lower case.  A record is stored as a JSON object.
-/
import AlysisCode.Ide.Python

namespace AlysisCode.Mcp

variable {F T : Type}

/-! ### Server names -/

/-- `[a-z0-9]` -/
def isIdStart (c : Char) : Bool := c.isLower || c.isDigit

/-- `[a-z0-9._-]` -/
def isIdChar (c : Char) : Bool := isIdStart c || c == '.' || c == '_' || c == '-'

/-- `[a-z0-9][a-z0-9._-]*` -/
def isIdPart : List Char → Bool
  | [] => false
  | c :: rest => isIdStart c && rest.all isIdChar

/-- `_SERVER_ID_RE.fullmatch(value) is not None` -/
def matchesServerId (value : List Char) : Bool :=
  match value.dropWhile (· ≠ '/') with
  | [] => isIdPart value
  | _ :: name => isIdPart (value.takeWhile (· ≠ '/')) && isIdPart name

/-- `normalize_server_id`, of a text. -/
def normalizeServerId (rawValue : String) : Option String :=
  let value := lower (strip rawValue)
  if matchesServerId value.toList then some value else none

/-- A name in its canonical form. -/
def Canonical (serverId : String) : Prop := normalizeServerId serverId = some serverId

instance (serverId : String) : Decidable (Canonical serverId) :=
  inferInstanceAs (Decidable (_ = _))

theorem chars_of_isIdPart {part : List Char} (h : isIdPart part = true) :
    ∀ c ∈ part, isIdChar c = true := by
  cases part with
  | nil => cases h
  | cons c rest =>
    obtain ⟨hc, hrest⟩ := Bool.and_eq_true_iff.mp h
    intro d hd
    rcases List.mem_cons.mp hd with rfl | hd
    · simp [isIdChar, hc]
    · exact List.all_eq_true.mp hrest d hd

theorem chars_of_matchesServerId {value : List Char} (h : matchesServerId value = true) :
    ∀ c ∈ value, isIdChar c = true ∨ c = '/' := by
  have hboth := List.takeWhile_append_dropWhile (p := (· ≠ '/')) (l := value)
  unfold matchesServerId at h
  split at h
  · exact fun c hc => .inl (chars_of_isIdPart h c hc)
  · rename_i slash name hname
    obtain ⟨hscope, hname'⟩ := Bool.and_eq_true_iff.mp h
    have hslash : slash = '/' := by
      have hhead := List.head?_dropWhile_not (fun c : Char => decide (c ≠ '/')) value
      rw [hname] at hhead
      simpa using hhead
    intro c hc
    rw [← hboth, hname] at hc
    rcases List.mem_append.mp hc with hc | hc
    · exact .inl (chars_of_isIdPart hscope c hc)
    · rcases List.mem_cons.mp hc with rfl | hc
      · exact .inr hslash
      · exact .inl (chars_of_isIdPart hname' c hc)

theorem idChar_plain {c : Char} (h : isIdChar c = true ∨ c = '/') :
    isIdentifierChar c = true ∧ Text.lowerAscii c = [c] := by
  have hn : isIdentifierChar c = true ∧ c.toNat < 128 ∧ ¬(65 ≤ c.toNat ∧ c.toNat ≤ 90) := by
    unfold isIdChar isIdStart at h
    unfold isIdentifierChar
    delta Char.isAlphanum Char.isAlpha Char.isUpper Char.isLower Char.isDigit at *
    simp only [Bool.or_eq_true, Bool.and_eq_true, decide_eq_true_eq, beq_iff_eq,
      ge_iff_le, UInt32.le_iff_toNat_le, Char.reduceToNat, Char.toNat_val] at h ⊢
    rcases h with (((((h | h) | rfl) | rfl) | rfl) | rfl)
    · omega
    · omega
    all_goals decide
  obtain ⟨hidentifier, hlt, hupper⟩ := hn
  refine ⟨hidentifier, ?_⟩
  have hlower : c.toLower = c := by
    unfold Char.toLower
    rw [dif_neg]
    simpa [UInt32.le_iff_toNat_le] using hupper
  rw [Text.lowerAscii, if_neg (by omega), if_neg (by omega), hlower]

theorem canonical_of_normalize {rawValue serverId : String}
    (h : normalizeServerId rawValue = some serverId) : Canonical serverId := by
  unfold normalizeServerId at h
  dsimp only at h
  split at h
  · rename_i hmatches
    rw [Option.some.inj h] at hmatches
    have hchars := fun c hc => idChar_plain (chars_of_matchesServerId hmatches c hc)
    have hstrip : strip serverId = serverId :=
      strip_of_none fun c hc => isSpace_of_isIdentifierChar (hchars c hc).1
    have hlower : lower serverId = serverId := by
      have hflat : serverId.toList.flatMap Text.lowerAscii = serverId.toList := by
        generalize serverId.toList = chars at hchars
        induction chars with
        | nil => rfl
        | cons c rest ih =>
          rw [List.flatMap_cons, (hchars c List.mem_cons_self).2,
            ih fun d hd => hchars d (List.mem_cons_of_mem _ hd)]
          rfl
      rw [lower, hflat, String.ofList_toList]
    unfold Canonical normalizeServerId
    rw [hstrip, hlower, if_pos hmatches]
  · cases h

/-! ### Keys -/

/-- Where the key of an envelope is kept. -/
inductive KeySource where
  | keyring
  | weakFallback
  | dpapi
  | filesystem
  deriving DecidableEq

end AlysisCode.Mcp
