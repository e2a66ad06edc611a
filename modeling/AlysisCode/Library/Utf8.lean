/-
Decoding UTF-8, one byte at a time.

The decoder holds the bytes of a sequence that has begun.  A byte that cannot go on with the
sequence makes one malformed piece of what is held and is looked at anew, which is where Python's
decoders put a replacement character.  The pieces of a text that was encoded are its characters, and
the pieces of any bytes put together are the bytes.
-/
import Mathlib.Data.List.Basic

namespace Utf8

/-- A character, or a sequence of bytes that is none. -/
inductive Piece where
  | char (c : Char)
  | malformed (bytes : List UInt8)
  deriving DecidableEq

/-- The bytes of a text. -/
def encode (t : List Char) : List UInt8 := t.flatMap String.utf8EncodeChar

def Piece.bytes : Piece → List UInt8
  | .char c => String.utf8EncodeChar c
  | .malformed bytes => bytes

/-- What a decoder makes of it that replaces errors. -/
def Piece.shown : Piece → Char
  | .char c => c
  | .malformed _ => Char.ofNat 0xFFFD

/-- A sequence that has begun: how many bytes it needs, between which values the next one must
be, and the value so far. -/
structure Partial where
  (need low high value : Nat)
  bytes : List UInt8

/-- The first byte of a sequence. -/
def first (b : UInt8) : List Piece × Option Partial :=
  let n := b.toNat
  if n < 0x80 then ([.char (Char.ofNat n)], none)
  else if n < 0xC2 then ([.malformed [b]], none)
  else if n < 0xE0 then ([], some ⟨1, 0x80, 0xBF, n - 0xC0, [b]⟩)
  else if n < 0xF0 then
    -- the surrogates, and what fits into two bytes, are left out
    ([], some ⟨2, if n = 0xE0 then 0xA0 else 0x80, if n = 0xED then 0x9F else 0xBF, n - 0xE0, [b]⟩)
  else if n < 0xF5 then
    ([], some ⟨3, if n = 0xF0 then 0x90 else 0x80, if n = 0xF4 then 0x8F else 0xBF, n - 0xF0, [b]⟩)
  else ([.malformed [b]], none)

/-- A later byte of a sequence. -/
def Partial.next (p : Partial) (b : UInt8) : List Piece × Option Partial :=
  let value := p.value * 64 + (b.toNat - 0x80)
  if p.low ≤ b.toNat ∧ b.toNat ≤ p.high then
    if p.need = 1 then ([.char (Char.ofNat value)], none)
    else ([], some ⟨p.need - 1, 0x80, 0xBF, value, p.bytes ++ [b]⟩)
  else (.malformed p.bytes :: (first b).1, (first b).2)

def step : Option Partial → UInt8 → List Piece × Option Partial
  | none, b => first b
  | some p, b => p.next b

/-- The pieces that are complete, and the sequence that is not. -/
def run (held : Option Partial) : List UInt8 → List Piece × Option Partial
  | [] => ([], held)
  | b :: rest =>
    let (pieces, held) := step held b
    let later := run held rest
    (pieces ++ later.1, later.2)

def flush : Option Partial → List Piece
  | none => []
  | some p => [.malformed p.bytes]

def decode (bytes : List UInt8) : List Piece :=
  let result := run none bytes
  result.1 ++ flush result.2

/-- `bytes.decode("utf-8", errors="replace")` -/
def decodeReplacing (bytes : List UInt8) : List Char := (decode bytes).map Piece.shown

def Piece.char? : Piece → Option Char
  | .char c => some c
  | .malformed _ => none

/-- `bytes.decode("utf-8")`; `none` is its `UnicodeDecodeError`. -/
def decodeStrict (bytes : List UInt8) : Option (List Char) := (decode bytes).mapM Piece.char?

/-- `bytes.decode("utf-8", errors="ignore")` -/
def decodeIgnoring (bytes : List UInt8) : List Char := (decode bytes).filterMap Piece.char?

/-! ### Decoding in parts -/

variable {b : UInt8} {held : Option Partial} {p : Partial}

theorem run_cons {held' : Option Partial} {pieces : List Piece} (h : step held b = (pieces, held'))
    (rest : List UInt8) :
    run held (b :: rest) = (pieces ++ (run held' rest).1, (run held' rest).2) := by
  rw [run, h]

/-- A byte that completes nothing. -/
theorem run_cons_nil {held' : Option Partial} (h : step held b = ([], held')) (rest : List UInt8) :
    run held (b :: rest) = run held' rest := run_cons h rest

theorem run_append (held : Option Partial) (bytes more : List UInt8) : run held (bytes ++ more) =
      ((run held bytes).1 ++ (run (run held bytes).2 more).1, (run (run held bytes).2 more).2) := by
  induction bytes generalizing held with
  | nil => rfl
  | cons b rest ih =>
    rw [List.cons_append, run, run]
    simp only [ih, List.append_assoc]

/-- No ASCII character goes on with a sequence. -/
theorem low_run (h : ∀ p ∈ held, 0x80 ≤ p.low) (bytes : List UInt8) :
    ∀ p ∈ (run held bytes).2, 0x80 ≤ p.low := by
  have hfirst : ∀ b, ∀ p ∈ (first b).2, 0x80 ≤ p.low := by
    intro b p hp
    simp only [first] at hp
    split_ifs at hp <;> simp at hp <;> simp [← hp]
  induction bytes generalizing held with
  | nil => exact h
  | cons b _ ih =>
    refine ih fun p hp => ?_
    cases held with
    | none => exact hfirst b p hp
    | some q =>
      simp only [Partial.next] at hp
      split_ifs at hp
      · simp at hp
      · simp only [Option.mem_def, Option.some.injEq] at hp
        simp [← hp]
      · exact hfirst b p hp

/-- A line end ends what has begun. -/
theorem run_ascii (bytes : List UInt8) (h : b.toNat < 0x80) :
    (run none (bytes ++ [b])).2 = none := by
  rw [run_append]
  cases hheld : (run none bytes).2 with
  | none => simp [run, step, first, h]
  | some p =>
    have hlow := low_run (show ∀ p ∈ none, 0x80 ≤ Partial.low p by simp) bytes p hheld
    have hout : ¬ (p.low ≤ b.toNat ∧ b.toNat ≤ p.high) := by omega
    simp [run, step, Partial.next, first, h, hout]

theorem decodeReplacing_append {bytes : List UInt8} (h : (run none bytes).2 = none)
    (more : List UInt8) :
    decodeReplacing (bytes ++ more) = decodeReplacing bytes ++ decodeReplacing more := by
  simp [decodeReplacing, decode, run_append, h, flush]

/-! ### What was encoded is decoded -/

variable {n : Nat} (t : List Char)

theorem toNat_ofNat_byte (h : n < 256) : (UInt8.ofNat n).toNat = n := by
  rw [UInt8.toNat_ofNat']
  exact Nat.mod_eq_of_lt h

theorem val_lt (c : Char) : c.toNat < 0xD800 ∨ 0xDFFF < c.toNat ∧ c.toNat < 0x110000 := c.valid

theorem step_one (h : b.toNat < 0x80) : step none b = ([.char (Char.ofNat b.toNat)], none) := by
  simp only [step, first]
  rw [if_pos h]

theorem step_two (hlow : 0xC2 ≤ b.toNat) (hhigh : b.toNat < 0xE0) :
    step none b = ([], some ⟨1, 0x80, 0xBF, b.toNat - 0xC0, [b]⟩) := by
  simp only [step, first]
  rw [if_neg (by omega), if_neg (by omega), if_pos hhigh]

theorem step_three (hlow : 0xE0 ≤ b.toNat) (hhigh : b.toNat < 0xF0) :
    step none b = ([], some ⟨2, if b.toNat = 0xE0 then 0xA0 else 0x80,
      if b.toNat = 0xED then 0x9F else 0xBF, b.toNat - 0xE0, [b]⟩) := by
  simp only [step, first]
  rw [if_neg (by omega), if_neg (by omega), if_neg (by omega), if_pos hhigh]

theorem step_four (hlow : 0xF0 ≤ b.toNat) (hhigh : b.toNat < 0xF5) :
    step none b = ([], some ⟨3, if b.toNat = 0xF0 then 0x90 else 0x80,
      if b.toNat = 0xF4 then 0x8F else 0xBF, b.toNat - 0xF0, [b]⟩) := by
  simp only [step, first]
  rw [if_neg (by omega), if_neg (by omega), if_neg (by omega), if_neg (by omega), if_pos hhigh]

theorem step_more (hneed : p.need ≠ 1) (hlow : p.low ≤ b.toNat) (hhigh : b.toNat ≤ p.high) :
    step (some p) b = ([], some ⟨p.need - 1, 0x80, 0xBF, p.value * 64 + (b.toNat - 0x80),
      p.bytes ++ [b]⟩) := by
  simp only [step, Partial.next]
  rw [if_pos ⟨hlow, hhigh⟩, if_neg hneed]

theorem step_last (hneed : p.need = 1) (hlow : p.low ≤ b.toNat) (hhigh : b.toNat ≤ p.high) :
    step (some p) b = ([.char (Char.ofNat (p.value * 64 + (b.toNat - 0x80)))], none) := by
  simp only [step, Partial.next]
  rw [if_pos ⟨hlow, hhigh⟩, if_pos hneed]

theorem run_encodeChar (c : Char) : run none (String.utf8EncodeChar c) = ([.char c], none) := by
  have hvalid := val_lt c
  have hofNat : Char.ofNat c.toNat = c := Char.ofNat_toNat c
  have hval : c.val.toNat = c.toNat := rfl
  unfold String.utf8EncodeChar
  simp only [hval]
  generalize c.toNat = n at *
  have hlast : (UInt8.ofNat (n % 64 + 0x80)).toNat = n % 64 + 0x80 := toNat_ofNat_byte (by omega)
  have hmid : (UInt8.ofNat (n / 64 % 64 + 0x80)).toNat = n / 64 % 64 + 0x80 :=
    toNat_ofNat_byte (by omega)
  have hmid' : (UInt8.ofNat (n / 4096 % 64 + 0x80)).toNat = n / 4096 % 64 + 0x80 :=
    toNat_ofNat_byte (by omega)
  by_cases h₁ : n ≤ 0x7F
  · have hbyte := toNat_ofNat_byte (show n < 256 by omega)
    have hfirst := step_one (b := UInt8.ofNat n) (by omega)
    rw [if_pos h₁, run_cons hfirst, hbyte, hofNat]
    rfl
  · rw [if_neg h₁]
    by_cases h₂ : n ≤ 0x7FF
    · have hbyte : (UInt8.ofNat (n / 64 % 32 + 0xC0)).toNat = n / 64 % 32 + 0xC0 :=
        toNat_ofNat_byte (by omega)
      have hn : (n / 64 % 32 + 0xC0 - 0xC0) * 64 + (n % 64 + 0x80 - 0x80) = n := by omega
      have hfirst := step_two (b := UInt8.ofNat (n / 64 % 32 + 0xC0)) (by omega) (by omega)
      rw [hbyte] at hfirst
      rw [if_pos h₂, run_cons_nil hfirst, run_cons (step_last rfl (by simp; omega) (by simp; omega)),
        hlast, hn, hofNat]
      rfl
    · rw [if_neg h₂]
      by_cases h₃ : n ≤ 0xFFFF
      · have hbyte : (UInt8.ofNat (n / 4096 % 16 + 0xE0)).toNat = n / 4096 % 16 + 0xE0 :=
          toNat_ofNat_byte (by omega)
        have hn : ((n / 4096 % 16 + 0xE0 - 0xE0) * 64 + (n / 64 % 64 + 0x80 - 0x80)) * 64 +
            (n % 64 + 0x80 - 0x80) = n := by omega
        have hfirst := step_three (b := UInt8.ofNat (n / 4096 % 16 + 0xE0)) (by omega) (by omega)
        have hmore := step_more (b := UInt8.ofNat (n / 64 % 64 + 0x80))
          (p := ⟨2, if n / 4096 % 16 + 0xE0 = 0xE0 then 0xA0 else 0x80,
            if n / 4096 % 16 + 0xE0 = 0xED then 0x9F else 0xBF, n / 4096 % 16 + 0xE0 - 0xE0,
            [UInt8.ofNat (n / 4096 % 16 + 0xE0)]⟩)
          (by simp) (by rw [hmid]; dsimp only; split <;> omega)
          (by rw [hmid]; dsimp only; split <;> omega)
        rw [hbyte] at hfirst
        rw [hmid] at hmore
        rw [if_pos h₃, run_cons_nil hfirst, run_cons_nil hmore,
          run_cons (step_last rfl (by simp; omega) (by simp; omega)), hlast]
        simp only [hn, hofNat]
        rfl
      · have hbyte : (UInt8.ofNat (n / 262144 % 8 + 0xF0)).toNat = n / 262144 % 8 + 0xF0 :=
          toNat_ofNat_byte (by omega)
        have hn : (((n / 262144 % 8 + 0xF0 - 0xF0) * 64 + (n / 4096 % 64 + 0x80 - 0x80)) * 64 +
            (n / 64 % 64 + 0x80 - 0x80)) * 64 + (n % 64 + 0x80 - 0x80) = n := by omega
        have hfirst := step_four (b := UInt8.ofNat (n / 262144 % 8 + 0xF0)) (by omega) (by omega)
        have hmore := step_more (b := UInt8.ofNat (n / 4096 % 64 + 0x80))
          (p := ⟨3, if n / 262144 % 8 + 0xF0 = 0xF0 then 0x90 else 0x80,
            if n / 262144 % 8 + 0xF0 = 0xF4 then 0x8F else 0xBF, n / 262144 % 8 + 0xF0 - 0xF0,
            [UInt8.ofNat (n / 262144 % 8 + 0xF0)]⟩)
          (by simp) (by rw [hmid']; dsimp only; split <;> omega)
          (by rw [hmid']; dsimp only; split <;> omega)
        rw [hbyte] at hfirst
        rw [hmid'] at hmore
        rw [if_neg h₃, run_cons_nil hfirst, run_cons_nil hmore,
          run_cons_nil (step_more (by simp) (by simp; omega) (by simp; omega)),
          run_cons (step_last rfl (by simp; omega) (by simp; omega)), hmid, hlast]
        simp only [hn, hofNat]
        rfl

/-- **What was encoded is decoded.** -/
theorem run_encode : run none (encode t) = (t.map .char, none) := by
  induction t with
  | nil => rfl
  | cons c rest ih =>
    rw [encode, List.flatMap_cons, run_append, run_encodeChar, ← encode, ih]
    rfl

theorem decode_encode : decode (encode t) = t.map .char := by
  rw [decode, run_encode]
  simp [flush]

theorem mapM_char? : (t.map Piece.char).mapM Piece.char? = some t := by
  induction t with
  | nil => rfl
  | cons c rest ih =>
    rw [List.map_cons, List.mapM_cons, ih]
    rfl

theorem decodeStrict_encode : decodeStrict (encode t) = some t := by
  rw [decodeStrict, decode_encode, mapM_char?]

theorem encode_append (u : List Char) : encode (t ++ u) = encode t ++ encode u :=
  List.flatMap_append

/-- Of a text that goes on, the bytes in front are characters and a sequence that has begun. -/
theorem run_part {bytes later : List UInt8} {t : List Char}
    (h : run held (bytes ++ later) = (t.map .char, none)) :
    ∃ t₁ t₂ held', t = t₁ ++ t₂ ∧ run held bytes = (t₁.map .char, held') ∧
      run held' later = (t₂.map .char, none) := by
  rw [run_append, Prod.mk.injEq] at h
  obtain ⟨hpieces, hheld⟩ := h
  obtain ⟨t₁, t₂, rfl, hfirst, hlater⟩ := List.map_eq_append_iff.mp hpieces.symm
  exact ⟨t₁, t₂, (run held bytes).2, rfl, Prod.ext hfirst.symm rfl, Prod.ext hlater.symm hheld⟩

/-! ### What is decoded is what there was -/

/-- The value of a sequence behind more of its bytes. -/
def valueFrom (value : Nat) (later : List UInt8) : Nat :=
  later.foldl (fun value b => value * 64 + (b.toNat - 0x80)) value

/-- However the sequence goes on, it encodes what its value becomes. -/
def Partial.Sound (p : Partial) : Prop :=
  ∀ b later, later.length + 1 = p.need → p.low ≤ b.toNat → b.toNat ≤ p.high →
    (∀ b' ∈ later, 0x80 ≤ b'.toNat ∧ b'.toNat ≤ 0xBF) →
    String.utf8EncodeChar (Char.ofNat (valueFrom p.value (b :: later))) = p.bytes ++ b :: later

theorem toNat_ofNat_char (h : n < 0xD800 ∨ 0xDFFF < n ∧ n < 0x110000) :
    (Char.ofNat n).val.toNat = n := by
  unfold Char.ofNat
  rw [dif_pos h]
  rfl

theorem ofNat_eq (h : n = b.toNat) : UInt8.ofNat n = b := by
  rw [h]
  exact UInt8.ofNat_toNat

theorem sound_two (hlow : 0xC2 ≤ b.toNat) (hhigh : b.toNat < 0xE0) :
    Partial.Sound ⟨1, 0x80, 0xBF, b.toNat - 0xC0, [b]⟩ := by
  intro b₁ later hlater hlow₁ hhigh₁ _
  obtain rfl : later = [] := List.length_eq_zero_iff.mp (by simpa using hlater)
  simp only [valueFrom, List.foldl_cons, List.foldl_nil] at *
  have hvalue := toNat_ofNat_char
    (show (b.toNat - 0xC0) * 64 + (b₁.toNat - 0x80) < 0xD800 ∨ _ by omega)
  simp only [String.utf8EncodeChar, hvalue]
  rw [if_neg (by omega), if_pos (by omega), ofNat_eq (b := b) (by omega),
    ofNat_eq (b := b₁) (by omega)]
  rfl

theorem sound_three (hlow : 0xE0 ≤ b.toNat) (hhigh : b.toNat < 0xF0) :
    Partial.Sound ⟨2, if b.toNat = 0xE0 then 0xA0 else 0x80,
      if b.toNat = 0xED then 0x9F else 0xBF, b.toNat - 0xE0, [b]⟩ := by
  intro b₁ later hlater hlow₁ hhigh₁ hlater'
  obtain ⟨b₂, rfl⟩ : ∃ b₂, later = [b₂] := List.length_eq_one_iff.mp (by simpa using hlater)
  obtain ⟨hlow₂, hhigh₂⟩ := hlater' b₂ List.mem_cons_self
  have hlow₁' : 0x80 ≤ b₁.toNat ∧ (b.toNat = 0xE0 → 0xA0 ≤ b₁.toNat) := by
    dsimp only at hlow₁
    split at hlow₁ <;> omega
  have hhigh₁' : b₁.toNat ≤ 0xBF ∧ (b.toNat = 0xED → b₁.toNat ≤ 0x9F) := by
    dsimp only at hhigh₁
    split at hhigh₁ <;> omega
  simp only [valueFrom, List.foldl_cons, List.foldl_nil]
  have hvalue := toNat_ofNat_char (show
    ((b.toNat - 0xE0) * 64 + (b₁.toNat - 0x80)) * 64 + (b₂.toNat - 0x80) < 0xD800 ∨ _ by omega)
  simp only [String.utf8EncodeChar, hvalue]
  rw [if_neg (by omega), if_neg (by omega), if_pos (by omega), ofNat_eq (b := b) (by omega),
    ofNat_eq (b := b₁) (by omega), ofNat_eq (b := b₂) (by omega)]
  rfl

theorem sound_four (hlow : 0xF0 ≤ b.toNat) (hhigh : b.toNat < 0xF5) :
    Partial.Sound ⟨3, if b.toNat = 0xF0 then 0x90 else 0x80,
      if b.toNat = 0xF4 then 0x8F else 0xBF, b.toNat - 0xF0, [b]⟩ := by
  intro b₁ later hlater hlow₁ hhigh₁ hlater'
  obtain ⟨b₂, b₃, rfl⟩ : ∃ b₂ b₃, later = [b₂, b₃] :=
    List.length_eq_two.mp (by simpa using hlater)
  obtain ⟨hlow₂, hhigh₂⟩ := hlater' b₂ List.mem_cons_self
  obtain ⟨hlow₃, hhigh₃⟩ := hlater' b₃ (List.mem_cons_of_mem _ List.mem_cons_self)
  have hlow₁' : 0x80 ≤ b₁.toNat ∧ (b.toNat = 0xF0 → 0x90 ≤ b₁.toNat) := by
    dsimp only at hlow₁
    split at hlow₁ <;> omega
  have hhigh₁' : b₁.toNat ≤ 0xBF ∧ (b.toNat = 0xF4 → b₁.toNat ≤ 0x8F) := by
    dsimp only at hhigh₁
    split at hhigh₁ <;> omega
  simp only [valueFrom, List.foldl_cons, List.foldl_nil]
  have hvalue := toNat_ofNat_char (show
    (((b.toNat - 0xF0) * 64 + (b₁.toNat - 0x80)) * 64 + (b₂.toNat - 0x80)) * 64 +
      (b₃.toNat - 0x80) < 0xD800 ∨ _ by omega)
  simp only [String.utf8EncodeChar, hvalue]
  rw [if_neg (by omega), if_neg (by omega), if_neg (by omega), ofNat_eq (b := b) (by omega),
    ofNat_eq (b := b₁) (by omega), ofNat_eq (b := b₂) (by omega), ofNat_eq (b := b₃) (by omega)]
  rfl

/-- The bytes of the sequence that has begun. -/
def heldBytes : Option Partial → List UInt8
  | none => []
  | some p => p.bytes

/-- What a decoder holds: the bytes lead to it, and however they go on they make a character. -/
structure Held (p : Partial) : Prop where
  reached : run none p.bytes = ([], some p)
  sound : p.Sound
  short : p.bytes.length + p.need ≤ 4
  need : 0 < p.need

/-- A malformed piece has at most three bytes, and they are not those of a character. -/
structure Bad (bytes : List UInt8) : Prop where
  ne : ∀ c, bytes ≠ String.utf8EncodeChar c
  short : bytes.length ≤ 3

theorem Held.bad (h : Held p) : Bad p.bytes where
  ne c heq := by
    have hreached := h.reached
    rw [heq, run_encodeChar] at hreached
    cases hreached
  short := by
    have := h.short
    have := h.need
    omega

structure Kept (result : List Piece × Option Partial) (bytes : List UInt8) : Prop where
  bytes : result.1.flatMap Piece.bytes ++ heldBytes result.2 = bytes
  bad : ∀ m, .malformed m ∈ result.1 → Bad m
  held : ∀ p, result.2 = some p → Held p

theorem kept_held (h : first b = ([], some p)) (hsound : p.Sound) (hbytes : p.bytes = [b])
    (hshort : p.need ≤ 3) (hneed : 0 < p.need) : Kept (first b) [b] where
  bytes := by
    rw [h]
    exact hbytes
  bad m hm := by
    rw [h] at hm
    cases hm
  held p' hp' := by
    rw [h] at hp'
    cases hp'
    refine ⟨?_, hsound, by rw [hbytes]; simp; omega, hneed⟩
    rw [hbytes]
    exact run_cons_nil (show step none b = _ from h) []

theorem kept_malformed (h : first b = ([.malformed [b]], none)) : Kept (first b) [b] where
  bytes := by
    rw [h]
    rfl
  bad m hm := by
    rw [h] at hm
    obtain rfl := Piece.malformed.inj (List.mem_singleton.mp hm)
    refine ⟨fun c heq => ?_, by simp⟩
    have hrun : run none [b] = ([.malformed [b]], none) :=
      run_cons (show step none b = _ from h) []
    rw [heq, run_encodeChar] at hrun
    cases hrun
  held p hp := by
    rw [h] at hp
    cases hp

theorem kept_first (b : UInt8) : Kept (first b) [b] := by
  by_cases h₁ : b.toNat < 0x80
  · have hfirst : first b = ([.char (Char.ofNat b.toNat)], none) := step_one h₁
    refine ⟨?_, ?_, ?_⟩
    · have hvalue := toNat_ofNat_char (show b.toNat < 0xD800 ∨ _ by omega)
      rw [hfirst]
      simp only [Piece.bytes, heldBytes, List.flatMap_cons, List.flatMap_nil, List.append_nil,
        String.utf8EncodeChar, hvalue]
      rw [if_pos (by omega), ofNat_eq rfl]
    · rw [hfirst]
      simp
    · rw [hfirst]
      simp
  · by_cases h₂ : b.toNat < 0xC2
    · refine kept_malformed ?_
      simp only [first]
      rw [if_neg h₁, if_pos h₂]
    · by_cases h₃ : b.toNat < 0xE0
      · exact kept_held (step_two (by omega) h₃) (sound_two (by omega) h₃) rfl (by simp) (by simp)
      · by_cases h₄ : b.toNat < 0xF0
        · exact kept_held (step_three (by omega) h₄) (sound_three (by omega) h₄) rfl (by simp)
            (by simp)
        · by_cases h₅ : b.toNat < 0xF5
          · exact kept_held (step_four (by omega) h₅) (sound_four (by omega) h₅) rfl (by simp)
              (by simp)
          · refine kept_malformed ?_
            simp only [first]
            rw [if_neg h₁, if_neg h₂, if_neg h₃, if_neg h₄, if_neg h₅]

theorem kept_next (h : Held p) (b : UInt8) : Kept (p.next b) (p.bytes ++ [b]) := by
  by_cases hrange : p.low ≤ b.toNat ∧ b.toNat ≤ p.high
  · by_cases hneed : p.need = 1
    · have hnext : p.next b = _ := step_last hneed hrange.1 hrange.2
      rw [hnext]
      refine ⟨?_, by simp, by simp⟩
      have hsound := h.sound b [] (by simp [hneed]) hrange.1 hrange.2 (by simp)
      simpa [Piece.bytes, heldBytes, valueFrom] using hsound
    · have hnext : p.next b = _ := step_more hneed hrange.1 hrange.2
      have hpos := h.need
      have hshort := h.short
      rw [hnext]
      refine ⟨rfl, by simp, fun p' hp' => ?_⟩
      cases hp'
      refine ⟨?_, ?_, ?_, ?_⟩
      · rw [run_append, h.reached, run_cons_nil (show step (some p) b = _ from hnext)]
        rfl
      · intro b' later hlater hlow hhigh hrest
        replace hlater : later.length + 1 = p.need - 1 := hlater
        have hlength : (b' :: later).length + 1 = p.need := by
          rw [List.length_cons]
          omega
        have hsound := h.sound b (b' :: later) hlength hrange.1 hrange.2 (by
          intro b'' hb''
          rcases List.mem_cons.mp hb'' with rfl | hb''
          · exact ⟨hlow, hhigh⟩
          · exact hrest b'' hb'')
        have hvalue : valueFrom p.value (b :: b' :: later) =
            valueFrom (p.value * 64 + (b.toNat - 0x80)) (b' :: later) := by
          rw [valueFrom, List.foldl_cons, valueFrom]
        rw [hvalue] at hsound
        rw [List.append_assoc]
        exact hsound
      · show (p.bytes ++ [b]).length + (p.need - 1) ≤ 4
        rw [List.length_append, List.length_singleton]
        omega
      · show 0 < p.need - 1
        omega
  · have hnext : p.next b = (.malformed p.bytes :: (first b).1, (first b).2) := by
      simp only [Partial.next]
      rw [if_neg hrange]
    have hfirst := kept_first b
    rw [hnext]
    refine ⟨?_, ?_, hfirst.held⟩
    · rw [List.flatMap_cons, List.append_assoc, hfirst.bytes]
      rfl
    · intro m hm
      rcases List.mem_cons.mp hm with heq | hm
      · obtain rfl := Piece.malformed.inj heq
        exact h.bad
      · exact hfirst.bad m hm

theorem kept_run (h : ∀ p, held = some p → Held p) (bytes : List UInt8) :
    Kept (run held bytes) (heldBytes held ++ bytes) := by
  induction bytes generalizing held with
  | nil => exact ⟨by simp [run], by simp [run], h⟩
  | cons b rest ih =>
    have hstep : Kept (step held b) (heldBytes held ++ [b]) := by
      cases held with
      | none => exact kept_first b
      | some p => exact kept_next (h p rfl) b
    cases hresult : step held b with
    | mk pieces held' =>
      rw [hresult] at hstep
      have hlater := ih hstep.held
      rw [run_cons hresult]
      refine ⟨?_, ?_, hlater.held⟩
      · rw [List.flatMap_append, List.append_assoc, hlater.bytes, ← List.append_assoc,
          hstep.bytes, List.append_assoc]
        rfl
      · intro m hm
        rcases List.mem_append.mp hm with hm | hm
        · exact hstep.bad m hm
        · exact hlater.bad m hm

/-- **The pieces are the bytes.** -/
theorem decode_bytes (bytes : List UInt8) : (decode bytes).flatMap Piece.bytes = bytes := by
  have hkept := (kept_run (show ∀ p, none = some p → Held p by simp) bytes).bytes
  rw [decode, List.flatMap_append]
  cases hheld : (run none bytes).2 with
  | none =>
    rw [hheld] at hkept
    simpa [flush, heldBytes] using hkept
  | some p =>
    rw [hheld] at hkept
    simpa [flush, heldBytes, Piece.bytes] using hkept

theorem decode_bad (bytes : List UInt8) : ∀ m, .malformed m ∈ decode bytes → Bad m := by
  have hkept := kept_run (show ∀ p, none = some p → Held p by simp) bytes
  intro m hm
  rcases List.mem_append.mp hm with hm | hm
  · exact hkept.bad m hm
  · cases hheld : (run none bytes).2 with
    | none =>
      rw [hheld] at hm
      cases hm
    | some p =>
      rw [hheld] at hm
      obtain rfl := Piece.malformed.inj (List.mem_singleton.mp hm)
      exact (hkept.held p hheld).bad

end Utf8
