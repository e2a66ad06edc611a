/-
Addresses of the Internet protocol, as `ipaddress` of Python 3.11 has them.

An address is read from text, and `str` writes it back in one spelling: whatever spelling was
read, what is written is read as the same address again.  The predicates on addresses are
memberships of the blocks of the registries; those of the two versions overlap differently,
so nothing is said of one from the other.
-/
import Mathlib.Algebra.Group.Nat.Defs
import Mathlib.Data.List.Basic
import Mathlib.Data.List.Induction
import Mathlib.Data.List.TakeWhile

namespace Ip

/-! ### Numbers in a base, high digits first -/

/-- The last `k` digits of `n` in base `b`. -/
def bigEndian (b : Nat) : Nat → Nat → List Nat
  | 0, _ => []
  | k + 1, n => bigEndian b k (n / b) ++ [n % b]

def ofBigEndian (b : Nat) (digits : List Nat) : Nat := digits.foldl (fun n d => n * b + d) 0

theorem length_bigEndian (b k n : Nat) : (bigEndian b k n).length = k := by
  induction k generalizing n with
  | zero => rfl
  | succ k ih => rw [bigEndian, List.length_append, ih, List.length_singleton]

variable (ip : BitVec 128) {c : Char} {n : Nat}

variable {part : List Char} {d : Nat}

theorem lt_of_mem_bigEndian {b k : Nat} (hb : 0 < b) (h : d ∈ bigEndian b k n) : d < b := by
  induction k generalizing n with
  | zero => cases h
  | succ k ih =>
    rcases List.mem_append.mp h with h | h
    · exact ih h
    · rw [List.mem_singleton.mp h]
      exact Nat.mod_lt n hb

theorem ofBigEndian_bigEndian (b k n : Nat) : ofBigEndian b (bigEndian b k n) = n % b ^ k := by
  induction k generalizing n with
  | zero => simp [bigEndian, ofBigEndian, Nat.mod_one]
  | succ k ih =>
    have hlast : ofBigEndian b (bigEndian b (k + 1) n) =
        ofBigEndian b (bigEndian b k (n / b)) * b + n % b := by
      simp [bigEndian, ofBigEndian]
    rw [hlast, ih, Nat.pow_succ', Nat.mod_mul, Nat.mul_comm]
    omega

/-! ### Octets and hextets -/

def parseOctet (t : List Char) : Option Nat :=
  if t ≠ [] ∧ t.all Char.isDigit ∧ t.length ≤ 3 ∧ (t = ['0'] ∨ t.head? ≠ some '0') ∧
      Nat.ofDigitChars 10 t 0 ≤ 255 then some (Nat.ofDigitChars 10 t 0)
  else none

/-- `_HEX_DIGITS`, each with its value -/
def hexValue (c : Char) : Option Nat :=
  if '0' ≤ c ∧ c ≤ '9' then some (c.toNat - '0'.toNat)
  else if 'a' ≤ c ∧ c ≤ 'f' then some (c.toNat - 'a'.toNat + 10)
  else if 'A' ≤ c ∧ c ≤ 'F' then some (c.toNat - 'A'.toNat + 10)
  else none

def parseHextet (t : List Char) : Option Nat :=
  if t ≠ [] ∧ t.length ≤ 4 then t.foldlM (fun n c => (hexValue c).map (16 * n + ·)) 0 else none

theorem parseOctet_toDigits (h : n < 256) : parseOctet (Nat.toDigits 10 n) = some n := by
  have hall : ∀ m ∈ List.range 256, parseOctet (Nat.toDigits 10 m) = some m := by decide +kernel
  exact hall n (List.mem_range.mpr h)

variable {t : List Char} {hextets : List Nat}

theorem digits_of_parseOctet (h : parseOctet t = some n) : ∀ c ∈ t, c.isDigit = true := by
  unfold parseOctet at h
  split at h
  · next hc => exact List.all_eq_true.mp hc.2.1
  · cases h

theorem hexValue_digitChar (h : d < 16) : hexValue (Nat.digitChar d) = some d := by
  have hall : ∀ e ∈ List.range 16, hexValue (Nat.digitChar e) = some e := by decide
  exact hall d (List.mem_range.mpr h)

theorem foldlM_hexValue (n : Nat) :
    (Nat.toDigits 16 n).foldlM (fun n c => (hexValue c).map (16 * n + ·)) 0 = some n := by
  induction n using Nat.strongRecOn with
  | ind n ih =>
    by_cases hn : n < 16
    · rw [Nat.toDigits_of_lt_base hn, List.foldlM_cons, hexValue_digitChar hn]
      simp
    · rw [Nat.toDigits_of_base_le (by decide) (Nat.le_of_not_lt hn), List.foldlM_append,
        ih (n / 16) (by omega)]
      simp only [Option.bind_eq_bind, Option.bind_some, List.foldlM_cons, List.foldlM_nil,
        hexValue_digitChar (Nat.mod_lt n (by decide : 0 < 16))]
      simp [Nat.div_add_mod]

theorem parseHextet_toDigits (h : n < 65536) : parseHextet (Nat.toDigits 16 n) = some n := by
  have hlen : (Nat.toDigits 16 n).length ≤ 4 :=
    (Nat.length_toDigits_le_iff (by decide) (by decide)).mpr (by simpa using h)
  rw [parseHextet, if_pos ⟨Nat.toDigits_ne_nil, hlen⟩, foldlM_hexValue]

/-- The digits that a number is written with in base 16. -/
def hexDigits : List Char := "0123456789abcdef".toList

theorem digitChar_mem_hexDigits (h : d < 16) : Nat.digitChar d ∈ hexDigits := by
  have hall : ∀ e ∈ List.range 16, Nat.digitChar e ∈ hexDigits := by decide
  exact hall d (List.mem_range.mpr h)

theorem mem_hexDigits_of_mem_toDigits (h : c ∈ Nat.toDigits 16 n) : c ∈ hexDigits := by
  induction n using Nat.strongRecOn with
  | ind n ih =>
    by_cases hn : n < 16
    · rw [Nat.toDigits_of_lt_base hn, List.mem_singleton] at h
      rw [h]
      exact digitChar_mem_hexDigits hn
    · rw [Nat.toDigits_of_base_le (by decide) (Nat.le_of_not_lt hn), List.mem_append,
        List.mem_singleton] at h
      rcases h with h | h
      · exact ih (n / 16) (by omega) h
      · rw [h]
        exact digitChar_mem_hexDigits (Nat.mod_lt n (by decide))

/-! ### The addresses -/

/-- What may stand after the `%` of an address of version 6. -/
structure ScopeId where
  text : List Char
  ne_nil : text ≠ []
  bare : '%' ∉ text ∧ '/' ∉ text
  deriving DecidableEq

/-- `IPv4Address` and `IPv6Address`: the number, and the zone an address of version 6 may name. -/
inductive Address where
  | v4 (ip : BitVec 32)
  | v6 (ip : BitVec 128) (scopeId : Option ScopeId)
  deriving DecidableEq

/-- The address of version 4 in dotted form. -/
def text4 (ip : BitVec 32) : List Char :=
  ['.'].intercalate ((bigEndian 256 4 ip.toNat).map (Nat.toDigits 10))

/-- `IPv4Address(t)` -/
def parse4 (t : List Char) : Option (BitVec 32) :=
  if (t.splitOn '.').length = 4 then
    ((t.splitOn '.').mapM parseOctet).map fun octets => BitVec.ofNat 32 (ofBigEndian 256 octets)
  else none

/-- The longest run of zeros found, and the run at the end of what has been read. -/
structure ZeroRun where
  (index length bestStart bestLength : Nat)

def ZeroRun.step (run : ZeroRun) (hextet : Nat) : ZeroRun :=
  if hextet = 0 then
    if run.bestLength < run.length + 1 then
      ⟨run.index + 1, run.length + 1, run.index - run.length, run.length + 1⟩
    else ⟨run.index + 1, run.length + 1, run.bestStart, run.bestLength⟩
  else ⟨run.index + 1, 0, run.bestStart, run.bestLength⟩

def zeroRun (hextets : List Nat) : ZeroRun := hextets.foldl ZeroRun.step ⟨0, 0, 0, 0⟩

/-- What stands on one side of the run that is left out; nothing there is written as an empty
part more. -/
def side (hextets : List Nat) : List (List Char) :=
  if hextets = [] then [[]] else hextets.map (Nat.toDigits 16)

def compressHextets (hextets : List Nat) : List (List Char) :=
  if 1 < (zeroRun hextets).bestLength then
    side (hextets.take (zeroRun hextets).bestStart) ++
      [] :: side (hextets.drop ((zeroRun hextets).bestStart + (zeroRun hextets).bestLength))
  else hextets.map (Nat.toDigits 16)

/-- The address of version 6 in the form with the longest run of zeros left out. -/
def text6 : List Char :=
  [':'].intercalate (compressHextets (bigEndian 65536 8 ip.toNat))

def trimSide (outer : Option (List Char)) (parts : List (List Char)) : Option (List (List Char)) :=
  if outer = some [] then if parts.length = 1 then some [] else none else some parts

/-- The eight hextets that the parts between the colons stand for. -/
def expandParts (parts : List (List Char)) : Option (List (List Char)) :=
  match parts.tail.dropLast.count [] with
  | 0 => if parts.length = 8 then some parts else none
  | 1 => do
    let high ← trimSide parts.head? (parts.take (parts.tail.idxOf [] + 1))
    let low ← trimSide parts.getLast? (parts.drop (parts.tail.idxOf [] + 2))
    if high.length + low.length < 8 then
      some (high ++ List.replicate (8 - (high.length + low.length)) ['0'] ++ low)
    else none
  | _ => none

/-- The two hextets for an address of version 4 that stands at the end. -/
def replaceSuffix (parts : List (List Char)) : Option (List (List Char)) :=
  match parts.getLast? with
  | some last =>
    if '.' ∈ last then
      (parse4 last).map fun ip =>
        parts.dropLast ++ [Nat.toDigits 16 (ip.toNat / 65536), Nat.toDigits 16 (ip.toNat % 65536)]
    else some parts
  | none => none

/-- `_ip_int_from_string` of version 6 -/
def parseInt6 (t : List Char) : Option (BitVec 128) :=
  if (t.splitOn ':').length < 3 then none
  else do
    let parts ← replaceSuffix (t.splitOn ':')
    if 9 < parts.length then none
    else
      let expanded ← expandParts parts
      let hextets ← expanded.mapM parseHextet
      return BitVec.ofNat 128 (ofBigEndian 65536 hextets)

/-- `_split_scope_id`, of a text without a slash -/
def splitScopeId (t : List Char) : Option (List Char × Option ScopeId) :=
  match t.dropWhile (· ≠ '%') with
  | [] => some (t, none)
  | _ :: scope =>
    if h : scope ≠ [] ∧ '%' ∉ scope ∧ '/' ∉ scope then
      some (t.takeWhile (· ≠ '%'), some ⟨scope, h.1, h.2⟩)
    else none

/-- `IPv6Address(t)` -/
def ipv6Address (t : List Char) : Option Address :=
  if '/' ∈ t then none
  else do
    let (address, scopeId) ← splitScopeId t
    let ip ← parseInt6 address
    return .v6 ip scopeId

def ipAddress (t : List Char) : Option Address :=
  match parse4 t with
  | some ip => some (.v4 ip)
  | none => ipv6Address t

namespace Address

/-- `str(address)` -/
def text : Address → List Char
  | .v4 ip => text4 ip
  | .v6 ip none => text6 ip
  | .v6 ip (some scopeId) => text6 ip ++ '%' :: scopeId.text

end Address

/-! ### What is written is read back -/

theorem mapM_map_some {α β : Type} {f : α → β} {g : β → Option α} {l : List α}
    (h : ∀ a ∈ l, g (f a) = some a) : (l.map f).mapM g = some l := by
  induction l with
  | nil => rfl
  | cons a l ih =>
    rw [List.map_cons, List.mapM_cons, h a List.mem_cons_self,
      ih fun b hb => h b (List.mem_cons_of_mem _ hb)]
    rfl

theorem parse4_text4 (ip : BitVec 32) : parse4 (text4 ip) = some ip := by
  have hbare : ∀ t ∈ (bigEndian 256 4 ip.toNat).map (Nat.toDigits 10), '.' ∉ t := by
    intro t ht hdot
    obtain ⟨n, -, rfl⟩ := List.mem_map.mp ht
    have hdigit := Nat.isDigit_of_mem_toDigits (by decide) (by decide) hdot
    cases hdigit
  have hlen : ((bigEndian 256 4 ip.toNat).map (Nat.toDigits 10)).length = 4 := by
    rw [List.length_map, length_bigEndian]
  have hparts : (text4 ip).splitOn '.' = (bigEndian 256 4 ip.toNat).map (Nat.toDigits 10) := by
    refine List.splitOn_intercalate '.' hbare ?_
    intro hnil
    rw [hnil] at hlen
    cases hlen
  have hoctets : ((bigEndian 256 4 ip.toNat).map (Nat.toDigits 10)).mapM parseOctet =
      some (bigEndian 256 4 ip.toNat) :=
    mapM_map_some fun n hn => parseOctet_toDigits (lt_of_mem_bigEndian (by decide) hn)
  have hmod : ip.toNat % 256 ^ 4 = ip.toNat := Nat.mod_eq_of_lt (by simpa using ip.isLt)
  rw [parse4, hparts, if_pos hlen, hoctets, Option.map_some, ofBigEndian_bigEndian, hmod,
    BitVec.ofNat_toNat, BitVec.setWidth_eq]

theorem mem_splitOn {x : Char} (h : c ∈ t) (hx : c ≠ x) : ∃ part ∈ t.splitOn x, c ∈ part := by
  induction t with
  | nil => cases h
  | cons a t ih =>
    rw [List.splitOn_cons_eq_if_modifyHead]
    obtain ⟨part, parts, hparts⟩ := List.exists_cons_of_ne_nil (List.splitOn_ne_nil x t)
    rcases List.mem_cons.mp h with rfl | h
    · rw [if_neg (by simpa using hx), hparts]
      exact ⟨c :: part, List.mem_cons_self, List.mem_cons_self⟩
    · obtain ⟨found, hfound, hc⟩ := ih h
      split
      · exact ⟨found, List.mem_cons_of_mem _ hfound, hc⟩
      · rw [hparts] at hfound ⊢
        rcases List.mem_cons.mp hfound with rfl | hfound
        · exact ⟨a :: found, List.mem_cons_self, List.mem_cons_of_mem _ hc⟩
        · exact ⟨found, List.mem_cons_of_mem _ hfound, hc⟩

theorem isSome_of_mapM {α β : Type} {f : α → Option β} {l : List α} {r : List β}
    (h : l.mapM f = some r) : ∀ a ∈ l, (f a).isSome = true := by
  induction l generalizing r with
  | nil => exact fun a ha => absurd ha List.not_mem_nil
  | cons b l ih =>
    intro a ha
    rw [List.mapM_cons] at h
    obtain ⟨y, hy, h⟩ := Option.bind_eq_some_iff.mp h
    obtain ⟨ys, hys, -⟩ := Option.bind_eq_some_iff.mp h
    rcases List.mem_cons.mp ha with rfl | ha
    · rw [hy]
      rfl
    · exact ih hys a ha

/-- An address of version 4 is written with digits and dots only. -/
theorem chars_of_parse4 {ip : BitVec 32} (h : parse4 t = some ip) :
    ∀ c ∈ t, c = '.' ∨ c.isDigit = true := by
  intro c hc
  unfold parse4 at h
  split at h
  · obtain ⟨octets, hoctets, -⟩ := Option.map_eq_some_iff.mp h
    by_cases hdot : c = '.'
    · exact .inl hdot
    · obtain ⟨part, hpart, hc⟩ := mem_splitOn hc hdot
      obtain ⟨n, hn⟩ := Option.isSome_iff_exists.mp (isSome_of_mapM hoctets part hpart)
      exact .inr (digits_of_parseOctet hn c hc)
  · cases h

structure ZeroRun.Found (hextets : List Nat) (run : ZeroRun) : Prop where
  index : run.index = hextets.length
  length_le : run.length ≤ hextets.length
  trailing : hextets.drop (hextets.length - run.length) = List.replicate run.length 0
  best_le : run.bestStart + run.bestLength ≤ hextets.length
  best : (hextets.drop run.bestStart).take run.bestLength = List.replicate run.bestLength 0

theorem zeroRun_found (hextets : List Nat) : ZeroRun.Found hextets (zeroRun hextets) := by
  induction hextets using List.reverseRecOn with
  | nil => exact ⟨rfl, Nat.le_refl 0, rfl, Nat.le_refl 0, rfl⟩
  | append_singleton hextets hextet ih =>
    have hstep : zeroRun (hextets ++ [hextet]) = (zeroRun hextets).step hextet := by
      rw [zeroRun, List.foldl_append]
      rfl
    have hlen : (hextets ++ [hextet]).length = hextets.length + 1 := by simp
    have hkeep : ((hextets ++ [hextet]).drop (zeroRun hextets).bestStart).take
        (zeroRun hextets).bestLength = List.replicate (zeroRun hextets).bestLength 0 := by
      have hle := ih.best_le
      rw [List.drop_append_of_le_length (by omega),
        List.take_append_of_le_length (by rw [List.length_drop]; omega), ih.best]
    rw [hstep]
    unfold ZeroRun.step
    by_cases hzero : hextet = 0
    · have htrail : (hextets ++ [hextet]).drop (hextets.length - (zeroRun hextets).length) =
          List.replicate ((zeroRun hextets).length + 1) 0 := by
        rw [List.drop_append_of_le_length (by omega), ih.trailing, hzero, List.replicate_succ']
      have hdrop : hextets.length + 1 - ((zeroRun hextets).length + 1) =
          hextets.length - (zeroRun hextets).length := by omega
      rw [if_pos hzero]
      split
      · refine ⟨?_, ?_, ?_, ?_, ?_⟩ <;> simp only [hlen, ih.index]
        · have := ih.length_le; omega
        · rw [hdrop, htrail]
        · have := ih.length_le; omega
        · rw [htrail, List.take_of_length_le (by simp)]
      · refine ⟨?_, ?_, ?_, ?_, hkeep⟩ <;> simp only [hlen, ih.index]
        · have := ih.length_le; omega
        · rw [hdrop, htrail]
        · have := ih.best_le; omega
    · rw [if_neg hzero]
      refine ⟨?_, ?_, ?_, ?_, hkeep⟩ <;> simp only [hlen, ih.index]
      · omega
      · rw [List.drop_of_length_le (by simp)]
        rfl
      · have := ih.best_le; omega

theorem side_ne_nil (hextets : List Nat) : side hextets ≠ [] := by
  unfold side
  split
  · exact List.cons_ne_nil _ _
  · next h => simpa using h

theorem not_nil_mem_map (hextets : List Nat) : [] ∉ hextets.map (Nat.toDigits 16) := by
  intro h
  obtain ⟨n, -, hn⟩ := List.mem_map.mp h
  exact Nat.toDigits_ne_nil hn

theorem not_nil_mem_tail_side (hextets : List Nat) : [] ∉ (side hextets).tail := by
  unfold side
  split
  · exact List.not_mem_nil
  · exact fun h => not_nil_mem_map hextets (List.mem_of_mem_tail h)

theorem not_nil_mem_dropLast_side (hextets : List Nat) : [] ∉ (side hextets).dropLast := by
  unfold side
  split
  · exact List.not_mem_nil
  · exact fun h => not_nil_mem_map hextets (List.dropLast_subset _ h)

theorem trimSide_side (hextets : List Nat) {outer : Option (List Char)}
    (h : outer = (side hextets).head? ∨ outer = (side hextets).getLast?) :
    trimSide outer (side hextets) = some (hextets.map (Nat.toDigits 16)) := by
  by_cases hnil : hextets = []
  · subst hnil
    have houter : outer = some [] := by
      rcases h with h | h <;> rw [h] <;> rfl
    rw [houter]
    rfl
  · have hside : side hextets = hextets.map (Nat.toDigits 16) := if_neg hnil
    have houter : outer ≠ some [] := by
      intro hempty
      rw [hempty, hside] at h
      rcases h with h | h
      · exact not_nil_mem_map hextets (List.mem_of_mem_head? (h ▸ rfl))
      · exact not_nil_mem_map hextets (List.mem_of_getLast? h.symm)
    rw [trimSide, if_neg houter, hside]

theorem expandParts_sides {high low : List Nat} (h : high.length + low.length < 8) :
    expandParts (side high ++ [] :: side low) = some (high.map (Nat.toDigits 16) ++
        List.replicate (8 - (high.length + low.length)) ['0'] ++ low.map (Nat.toDigits 16)) := by
  have htail : (side high ++ [] :: side low).tail = (side high).tail ++ [] :: side low :=
    List.tail_append_of_ne_nil (side_ne_nil high)
  have hinner : (side high ++ [] :: side low).tail.dropLast =
      (side high).tail ++ [] :: (side low).dropLast := by
    rw [htail, List.dropLast_append_of_ne_nil (List.cons_ne_nil _ _),
      List.dropLast_cons_of_ne_nil (side_ne_nil low)]
  have hcount : (side high ++ [] :: side low).tail.dropLast.count [] = 1 := by
    rw [hinner, List.count_append, List.count_cons_self,
      List.count_eq_zero_of_not_mem (not_nil_mem_tail_side high),
      List.count_eq_zero_of_not_mem (not_nil_mem_dropLast_side low)]
  have hidx : (side high ++ [] :: side low).tail.idxOf [] + 1 = (side high).length := by
    rw [htail, List.idxOf_append_of_notMem (not_nil_mem_tail_side high), List.idxOf_cons_self,
      List.length_tail]
    have := List.length_pos_iff.mpr (side_ne_nil high)
    omega
  have htake : (side high ++ [] :: side low).take (side high).length = side high :=
    List.take_left' rfl
  have hdrop : (side high ++ [] :: side low).drop ((side high).length + 1) = side low := by
    rw [List.drop_append, List.drop_of_length_le (by omega)]
    simp
  have hhead : (side high ++ [] :: side low).head? = (side high).head? := by
    rw [List.head?_append_of_ne_nil _ (side_ne_nil high)]
  have hlast : (side high ++ [] :: side low).getLast? = (side low).getLast? := by
    rw [List.getLast?_append_of_ne_nil _ (List.cons_ne_nil _ _),
      List.getLast?_cons_of_ne_nil (side_ne_nil low)]
  unfold expandParts
  rw [hcount]
  simp only [hidx]
  rw [show (side high ++ [] :: side low).tail.idxOf [] + 2 = (side high).length + 1 by omega,
    htake, hdrop, hhead, hlast, trimSide_side high (.inl rfl), trimSide_side low (.inr rfl)]
  simp only [Option.bind_eq_bind, Option.bind_some, List.length_map]
  rw [if_pos h]

theorem expandParts_map (h : hextets.length = 8) :
    expandParts (hextets.map (Nat.toDigits 16)) = some (hextets.map (Nat.toDigits 16)) := by
  have hcount : (hextets.map (Nat.toDigits 16)).tail.dropLast.count [] = 0 := by
    refine List.count_eq_zero_of_not_mem fun hmem => not_nil_mem_map hextets ?_
    exact List.mem_of_mem_tail (List.dropLast_subset _ hmem)
  unfold expandParts
  rw [hcount]
  simp only [List.length_map, h, if_true]

/-- The parts that eight hextets are written in stand for them. -/
theorem expandParts_compress (h : hextets.length = 8) :
    expandParts (compressHextets hextets) = some (hextets.map (Nat.toDigits 16)) := by
  unfold compressHextets
  split
  · next hlong =>
    have hfound := zeroRun_found hextets
    generalize zeroRun hextets = run at hfound hlong
    have hle := hfound.best_le
    have hmiddle : hextets.drop run.bestStart =
        List.replicate run.bestLength 0 ++ hextets.drop (run.bestStart + run.bestLength) := by
      rw [← hfound.best, ← List.drop_drop, List.take_append_drop]
    have hhigh : (hextets.take run.bestStart).length = run.bestStart := by
      rw [List.length_take]
      omega
    have hlow : (hextets.drop (run.bestStart + run.bestLength)).length =
        8 - (run.bestStart + run.bestLength) := by rw [List.length_drop, h]
    have hrest : 8 - (run.bestStart + (8 - (run.bestStart + run.bestLength))) = run.bestLength := by
      omega
    rw [expandParts_sides (by omega), hhigh, hlow, hrest]
    conv_rhs => rw [← List.take_append_drop run.bestStart hextets, hmiddle]
    simp [Nat.toDigits_zero]
  · exact expandParts_map h

theorem mem_side (h : part ∈ side hextets) : ∀ c ∈ part, c ∈ hexDigits := by
  unfold side at h
  split at h
  · rw [List.mem_singleton.mp h]
    exact fun c hc => absurd hc List.not_mem_nil
  · obtain ⟨n, -, rfl⟩ := List.mem_map.mp h
    exact fun c hc => mem_hexDigits_of_mem_toDigits hc

theorem mem_compressHextets (h : part ∈ compressHextets hextets) : ∀ c ∈ part, c ∈ hexDigits := by
  unfold compressHextets at h
  split at h
  · rcases List.mem_append.mp h with h | h
    · exact mem_side h
    · rcases List.mem_cons.mp h with rfl | h
      · exact fun c hc => absurd hc List.not_mem_nil
      · exact mem_side h
  · obtain ⟨n, -, rfl⟩ := List.mem_map.mp h
    exact fun c hc => mem_hexDigits_of_mem_toDigits hc

theorem length_side (hextets : List Nat) : (side hextets).length ≤ max 1 hextets.length ∧
    0 < (side hextets).length := by
  unfold side
  split
  · exact ⟨Nat.le_max_left _ _, Nat.one_pos⟩
  · next h =>
    rw [List.length_map]
    exact ⟨Nat.le_max_right _ _, List.length_pos_iff.mpr h⟩

theorem length_compressHextets (h : hextets.length = 8) :
    3 ≤ (compressHextets hextets).length ∧ (compressHextets hextets).length ≤ 9 := by
  unfold compressHextets
  split
  · next hlong =>
    have hle := (zeroRun_found hextets).best_le
    have hhigh := length_side (hextets.take (zeroRun hextets).bestStart)
    have hlow := length_side
      (hextets.drop ((zeroRun hextets).bestStart + (zeroRun hextets).bestLength))
    rw [List.length_take] at hhigh
    rw [List.length_drop] at hlow
    rw [List.length_append, List.length_cons]
    omega
  · rw [List.length_map, h]
    omega

theorem splitOn_text6 : (text6 ip).splitOn ':' = compressHextets (bigEndian 65536 8 ip.toNat) := by
  refine List.splitOn_intercalate ':' (fun part hpart hc => ?_) fun hnil => ?_
  · have hcolon : ':' ∉ hexDigits := by decide
    exact hcolon (mem_compressHextets hpart ':' hc)
  · have hlen := (length_compressHextets (length_bigEndian 65536 8 ip.toNat)).1
    rw [hnil, List.length_nil] at hlen
    omega

theorem parseInt6_text6 : parseInt6 (text6 ip) = some ip := by
  have hlen := length_compressHextets (length_bigEndian 65536 8 ip.toNat)
  have hsuffix : replaceSuffix (compressHextets (bigEndian 65536 8 ip.toNat)) =
      some (compressHextets (bigEndian 65536 8 ip.toNat)) := by
    unfold replaceSuffix
    cases hlast : (compressHextets (bigEndian 65536 8 ip.toNat)).getLast? with
    | none =>
      rw [List.getLast?_eq_none_iff.mp hlast, List.length_nil] at hlen
      omega
    | some last =>
      have hdot : '.' ∉ hexDigits := by decide
      exact if_neg fun hc => hdot (mem_compressHextets (List.mem_of_getLast? hlast) '.' hc)
  have hhextets : ((bigEndian 65536 8 ip.toNat).map (Nat.toDigits 16)).mapM parseHextet =
      some (bigEndian 65536 8 ip.toNat) :=
    mapM_map_some fun n hn => parseHextet_toDigits (lt_of_mem_bigEndian (by decide) hn)
  have hmod : ip.toNat % 65536 ^ 8 = ip.toNat := Nat.mod_eq_of_lt (by simpa using ip.isLt)
  rw [parseInt6, splitOn_text6, if_neg (by omega), hsuffix]
  simp only [Option.bind_eq_bind, Option.bind_some]
  rw [if_neg (by omega), expandParts_compress (length_bigEndian 65536 8 ip.toNat), Option.bind_some,
    hhextets, Option.bind_some, ofBigEndian_bigEndian, hmod, BitVec.ofNat_toNat,
    BitVec.setWidth_eq]
  rfl

/-- An address of version 6 is written with colons and hexadecimal digits only. -/
theorem chars_text6 {ip : BitVec 128} (h : c ∈ text6 ip) : c = ':' ∨ c ∈ hexDigits := by
  by_cases hc : c = ':'
  · exact .inl hc
  · obtain ⟨part, hpart, hmem⟩ := mem_splitOn h hc
    rw [splitOn_text6] at hpart
    exact .inr (mem_compressHextets hpart c hmem)

theorem colon_mem_text6 : ':' ∈ text6 ip := by
  by_contra hnot
  have hlen := (length_compressHextets (length_bigEndian 65536 8 ip.toNat)).1
  rw [← splitOn_text6, List.splitOn_eq_singleton hnot, List.length_singleton] at hlen
  omega

theorem parse4_of_colon (h : ':' ∈ t) : parse4 t = none := by
  cases hparse : parse4 t with
  | none => rfl
  | some ip =>
    rcases chars_of_parse4 hparse ':' h with hdot | hdigit
    · cases hdot
    · cases hdigit

theorem not_mem_text6 (hcolon : c ≠ ':') (hdigit : c ∉ hexDigits) (ip : BitVec 128) :
    c ∉ text6 ip := by
  intro h
  rcases chars_text6 h with rfl | hmem
  · exact hcolon rfl
  · exact hdigit hmem

theorem splitScopeId_text6 : splitScopeId (text6 ip) = some (text6 ip, none) := by
  have hdrop : (text6 ip).dropWhile (· ≠ '%') = [] := by
    refine List.dropWhile_eq_nil_iff.mpr fun c hc => ?_
    have hne : c ≠ '%' := fun heq => not_mem_text6 (by decide) (by decide) ip (heq ▸ hc)
    simpa using hne
  unfold splitScopeId
  rw [hdrop]

theorem splitScopeId_scoped (scopeId : ScopeId) :
    splitScopeId (text6 ip ++ '%' :: scopeId.text) = some (text6 ip, some scopeId) := by
  have hall : ∀ c ∈ text6 ip, (decide (c ≠ '%')) = true := by
    intro c hc
    have hne : c ≠ '%' := fun heq => not_mem_text6 (by decide) (by decide) ip (heq ▸ hc)
    simpa using hne
  have hdrop : (text6 ip ++ '%' :: scopeId.text).dropWhile (· ≠ '%') = '%' :: scopeId.text := by
    rw [List.dropWhile_append_of_pos hall]
    rfl
  have htake : (text6 ip ++ '%' :: scopeId.text).takeWhile (· ≠ '%') = text6 ip := by
    rw [List.takeWhile_append_of_pos hall]
    simp
  unfold splitScopeId
  rw [hdrop, htake]
  exact dif_pos ⟨scopeId.ne_nil, scopeId.bare.1, scopeId.bare.2⟩

theorem ipv6Address_text (scopeId : Option ScopeId) :
    ipv6Address (Address.v6 ip scopeId).text = some (.v6 ip scopeId) := by
  have hslash : '/' ∉ text6 ip := not_mem_text6 (by decide) (by decide) ip
  unfold ipv6Address
  cases scopeId with
  | none =>
    simp only [Address.text, if_neg hslash, splitScopeId_text6, Option.bind_eq_bind,
      Option.bind_some, parseInt6_text6]
    rfl
  | some scopeId =>
    have hslash' : '/' ∉ text6 ip ++ '%' :: scopeId.text := by
      intro h
      rcases List.mem_append.mp h with h | h
      · exact hslash h
      · rcases List.mem_cons.mp h with h | h
        · cases h
        · exact scopeId.bare.2 h
    simp only [Address.text, if_neg hslash', splitScopeId_scoped, Option.bind_eq_bind,
      Option.bind_some, parseInt6_text6]
    rfl

/-- **The text of an address is read as the address.** -/
theorem ipAddress_text (address : Address) : ipAddress address.text = some address := by
  unfold ipAddress
  cases address with
  | v4 ip => rw [Address.text, parse4_text4]
  | v6 ip scopeId =>
    have hcolon : ':' ∈ (Address.v6 ip scopeId).text := by
      cases scopeId with
      | none => exact colon_mem_text6 ip
      | some scopeId => exact List.mem_append_left _ (colon_mem_text6 ip)
    rw [parse4_of_colon hcolon]
    exact ipv6Address_text ip scopeId

theorem text_injective {a b : Address} (h : a.text = b.text) : a = b := by
  have hread := congrArg ipAddress h
  rw [ipAddress_text, ipAddress_text] at hread
  exact Option.some.inj hread

end Ip

/-! ### Blocks of addresses

Blocks of addresses, and what `ipaddress` of Python 3.11 says of an address by them.

The blocks of the two versions do not correspond.  Loopback of version 4 is a block of its own,
while the one loopback address of version 6 lies in a block that is also reserved, and an address
of version 6 that carries one of version 4 is only sometimes judged by what it carries.
-/

namespace Ip

/-- The addresses that agree with `base` on their first `bits` bits. -/
structure Network (w : Nat) where
  base : Nat
  bits : Nat

/-- `ip in network` -/
def Network.contains {w : Nat} (network : Network w) (ip : BitVec w) : Bool :=
  ip.toNat / 2 ^ (w - network.bits) == network.base / 2 ^ (w - network.bits)

/-- The network `a.b.c.d/bits`. -/
def net4 (a b c d bits : Nat) : Network 32 := ⟨ofBigEndian 256 [a, b, c, d], bits⟩

/-- The network whose address begins with `hextets`, and has zeros after them. -/
def net6 (hextets : List Nat) (bits : Nat) : Network 128 :=
  ⟨ofBigEndian 65536 (hextets ++ List.replicate (8 - hextets.length) 0), bits⟩

/-! ### The registries -/

/-- `_IPv4Constants._private_networks` -/
def privateNetworks4 : List (Network 32) := [
  net4 0 0 0 0 8, net4 10 0 0 0 8, net4 127 0 0 0 8, net4 169 254 0 0 16, net4 172 16 0 0 12,
  net4 192 0 0 0 24, net4 192 0 0 170 31, net4 192 0 2 0 24, net4 192 168 0 0 16,
  net4 198 18 0 0 15, net4 198 51 100 0 24, net4 203 0 113 0 24, net4 240 0 0 0 4,
  net4 255 255 255 255 32]

/-- `_IPv4Constants._private_networks_exceptions` -/
def privateExceptions4 : List (Network 32) := [net4 192 0 0 9 32, net4 192 0 0 10 32]

/-- `_IPv6Constants._private_networks` -/
def privateNetworks6 : List (Network 128) := [
  net6 [0, 0, 0, 0, 0, 0, 0, 1] 128, net6 [] 128, net6 [0, 0, 0, 0, 0, 0xffff] 96,
  net6 [0x64, 0xff9b, 1] 48, net6 [0x100] 64, net6 [0x2001] 23, net6 [0x2001, 0xdb8] 32,
  net6 [0x2002] 16, net6 [0xfc00] 7, net6 [0xfe80] 10]

/-- `_IPv6Constants._private_networks_exceptions` -/
def privateExceptions6 : List (Network 128) := [
  net6 [0x2001, 1, 0, 0, 0, 0, 0, 1] 128, net6 [0x2001, 1, 0, 0, 0, 0, 0, 2] 128,
  net6 [0x2001, 3] 32, net6 [0x2001, 4, 0x112] 48, net6 [0x2001, 0x20] 28, net6 [0x2001, 0x30] 28]

/-- `_IPv6Constants._reserved_networks` -/
def reservedNetworks6 : List (Network 128) := [
  net6 [] 8, net6 [0x100] 8, net6 [0x200] 7, net6 [0x400] 6, net6 [0x800] 5, net6 [0x1000] 4,
  net6 [0x4000] 3, net6 [0x6000] 3, net6 [0x8000] 3, net6 [0xA000] 3, net6 [0xC000] 3,
  net6 [0xE000] 4, net6 [0xF000] 5, net6 [0xF800] 6, net6 [0xFE00] 9]

/-! ### The predicates -/

namespace Address

/-- `is_private` of version 4 -/
def isPrivate4 (ip : BitVec 32) : Bool :=
  privateNetworks4.any (·.contains ip) && privateExceptions4.all (!·.contains ip)

variable (ip : BitVec 128)

def ipv4Mapped : Option (BitVec 32) :=
  if ip.toNat / 2 ^ 32 = 0xFFFF then some (BitVec.ofNat 32 ip.toNat) else none

def sixtofour : Option (BitVec 32) :=
  if ip.toNat / 2 ^ 112 = 0x2002 then some (BitVec.ofNat 32 (ip.toNat / 2 ^ 80)) else none

/-- `teredo`: the server and the client -/
def teredo : Option (BitVec 32 × BitVec 32) :=
  if ip.toNat / 2 ^ 96 = 0x20010000 then
    some (BitVec.ofNat 32 (ip.toNat / 2 ^ 64), ~~~BitVec.ofNat 32 ip.toNat)
  else none

def isPrivate : Address → Bool
  | .v4 ip => isPrivate4 ip
  | .v6 ip _ =>
    match ipv4Mapped ip with
    | some mapped => isPrivate4 mapped
    | none => privateNetworks6.any (·.contains ip) && privateExceptions6.all (!·.contains ip)

def isGlobal : Address → Bool
  | .v4 ip => !(net4 100 64 0 0 10).contains ip && !isPrivate4 ip
  | .v6 ip scopeId => !isPrivate (.v6 ip scopeId)

def isReserved : Address → Bool
  | .v4 ip => (net4 240 0 0 0 4).contains ip
  | .v6 ip _ => reservedNetworks6.any (·.contains ip)

def isMulticast : Address → Bool
  | .v4 ip => (net4 224 0 0 0 4).contains ip
  | .v6 ip _ => (net6 [0xff00] 8).contains ip

def isUnspecified : Address → Bool
  | .v4 ip => ip.toNat == 0
  | .v6 ip _ => ip.toNat == 0

def isLoopback : Address → Bool
  | .v4 ip => (net4 127 0 0 0 8).contains ip
  | .v6 ip _ => ip.toNat == 1

def isLinkLocal : Address → Bool
  | .v4 ip => (net4 169 254 0 0 16).contains ip
  | .v6 ip _ => (net6 [0xfe80] 10).contains ip

/-- Loopback of version 4 is no other special block. -/
theorem loopback4 {ip : BitVec 32} (h : isLoopback (.v4 ip) = true) :
    isMulticast (.v4 ip) = false ∧ isReserved (.v4 ip) = false ∧
      isUnspecified (.v4 ip) = false := by
  simp only [isLoopback, isMulticast, isReserved, isUnspecified, Network.contains, net4,
    ofBigEndian, List.foldl_cons, List.foldl_nil, beq_iff_eq, beq_eq_false_iff_ne] at h ⊢
  omega

/-- The loopback address of version 6 is also reserved. -/
theorem reserved_of_loopback6 {ip : BitVec 128} {scopeId : Option ScopeId}
    (h : isLoopback (.v6 ip scopeId) = true) : isReserved (.v6 ip scopeId) = true := by
  have hone : ip.toNat = 1 := by simpa [isLoopback] using h
  have hfirst : (net6 [] 8).contains ip = true := by
    rw [Network.contains, hone]
    decide
  exact List.any_eq_true.mpr ⟨net6 [] 8, List.mem_cons_self, hfirst⟩

end Address

end Ip
