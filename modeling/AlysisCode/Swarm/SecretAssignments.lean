/-
How the assignment pattern reads a text.

A key, a sign and the beginning of a value make an assignment, whatever the value is; the value
goes to a closing quote or to the next gap.  So an assignment that begins in a run of credential
characters covers the rest of the run, and one that a cut text has was there before the cut.
-/
import AlysisCode.Swarm.SecretTokens
import Mathlib.Data.List.TakeWhile

namespace AlysisCode.Swarm

open Substitute Text

/-! ### Keys -/

variable {t k z : List Char} {form : KeyForm} {previous : Option Char}

theorem starts_agree {s s' : List Char} (hs : ∀ l ∈ s, l ∈ letters) (hs' : ∀ l ∈ s', l ∈ letters)
    (h : starts (s.map caseless) t = true) (h' : starts (s'.map caseless) t = true) :
    s.take s'.length = s'.take s.length := by
  induction s generalizing s' t with
  | nil => simp
  | cons l s ih =>
    cases s' with
    | nil => simp
    | cons l' s' =>
      cases t with
      | nil => cases h
      | cons c t =>
        rw [List.map_cons, starts, Bool.and_eq_true] at h h'
        have hl : l = l' := letters_distinct (hs l List.mem_cons_self)
          (hs' l' List.mem_cons_self) h.1 h'.1
        rw [List.length_cons, List.length_cons, List.take_succ_cons, List.take_succ_cons, hl,
          ih (fun a ha => hs a (List.mem_cons_of_mem l ha))
            (fun a ha => hs' a (List.mem_cons_of_mem l' ha)) h.2 h'.2]

theorem KeyForm.take_starts (h : 0 < form.take t) : starts (word form.first) t = true := by
  unfold KeyForm.take at h
  split at h
  · assumption
  · cases h

theorem keyForms_letters (h : form ∈ keyForms) : (∀ l ∈ form.first.toList, l ∈ letters) ∧
      ∀ second ∈ form.second, (∀ l ∈ second.toList, l ∈ letters) ∧ second ≠ "" := by
  simp only [keyForms, List.mem_cons, List.not_mem_nil, or_false] at h
  rcases h with rfl | rfl | rfl | rfl | rfl | rfl | rfl <;> decide

theorem keyForms_distinct {form' : KeyForm} (h : form ∈ keyForms) (h' : form' ∈ keyForms)
    (hagree : form.first.toList.take form'.first.toList.length =
      form'.first.toList.take form.first.toList.length) : form = form' := by
  simp only [keyForms, List.mem_cons, List.not_mem_nil, or_false] at h h'
  rcases h with rfl | rfl | rfl | rfl | rfl | rfl | rfl <;>
    rcases h' with rfl | rfl | rfl | rfl | rfl | rfl | rfl <;>
      first | rfl | exact absurd hagree (by decide)

theorem takeKey_form (h : 0 < takeKey t) :
    ∃ form ∈ keyForms, 0 < form.take t ∧ takeKey t = form.take t := by
  obtain ⟨form, hform, htake⟩ := List.mem_map.mp (firstOf_pos h)
  change form.take t = takeKey t at htake
  exact ⟨form, hform, by omega, htake.symm⟩

theorem takeKey_of_form (hform : form ∈ keyForms) (h : 0 < form.take t) :
    takeKey t = form.take t := by
  have hpos : 0 < takeKey t := by
    by_contra hzero
    have hnone := firstOf_eq_zero.mp (Nat.eq_zero_of_not_pos hzero) _
      (List.mem_map_of_mem (f := (·.take t)) hform)
    omega
  obtain ⟨form', hform', hpos', htake⟩ := takeKey_form hpos
  have hagree := starts_agree (keyForms_letters hform).1 (keyForms_letters hform').1
    (KeyForm.take_starts h) (KeyForm.take_starts hpos')
  rw [keyForms_distinct hform hform' hagree, htake]

theorem word_length (s : String) : (word s).length = s.length := by
  unfold word
  rw [List.length_map, String.length_toList]

variable {p : Char → Bool} {s : String} {p' : Option Char} {c : Char}

theorem starts_word_of_cut (hs : ∀ l ∈ s.toList, l ∈ letters)
    (h : starts (word s) (k ++ '[' :: z) = true) : starts (word s) k = true := by
  have hno : ∀ p ∈ word s, p '[' = false := by
    intro p hp
    by_contra hmatch
    have hcred := word_class (fun l hl => .inl (hs l hl)) hp (by simpa using hmatch)
    exact absurd hcred (by decide)
  rwa [starts_stop hno] at h

theorem not_starts_marker (hs : ∀ l ∈ s.toList, l ∈ letters) (hne : s ≠ "") (z : List Char) :
    starts (word s) ('[' :: z) = false := by
  by_contra h
  have hcut := starts_word_of_cut (k := []) hs (by simpa using h)
  have hlong := starts_length hcut
  rw [word_length, List.length_nil, Nat.le_zero, String.length_eq_zero_iff] at hlong
  exact hne hlong

theorem takeSecond_cut (hs : ∀ l ∈ s.toList, l ∈ letters) (hne : s ≠ "")
    (h : 0 < takeSecond s (k ++ '[' :: z)) (y : List Char) :
    takeSecond s (k ++ y) = takeSecond s (k ++ '[' :: z) ∧
      takeSecond s (k ++ '[' :: z) ≤ k.length := by
  cases k with
  | nil =>
    unfold takeSecond at h
    change 0 < if starts (word s) ('[' :: z) = true then 0 + s.length else 0 at h
    rw [not_starts_marker hs hne] at h
    cases h
  | cons d rest =>
    have hjoint (x : List Char) : takeJoint (d :: rest ++ x) = takeJoint (d :: rest) := rfl
    have hsmall : takeJoint (d :: rest) ≤ (d :: rest).length := by
      unfold takeJoint
      split <;> simp
    have hdrop (x : List Char) : (d :: rest ++ x).drop (takeJoint (d :: rest)) =
        (d :: rest).drop (takeJoint (d :: rest)) ++ x :=
      List.drop_append_of_le_length hsmall
    unfold takeSecond at h ⊢
    rw [hjoint, hdrop] at h ⊢
    rw [hjoint, hdrop]
    split at h
    · rename_i hstarts
      have hcut := starts_word_of_cut hs hstarts
      have hlong := starts_length hcut
      rw [word_length, List.length_drop] at hlong
      rw [if_pos (starts_append hcut y), if_pos hstarts]
      exact ⟨rfl, by omega⟩
    · cases h

theorem KeyForm.take_cut (hform : form ∈ keyForms) (h : 0 < form.take (k ++ '[' :: z))
    (y : List Char) :
    form.take (k ++ y) = form.take (k ++ '[' :: z) ∧ form.take (k ++ '[' :: z) ≤ k.length := by
  obtain ⟨hfirst, hsecond⟩ := keyForms_letters hform
  have hstarts := starts_word_of_cut hfirst (KeyForm.take_starts h)
  have hle : form.first.length ≤ k.length := word_length form.first ▸ starts_length hstarts
  have hstarts' (x : List Char) : starts (word form.first) (k ++ x) = true :=
    starts_append hstarts x
  have hdrop (x : List Char) : (k ++ x).drop form.first.length = k.drop form.first.length ++ x :=
    List.drop_append_of_le_length hle
  unfold KeyForm.take at h ⊢
  rw [if_pos (hstarts' _)] at h
  rw [if_pos (hstarts' _), if_pos (hstarts' _)]
  cases hform' : form.second with
  | none => exact ⟨rfl, hle⟩
  | some second =>
    obtain ⟨hletters, hne⟩ := hsecond second hform'
    rw [hform'] at h
    dsimp only at h ⊢
    rw [hdrop] at h ⊢
    rw [hdrop]
    have hpos : 0 < takeSecond second (k.drop form.first.length ++ '[' :: z) := by
      by_contra hzero
      rw [Nat.eq_zero_of_not_pos hzero] at h
      cases h
    obtain ⟨hsame, hlong⟩ := takeSecond_cut hletters hne hpos y
    rw [hsame]
    refine ⟨rfl, ?_⟩
    rw [List.length_drop] at hlong
    split <;> omega

theorem takeKey_cut (h : 0 < takeKey (k ++ '[' :: z)) (y : List Char) :
    takeKey (k ++ y) = takeKey (k ++ '[' :: z) ∧ takeKey (k ++ '[' :: z) ≤ k.length := by
  obtain ⟨form, hform, hpos, htake⟩ := takeKey_form h
  obtain ⟨hsame, hle⟩ := KeyForm.take_cut hform hpos y
  rw [htake]
  exact ⟨by rw [takeKey_of_form hform (by omega), hsame], hle⟩

theorem takeKey_head (h : 0 < takeKey t) : ∃ c ∈ t.head?, ∃ l ∈ letters, caseless l c = true := by
  obtain ⟨form, hform, hpos, -⟩ := takeKey_form h
  have hstarts := KeyForm.take_starts hpos
  have hfirst : ∃ l ∈ letters, (word form.first)[0]? = some (caseless l) := by
    simp only [keyForms, List.mem_cons, List.not_mem_nil, or_false] at hform
    rcases hform with rfl | rfl | rfl | rfl | rfl | rfl | rfl
    · exact ⟨'a', by decide, rfl⟩
    · exact ⟨'a', by decide, rfl⟩
    · exact ⟨'a', by decide, rfl⟩
    · exact ⟨'p', by decide, rfl⟩
    · exact ⟨'p', by decide, rfl⟩
    · exact ⟨'s', by decide, rfl⟩
    · exact ⟨'c', by decide, rfl⟩
  obtain ⟨l, hl, hp⟩ := hfirst
  obtain ⟨c, hc, hmatch⟩ := of_starts hstarts hp
  rw [← List.head?_eq_getElem?] at hc
  exact ⟨c, hc, l, hl, hmatch⟩

/-! ### Values -/

theorem run_pos : 0 < run p t ↔ ∃ c ∈ t.head?, p c = true := by
  cases t with
  | nil => simp [run]
  | cons c t =>
    unfold run
    rw [List.takeWhile_cons]
    by_cases h : p c = true <;> simp [h]

theorem takeValue_cons (c : Char) (rest : List Char) :
    takeValue (c :: rest) = if (c == '"' || c == '\'') && rest.contains c then
      run (· != c) rest + 2 else run isSolid (c :: rest) :=
  rfl

theorem takeValue_pos : 0 < takeValue t ↔ ∃ c ∈ t.head?, isSolid c = true := by
  cases t with
  | nil => simp [takeValue]
  | cons c rest =>
    rw [takeValue_cons]
    split
    · rename_i hquote
      have hc : c = '"' ∨ c = '\'' := by
        simp only [Bool.and_eq_true, Bool.or_eq_true, beq_iff_eq] at hquote
        exact hquote.1
      constructor
      · intro _
        rcases hc with rfl | rfl
        · exact ⟨_, rfl, by decide⟩
        · exact ⟨_, rfl, by decide⟩
      · intro _
        exact Nat.succ_pos _
    · exact run_pos

theorem takeValue_le (t : List Char) : takeValue t ≤ t.length := by
  cases t with
  | nil => exact Nat.le_refl 0
  | cons c rest =>
    rw [takeValue_cons]
    split
    · rename_i hquote
      have hmem : c ∈ rest := by
        rw [Bool.and_eq_true] at hquote
        exact List.contains_iff_mem.mp hquote.2
      have hsplit := congrArg List.length
        (List.takeWhile_append_dropWhile (p := (· != c)) (l := rest))
      rw [List.length_append] at hsplit
      have hrest : rest.dropWhile (· != c) ≠ [] := by
        intro hnil
        rw [List.dropWhile_eq_nil_iff] at hnil
        simpa using hnil c hmem
      have hpos := List.length_pos_of_ne_nil hrest
      unfold run
      rw [List.length_cons]
      omega
    · exact run_le isSolid (c :: rest)

theorem run_ge {n : Nat} (h : ∀ k, k < n → ∃ c, t[k]? = some c ∧ p c = true) : n ≤ run p t := by
  induction n generalizing t with
  | zero => exact Nat.zero_le _
  | succ n ih =>
    obtain ⟨c, hc, hpc⟩ := h 0 (Nat.succ_pos n)
    cases t with
    | nil => cases hc
    | cons d t =>
      obtain rfl : d = c := Option.some.inj hc
      have hrest : n ≤ run p t := ih fun k hk => h (k + 1) (Nat.succ_lt_succ hk)
      have hcons : run p (d :: t) = run p t + 1 := by
        unfold run
        rw [List.takeWhile_cons_of_pos hpc, List.length_cons]
      omega

/-- Where a match of an assignment may end: behind a quote, or before a gap. -/
def EndsAt (n : Nat) (t : List Char) : Prop :=
  (∃ c, t[n - 1]? = some c ∧ (c = '"' ∨ c = '\'')) ∨
    ((∃ c, t[n - 1]? = some c ∧ isSolid c = true) ∧ ∀ c, t[n]? = some c → isSolid c = false)

theorem getElem?_run (h : t[run p t]? = some c) : p c = false := by
  have hsplit := List.takeWhile_append_dropWhile (p := p) (l := t)
  rw [← hsplit, List.getElem?_append_right (by rw [hsplit]; exact Nat.le_refl _), hsplit] at h
  have hzero : run p t - (t.takeWhile p).length = 0 := Nat.sub_self _
  rw [hzero, ← List.head?_eq_getElem?] at h
  exact head_dropWhile _ c h

theorem takeValue_ends (h : 0 < takeValue t) : EndsAt (takeValue t) t := by
  have hpos := h
  have hle := takeValue_le t
  cases t with
  | nil => cases h
  | cons c rest =>
    rw [takeValue_cons] at h hle ⊢
    split at h
    · rename_i hquote
      have hq := hquote
      rw [Bool.and_eq_true, Bool.or_eq_true, beq_iff_eq, beq_iff_eq] at hq
      rw [if_pos hquote] at hle ⊢
      refine .inl ⟨c, ?_, hq.1⟩
      have hlt : run (· != c) rest < rest.length := by
        rw [List.length_cons] at hle
        omega
      obtain ⟨d, hd⟩ : ∃ d, rest[run (· != c) rest]? = some d :=
        ⟨_, List.getElem?_eq_getElem hlt⟩
      have hdc := getElem?_run hd
      have hidx : run (· != c) rest + 2 - 1 = run (· != c) rest + 1 := rfl
      rw [hidx, List.getElem?_cons_succ, hd]
      simpa using hdc
    · rename_i hquote
      rw [if_neg hquote]
      refine .inr ⟨?_, fun d hd => getElem?_run hd⟩
      exact of_mem_run (Nat.sub_lt h Nat.one_pos)

/-! ### Assignments -/

theorem isBoundary_iff (hc : c ∈ t.head?) (hword : isWordChar c = true) :
    isBoundary previous t = true ↔ ∀ d ∈ previous, isWordChar d = false := by
  unfold isBoundary
  rw [Option.mem_def.mp hc]
  cases previous with
  | none | some d => simp [hword]

structure AssignmentAt (previous : Option Char) (t : List Char) : Prop where
  boundary : isBoundary previous t = true
  key : 0 < takeKey t
  sign : ∃ c, t[signAt t]? = some c ∧ (c = ':' ∨ c = '=')
  value : 0 < takeValue (t.drop (valueAt t))
  length : takeAssignment previous t = valueAt t + takeValue (t.drop (valueAt t))

theorem isAssignment_iff : isAssignment t = true ↔ 0 < takeKey t ∧
      (∃ c, t[signAt t]? = some c ∧ (c = ':' ∨ c = '=')) ∧ 0 < takeValue (t.drop (valueAt t)) := by
  unfold isAssignment
  rw [Bool.and_eq_true, Bool.and_eq_true, and_assoc, decide_eq_true_eq, decide_eq_true_eq]
  refine and_congr_right fun _ => and_congr_left fun _ => ?_
  cases t[signAt t]? with
  | none | some c => simp

theorem takeAssignment_pos (h : 0 < takeAssignment previous t) : AssignmentAt previous t := by
  unfold takeAssignment at h
  split at h
  · rename_i hboth
    obtain ⟨hboundary, hassignment⟩ := Bool.and_eq_true_iff.mp hboth
    obtain ⟨hkey, hsign, hvalue⟩ := isAssignment_iff.mp hassignment
    exact ⟨hboundary, hkey, hsign, hvalue, if_pos hboth⟩
  · cases h

theorem isAssignment_of_pos (h : 0 < takeAssignment previous t) : isAssignment t = true := by
  have hat := takeAssignment_pos h
  exact isAssignment_iff.mpr ⟨hat.key, hat.sign, hat.value⟩

theorem takeAssignment_of (hboundary : isBoundary previous t = true) (h : isAssignment t = true) :
    0 < takeAssignment previous t := by
  have hvalue := (isAssignment_iff.mp h).2.2
  unfold takeAssignment
  rw [hboundary, h]
  show 0 < valueAt t + takeValue (t.drop (valueAt t))
  omega

namespace AssignmentAt

variable {previous : Option Char} {t : List Char}

theorem head (h : AssignmentAt previous t) : ∃ c ∈ t.head?, (∃ l ∈ letters, caseless l c = true) ∧
      ∀ d ∈ previous, isWordChar d = false := by
  obtain ⟨c, hc, l, hl, hmatch⟩ := takeKey_head h.key
  exact ⟨c, hc, ⟨l, hl, hmatch⟩,
    (isBoundary_iff hc (isWordChar_of_caseless hl hmatch)).mp h.boundary⟩

theorem le (h : AssignmentAt previous t) : takeAssignment previous t ≤ t.length := by
  have hle := takeValue_le (t.drop (valueAt t))
  have hpos := h.value
  rw [List.length_drop] at hle
  rw [h.length]
  omega

theorem ends (h : AssignmentAt previous t) : EndsAt (takeAssignment previous t) t := by
  have hpos := h.value
  have hends := takeValue_ends hpos
  rw [h.length]
  unfold EndsAt at hends ⊢
  rw [List.getElem?_drop, List.getElem?_drop] at hends
  have hidx : valueAt t + (takeValue (t.drop (valueAt t)) - 1) =
      valueAt t + takeValue (t.drop (valueAt t)) - 1 := by omega
  rwa [hidx] at hends

theorem covers (h : AssignmentAt previous t) {n : Nat}
    (hn : ∀ k, k < n → ∃ c, t[k]? = some c ∧ isCredential c = true) :
    n ≤ takeAssignment previous t := by
  have hpos := h.value
  rw [h.length]
  have hgap {k : Nat} (hk : k < n) : run isSpace (t.drop k) = 0 := by
    obtain ⟨c, hc, hcred⟩ := hn k hk
    by_contra hne
    obtain ⟨d, hd, hspace⟩ := run_pos.mp (Nat.pos_of_ne_zero hne)
    rw [List.head?_drop, hc, Option.mem_some_iff] at hd
    rw [← hd, (isCredential_solid hcred).2.1] at hspace
    cases hspace
  by_cases hkey : takeKey t < n
  · have hsign : signAt t = takeKey t := by rw [signAt, hgap hkey, Nat.add_zero]
    by_cases hnext : signAt t + 1 < n
    · have hvalue : valueAt t = signAt t + 1 := by rw [valueAt, hgap hnext, Nat.add_zero]
      -- the value begins with no quote, so it goes on to the next gap
      have hrun : n - valueAt t ≤ takeValue (t.drop (valueAt t)) := by
        have hsolid : n - valueAt t ≤ run isSolid (t.drop (valueAt t)) := by
          refine run_ge fun k hk => ?_
          obtain ⟨c, hc, hcred⟩ := hn (valueAt t + k) (by omega)
          exact ⟨c, by rw [List.getElem?_drop, hc], (isCredential_solid hcred).1⟩
        obtain ⟨c, hc, hcred⟩ := hn (valueAt t) (by omega)
        obtain ⟨-, -, hquote, hquote', -⟩ := isCredential_solid hcred
        have hhead : (t.drop (valueAt t)).head? = some c := by rw [List.head?_drop, hc]
        obtain ⟨rest, hrest⟩ := List.head?_eq_some_iff.mp hhead
        rw [hrest] at hsolid ⊢
        have hno : ¬(((c == '"' || c == '\'') && rest.contains c) = true) := by
          simp [hquote, hquote']
        rw [takeValue_cons, if_neg hno]
        exact hsolid
      omega
    · have hbehind : signAt t + 1 ≤ valueAt t := Nat.le_add_right _ _
      omega
  · have hbehind : takeKey t ≤ signAt t := Nat.le_add_right _ _
    have hbehind' : signAt t + 1 ≤ valueAt t := Nat.le_add_right _ _
    omega

end AssignmentAt

/-! ### Cut texts -/

theorem isAssignment_cut (h : isAssignment (k ++ '[' :: z) = true) (hc : isSolid c = true)
    (y : List Char) : isAssignment (k ++ c :: y) = true := by
  have hspace : isSpace c = false := by
    unfold isSolid at hc
    simp only [Bool.not_eq_true', Bool.or_eq_false_iff] at hc
    exact hc.1.1
  obtain ⟨hkey, ⟨d, hd, hsign⟩, hvalue⟩ := isAssignment_iff.mp h
  obtain ⟨hsame, hle⟩ := takeKey_cut hkey (c :: y)
  have hgap {n : Nat} (hn : n ≤ k.length) : run isSpace ((k ++ c :: y).drop n) =
      run isSpace (k.drop n) ∧ run isSpace ((k ++ '[' :: z).drop n) = run isSpace (k.drop n) := by
    rw [List.drop_append_of_le_length hn, List.drop_append_of_le_length hn, run_stop hspace,
      run_stop (by decide)]
    exact ⟨rfl, rfl⟩
  have hsignAt : signAt (k ++ c :: y) = signAt (k ++ '[' :: z) := by
    unfold signAt
    rw [hsame, (hgap hle).1, (hgap hle).2]
  have hbefore : signAt (k ++ '[' :: z) < k.length := by
    have hrun := run_le isSpace (k.drop (takeKey (k ++ '[' :: z)))
    rw [List.length_drop] at hrun
    have hbound : signAt (k ++ '[' :: z) ≤ k.length := by
      unfold signAt
      rw [(hgap hle).2]
      omega
    by_contra hnot
    have hend : signAt (k ++ '[' :: z) = k.length := by omega
    rw [hend, List.getElem?_append_right (Nat.le_refl _), Nat.sub_self] at hd
    obtain rfl : '[' = d := Option.some.inj hd
    rcases hsign with hsign | hsign
    · exact absurd hsign (by decide)
    · exact absurd hsign (by decide)
  have hvalueAt : valueAt (k ++ c :: y) = valueAt (k ++ '[' :: z) := by
    unfold valueAt
    rw [hsignAt, (hgap hbefore).1, (hgap hbefore).2]
  have hinside : valueAt (k ++ '[' :: z) ≤ k.length := by
    have hrun := run_le isSpace (k.drop (signAt (k ++ '[' :: z) + 1))
    rw [List.length_drop] at hrun
    have hnext : signAt (k ++ '[' :: z) + 1 ≤ k.length := hbefore
    unfold valueAt
    rw [(hgap hnext).2]
    omega
  refine isAssignment_iff.mpr ⟨by rw [hsame]; exact hkey, ⟨d, ?_, hsign⟩, ?_⟩
  · rw [List.getElem?_append_left hbefore] at hd
    rw [hsignAt, List.getElem?_append_left hbefore, hd]
  · rw [takeValue_pos, List.head?_drop] at hvalue ⊢
    rw [hvalueAt]
    by_cases hlast : valueAt (k ++ '[' :: z) < k.length
    · rw [List.getElem?_append_left hlast] at hvalue ⊢
      exact hvalue
    · have hend : valueAt (k ++ '[' :: z) = k.length := by omega
      rw [hend, List.getElem?_append_right (Nat.le_refl _), Nat.sub_self]
      exact ⟨c, rfl, hc⟩

theorem takeAssignment_cut {p : Option Char} (hk : k ≠ [])
    (h : 0 < takeAssignment p' (k ++ '[' :: z)) (hp : ∀ d ∈ p, isWordChar d = false)
    (hc : isSolid c = true) (y : List Char) : 0 < takeAssignment p (k ++ c :: y) := by
  obtain ⟨d, hd, ⟨l, hl, hmatch⟩, -⟩ := (takeAssignment_pos h).head
  refine takeAssignment_of ?_ (isAssignment_cut (isAssignment_of_pos h) hc y)
  have hhead : d ∈ (k ++ c :: y).head? := by
    rw [List.head?_append_of_ne_nil _ hk] at hd ⊢
    exact hd
  exact (isBoundary_iff hhead (isWordChar_of_caseless hl hmatch)).mpr hp

theorem takeAssignment_behind {p : Option Char} (h : 0 < takeAssignment p' t)
    (hp : ∀ d ∈ p, isWordChar d = false) : 0 < takeAssignment p t := by
  obtain ⟨d, hd, ⟨l, hl, hmatch⟩, -⟩ := (takeAssignment_pos h).head
  exact takeAssignment_of ((isBoundary_iff hd (isWordChar_of_caseless hl hmatch)).mpr hp)
    (isAssignment_of_pos h)

end AlysisCode.Swarm
