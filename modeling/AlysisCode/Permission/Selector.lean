/-
What a path selector matches.

A selector is compiled from left to right, and what is behind its last slash may take back the
part that was compiled in front of it.  So the parts of a selector are those of its segments, one
after the other, up to the last; `**` at the end takes back a slash, or another `**`.
-/
import AlysisCode.Permission.Evaluate

namespace AlysisCode.Permission

open Glob Text

/-! ### The parts of a selector -/

def segmentPart (c : Char) : GlobPart :=
  if c = '*' then .segment else if c = '?' then .one else .lit c

/-- The parts of a segment and the slash behind it. -/
def headParts (p : List Char) : List GlobPart :=
  if p = deep then [.directories] else p.map segmentPart ++ [.lit '/']

/-- The parts so far and those of the last segment. -/
def lastParts (slash : Prop) [Decidable slash] (parts : List GlobPart) (p : List Char) :
    List GlobPart :=
  if p = deep then if slash then parts.dropLast ++ [.subtree] else parts ++ [.anything]
  else parts ++ p.map segmentPart

/-- A segment of a selector: `**`, or without two `*` side by side. -/
def Whole (p : List Char) : Prop := p = deep ∨ doubled '*' p = false

instance (p : List Char) : Decidable (Whole p) := inferInstanceAs (Decidable (_ ∨ _))

theorem globParts_cons {c : Char} {rest : List Char} (previous : Option Char)
    (parts : List GlobPart) (h : c = '*' → rest.head? ≠ some '*') :
    globParts previous parts (c :: rest) = globParts (some c) (segmentPart c :: parts) rest := by
  by_cases hstar : c = '*'
  · subst hstar
    cases rest with
    | nil => rfl
    | cons d rest =>
      have hd : d ≠ '*' := by
        intro hd
        exact h rfl (by rw [hd]; rfl)
      rw [globParts] <;> simp [hd, segmentPart]
  · by_cases hone : c = '?'
    · subst hone
      rfl
    · rw [globParts] <;> simp [hstar, hone, segmentPart]

variable {p : List Char} {ps : List (List Char)}

theorem globParts_append {rest : List Char} (hp : doubled '*' p = false)
    (hrest : rest.head? ≠ some '*') (previous : Option Char) (parts : List GlobPart) :
    globParts previous parts (p ++ rest) =
      globParts (p.getLast?.or previous) ((p.map segmentPart).reverse ++ parts) rest := by
  induction p generalizing previous parts with
  | nil => simp
  | cons c p ih =>
    have hrun : c = '*' → p.head? ≠ some '*' := by
      rintro rfl hstar
      obtain ⟨rest', rfl⟩ := List.head?_eq_some_iff.mp hstar
      cases hp
    have hnext : c = '*' → (p ++ rest).head? ≠ some '*' := by
      intro hc
      cases p with
      | nil => exact hrest
      | cons d p => exact hrun hc
    have hp' : doubled '*' p = false := doubled_append (s := [c]) hp
    rw [List.cons_append, globParts_cons previous parts hnext, ih hp']
    cases p with
    | nil => simp
    | cons d p => simp [List.getLast?_cons]

theorem globParts_head (hp : Whole p) (previous : Option Char) (parts : List GlobPart)
    (rest : List Char) :
    globParts previous parts (p ++ '/' :: rest) =
      globParts (some '/') ((headParts p).reverse ++ parts) rest := by
  unfold headParts
  rcases hp with rfl | hp'
  · rfl
  · have hne : p ≠ deep := by
      rintro rfl
      cases hp'
    rw [if_neg hne, globParts_append hp' (by simp), globParts_cons _ _ (by simp)]
    simp [segmentPart]

theorem globParts_last (hp : Whole p) (previous : Option Char) (parts : List GlobPart) :
    globParts previous parts p = lastParts (previous = some '/') parts.reverse p := by
  unfold lastParts
  rcases hp with rfl | hp'
  · rw [if_pos rfl]
    by_cases hslash : previous = some '/'
    · rw [if_pos hslash]
      cases parts with
      | nil | cons part parts => simp [deep, globParts, hslash]
    · rw [if_neg hslash]
      simp [deep, globParts, hslash]
  · have hne : p ≠ deep := by
      rintro rfl
      cases hp'
    have happend := globParts_append hp' (by simp : [].head? ≠ some '*') previous parts
    rw [List.append_nil] at happend
    rw [if_neg hne, happend]
    simp [globParts]

theorem globParts_joinSegments {last : List Char} (hlast : Whole last) (front : List (List Char))
    (hfront : ∀ p ∈ front, Whole p) (previous : Option Char) (parts : List GlobPart) :
    globParts previous parts (joinSegments (front ++ [last])) =
      lastParts (previous = some '/' ∨ front ≠ []) (parts.reverse ++ front.flatMap headParts)
        last := by
  induction front generalizing previous parts with
  | nil =>
    rw [List.nil_append, joinSegments, List.intercalate_singleton, globParts_last hlast]
    simp
  | cons p front ih =>
    have hrest : front ++ [last] ≠ [] := by simp
    rw [List.forall_mem_cons] at hfront
    rw [List.cons_append, joinSegments_cons p hrest, globParts_head hfront.1, ih hfront.2]
    simp

/-! ### What the parts match -/

/-- No line feed, which `.` does not match. -/
def lineless (s : List Char) : Bool := s.all (· != '\n')

section

variable {parts : List GlobPart} {p t : List Char}

theorem matchesParts_segment (hp : '/' ∉ p) : matchesParts (p.map segmentPart ++ parts) t = true ↔
      ∃ u v, t = u ++ v ∧ '/' ∉ u ∧ matchesSegment p u = true ∧ matchesParts parts v = true := by
  induction p generalizing t with
  | nil =>
    constructor
    · intro h
      exact ⟨[], t, rfl, List.not_mem_nil, rfl, h⟩
    · rintro ⟨u, v, rfl, -, hu, hv⟩
      have hnil : u = [] := List.isEmpty_iff.mp hu
      rw [hnil]
      exact hv
  | cons c p ih =>
    rw [List.mem_cons, not_or] at hp
    rw [List.map_cons, List.cons_append]
    by_cases hstar : c = '*'
    · subst hstar
      have hcode : matchesParts (segmentPart '*' :: (p.map segmentPart ++ parts)) t =
          skipWhile (· != '/') (matchesParts (p.map segmentPart ++ parts)) t := rfl
      have hspec (u : List Char) : matchesSegment ('*' :: p) u =
          skipWhile (fun _ => true) (matchesSegment p) u := rfl
      rw [hcode, skipWhile_iff]
      constructor
      · rintro ⟨run, w, rfl, hrun, hw⟩
        obtain ⟨u, v, rfl, hu, hmatch, hv⟩ := (ih hp.2).mp hw
        refine ⟨run ++ u, v, by simp, ?_, ?_, hv⟩
        · intro hmem
          rcases List.mem_append.mp hmem with hmem | hmem
          · simpa using List.all_eq_true.mp hrun _ hmem
          · exact hu hmem
        · rw [hspec, skipWhile_iff]
          exact ⟨run, u, rfl, by simp, hmatch⟩
      · rintro ⟨u, v, rfl, hu, hmatch, hv⟩
        rw [hspec, skipWhile_iff] at hmatch
        obtain ⟨run, w, rfl, -, hw⟩ := hmatch
        rw [List.mem_append, not_or] at hu
        refine ⟨run, w ++ v, by simp, ?_, (ih hp.2).mpr ⟨w, v, rfl, hu.2, hw, hv⟩⟩
        rw [List.all_eq_true]
        intro d hd
        have hne : d ≠ '/' := by
          rintro rfl
          exact hu.1 hd
        simpa using hne
    · -- one character is matched, which is no slash
      have hcode (d : Char) (w : List Char) :
          matchesParts (segmentPart c :: (p.map segmentPart ++ parts)) (d :: w) =
            ((if c = '?' then d != '/' else d == c) &&
              matchesParts (p.map segmentPart ++ parts) w) := by
        unfold segmentPart
        rw [if_neg hstar]
        split <;> rfl
      have hspec (d : Char) (w : List Char) : matchesSegment (c :: p) (d :: w) =
          ((if c = '?' then true else d == c) && matchesSegment p w) := by
        unfold matchesSegment
        rw [List.map_cons, segmentToken, if_neg hstar]
        split <;> rfl
      have hempty : matchesSegment (c :: p) [] = false := by
        unfold matchesSegment
        rw [List.map_cons, segmentToken, if_neg hstar]
        split <;> rfl
      have hfits (d : Char) : (if c = '?' then d != '/' else d == c) = true ↔
          d ≠ '/' ∧ (if c = '?' then true else d == c) = true := by
        by_cases hone : c = '?'
        · rw [if_pos hone, if_pos hone]
          simp
        · rw [if_neg hone, if_neg hone, beq_iff_eq]
          constructor
          · rintro rfl
            exact ⟨Ne.symm hp.1, rfl⟩
          · exact fun h => h.2
      constructor
      · intro h
        cases t with
        | nil =>
          have hnil : matchesParts (segmentPart c :: (p.map segmentPart ++ parts)) [] = false := by
            unfold segmentPart
            rw [if_neg hstar]
            split <;> rfl
          rw [hnil] at h
          cases h
        | cons d w =>
          rw [hcode, Bool.and_eq_true, hfits] at h
          obtain ⟨⟨hd, hc⟩, hw⟩ := h
          obtain ⟨u, v, rfl, hu, hmatch, hv⟩ := (ih hp.2).mp hw
          refine ⟨d :: u, v, rfl, ?_, ?_, hv⟩
          · rw [List.mem_cons, not_or]
            exact ⟨Ne.symm hd, hu⟩
          · rw [hspec, hc, hmatch]
            rfl
      · rintro ⟨u, v, rfl, hu, hmatch, hv⟩
        cases u with
        | nil =>
          rw [hempty] at hmatch
          cases hmatch
        | cons d u =>
          rw [hspec, Bool.and_eq_true] at hmatch
          rw [List.mem_cons, not_or] at hu
          rw [List.cons_append, hcode, Bool.and_eq_true, hfits]
          exact ⟨⟨Ne.symm hu.1, hmatch.1⟩, (ih hp.2).mpr ⟨u, v, rfl, hu.2, hmatch.2, hv⟩⟩

theorem matchesParts_segment_end (hp : '/' ∉ p) :
    matchesParts (p.map segmentPart) t = true ↔ '/' ∉ t ∧ matchesSegment p t = true := by
  have hend : matchesParts (p.map segmentPart ++ []) t = true ↔ _ := matchesParts_segment hp
  rw [List.append_nil] at hend
  rw [hend]
  constructor
  · rintro ⟨u, v, rfl, hu, hmatch, hv⟩
    have hnil : v = [] := List.isEmpty_iff.mp hv
    rw [hnil, List.append_nil]
    exact ⟨hu, hmatch⟩
  · rintro ⟨ht, hmatch⟩
    exact ⟨t, [], by simp, ht, hmatch, rfl⟩

theorem matchesParts_slash :
    matchesParts (.lit '/' :: parts) t = true ↔ ∃ v, t = '/' :: v ∧ matchesParts parts v = true := by
  cases t with
  | nil | cons c v => simp [matchesParts]

theorem matchesParts_directories :
    matchesParts (.directories :: parts) t = true ↔ matchesParts parts t = true ∨
      ∃ u v, t = u ++ '/' :: v ∧ lineless u = true ∧ matchesParts parts v = true := by
  have hcode : matchesParts (.directories :: parts) t = (matchesParts parts t ||
      skipWhile (· != '\n') (matchesParts (.lit '/' :: parts)) t) := by
    rw [matchesParts]
    rfl
  rw [hcode, Bool.or_eq_true, skipWhile_iff]
  refine or_congr Iff.rfl ?_
  constructor
  · rintro ⟨u, w, rfl, hu, hw⟩
    obtain ⟨v, rfl, hv⟩ := matchesParts_slash.mp hw
    exact ⟨u, v, rfl, hu, hv⟩
  · rintro ⟨u, v, rfl, hu, hv⟩
    exact ⟨u, '/' :: v, rfl, hu, matchesParts_slash.mpr ⟨v, rfl, hv⟩⟩

theorem matchesParts_subtree :
    matchesParts [.subtree] t = true ↔ t = [] ∨ ∃ v, t = '/' :: v ∧ lineless v = true := by
  have hrun (v : List Char) : skipWhile (· != '\n') (matchesParts []) v = lineless v := by
    rw [Bool.eq_iff_iff, skipWhile_iff]
    constructor
    · rintro ⟨u, w, rfl, hu, hw⟩
      have hnil : w = [] := List.isEmpty_iff.mp hw
      rw [hnil, List.append_nil]
      exact hu
    · intro hv
      exact ⟨v, [], by simp, hv, rfl⟩
  cases t with
  | nil => simp [matchesParts]
  | cons c v =>
    have hcode : matchesParts [.subtree] (c :: v) = (c == '/' && lineless v) := by
      rw [← hrun]
      rfl
    rw [hcode]
    simp

end

/-! ### What the parts of segments match -/

section

variable {parts : List GlobPart} {p : List Char} {ss : List (List Char)}

/-- Without a slash there is one segment only. -/
theorem one_of_slashless (hss : ss ≠ []) (h : '/' ∉ joinSegments ss) : ∃ s, ss = [s] := by
  obtain ⟨s, rest, rfl⟩ := List.exists_cons_of_ne_nil hss
  by_cases hrest : rest = []
  · exact ⟨s, by rw [hrest]⟩
  · rw [joinSegments_cons s hrest] at h
    exact absurd (by simp) h

theorem matchesParts_head (hp : '/' ∉ p) (hne : p ≠ deep) (hss : ss ≠ [])
    (hclean : ∀ s ∈ ss, '/' ∉ s) :
    matchesParts (headParts p ++ parts) (joinSegments ss) = true ↔
      ∃ s rest, ss = s :: rest ∧ rest ≠ [] ∧ matchesSegment p s = true ∧
        matchesParts parts (joinSegments rest) = true := by
  rw [headParts, if_neg hne, List.append_assoc, matchesParts_segment hp]
  constructor
  · rintro ⟨u, w, hjoin, hu, hmatch, hw⟩
    obtain ⟨v, rfl, hv⟩ := matchesParts_slash.mp hw
    obtain ⟨us, vs, hus, hvs, rfl, rfl, rfl⟩ := split_joinSegments hss hclean hjoin
    obtain ⟨s, rfl⟩ := one_of_slashless hus hu
    rw [joinSegments, List.intercalate_singleton] at hmatch
    exact ⟨s, vs, rfl, hvs, hmatch, hv⟩
  · rintro ⟨s, rest, rfl, hrest, hmatch, hparts⟩
    exact ⟨s, '/' :: joinSegments rest, joinSegments_cons s hrest, hclean s List.mem_cons_self,
      hmatch, matchesParts_slash.mpr ⟨_, rfl, hparts⟩⟩

theorem lineless_joinSegments (ss : List (List Char)) :
    lineless (joinSegments ss) = ss.all lineless :=
  all_joinSegments rfl ss

/-- `**` and its slash match some segments without a line feed, but not the last one. -/
theorem matchesParts_deep (hss : ss ≠ []) (hclean : ∀ s ∈ ss, '/' ∉ s) :
    matchesParts (headParts deep ++ parts) (joinSegments ss) = true ↔
      ∃ us vs, ss = us ++ vs ∧ vs ≠ [] ∧ us.all lineless = true ∧
        matchesParts parts (joinSegments vs) = true := by
  rw [headParts, if_pos rfl, List.singleton_append, matchesParts_directories]
  constructor
  · rintro (h | ⟨u, v, hjoin, hu, hv⟩)
    · exact ⟨[], ss, rfl, hss, rfl, h⟩
    · obtain ⟨us, vs, -, hvs, rfl, rfl, rfl⟩ := split_joinSegments hss hclean hjoin
      rw [lineless_joinSegments] at hu
      exact ⟨us, vs, rfl, hvs, hu, hv⟩
  · rintro ⟨us, vs, rfl, hvs, hus, hparts⟩
    by_cases hnil : us = []
    · subst hnil
      exact .inl hparts
    · rw [← lineless_joinSegments] at hus
      exact .inr ⟨_, _, joinSegments_append hnil hvs, hus, hparts⟩

theorem matchesParts_last (hp : '/' ∉ p) (hss : ss ≠ []) (hclean : ∀ s ∈ ss, '/' ∉ s) :
    matchesParts (p.map segmentPart) (joinSegments ss) = true ↔
      ∃ s, ss = [s] ∧ matchesSegment p s = true := by
  rw [matchesParts_segment_end hp]
  constructor
  · rintro ⟨hslash, hmatch⟩
    obtain ⟨s, rfl⟩ := one_of_slashless hss hslash
    rw [joinSegments, List.intercalate_singleton] at hmatch
    exact ⟨s, rfl, hmatch⟩
  · rintro ⟨s, rfl, hmatch⟩
    rw [joinSegments, List.intercalate_singleton]
    exact ⟨hclean s List.mem_cons_self, hmatch⟩

theorem matchesParts_below (hp : '/' ∉ p) (hss : ss ≠ []) (hclean : ∀ s ∈ ss, '/' ∉ s) :
    matchesParts (p.map segmentPart ++ [.subtree]) (joinSegments ss) = true ↔
      ∃ s rest, ss = s :: rest ∧ matchesSegment p s = true ∧ rest.all lineless = true := by
  rw [matchesParts_segment hp]
  constructor
  · rintro ⟨u, w, hjoin, hu, hmatch, hw⟩
    rcases matchesParts_subtree.mp hw with rfl | ⟨v, rfl, hv⟩
    · rw [List.append_nil] at hjoin
      rw [← hjoin] at hu hmatch
      obtain ⟨s, hs, hmatch'⟩ := (matchesParts_last hp hss hclean).mp
        ((matchesParts_segment_end hp).mpr ⟨hu, hmatch⟩)
      exact ⟨s, [], hs, hmatch', rfl⟩
    · obtain ⟨us, vs, hus, -, rfl, rfl, rfl⟩ := split_joinSegments hss hclean hjoin
      obtain ⟨s, rfl⟩ := one_of_slashless hus hu
      rw [joinSegments, List.intercalate_singleton] at hmatch
      rw [lineless_joinSegments] at hv
      exact ⟨s, vs, rfl, hmatch, hv⟩
  · rintro ⟨s, rest, rfl, hmatch, hrest⟩
    by_cases hnil : rest = []
    · subst hnil
      refine ⟨s, [], ?_, hclean s List.mem_cons_self, hmatch, matchesParts_subtree.mpr (.inl rfl)⟩
      rw [joinSegments, List.intercalate_singleton, List.append_nil]
    · rw [← lineless_joinSegments] at hrest
      exact ⟨s, _, joinSegments_cons s hnil, hclean s List.mem_cons_self, hmatch,
        matchesParts_subtree.mpr (.inr ⟨_, rfl, hrest⟩)⟩

end

/-! ### What a selector matches -/

/-- The parts and the segments say the same of every path, and the segments want one. -/
structure Agrees (parts : List GlobPart) (ps : List (List Char)) : Prop where
  iff : ∀ ss, ss ≠ [] → (∀ s ∈ ss, '/' ∉ s) →
    (matchesParts parts (joinSegments ss) = true ↔ matchesSegments lineless ps ss = true)
  nil : matchesSegments lineless ps [] = false

theorem Agrees.head {parts : List GlobPart} (h : Agrees parts ps) (hp : '/' ∉ p) :
    Agrees (headParts p ++ parts) (p :: ps) where
  iff ss hss hclean := by
    by_cases hdeep : p = deep
    · subst hdeep
      rw [matchesParts_deep hss hclean, matchesSegments_deep]
      constructor
      · rintro ⟨us, vs, rfl, hvs, hus, hparts⟩
        have hclean' : ∀ s ∈ vs, '/' ∉ s := fun s hs => hclean s (List.mem_append_right us hs)
        exact ⟨us, vs, rfl, hus, (h.iff vs hvs hclean').mp hparts⟩
      · rintro ⟨us, vs, rfl, hus, hmatch⟩
        have hvs : vs ≠ [] := by
          rintro rfl
          rw [h.nil] at hmatch
          cases hmatch
        have hclean' : ∀ s ∈ vs, '/' ∉ s := fun s hs => hclean s (List.mem_append_right us hs)
        exact ⟨us, vs, rfl, hvs, hus, (h.iff vs hvs hclean').mpr hmatch⟩
    · rw [matchesParts_head hp hdeep hss hclean, matchesSegments_cons hdeep]
      constructor
      · rintro ⟨s, rest, rfl, hrest, hmatch, hparts⟩
        rw [List.forall_mem_cons] at hclean
        exact ⟨s, rest, rfl, hmatch, (h.iff rest hrest hclean.2).mp hparts⟩
      · rintro ⟨s, rest, rfl, hmatch, hmore⟩
        have hrest : rest ≠ [] := by
          rintro rfl
          rw [h.nil] at hmore
          cases hmore
        rw [List.forall_mem_cons] at hclean
        exact ⟨s, rest, rfl, hrest, hmatch, (h.iff rest hrest hclean.2).mpr hmore⟩
  nil := by
    by_contra hmatch
    rw [Bool.not_eq_false] at hmatch
    by_cases hdeep : p = deep
    · subst hdeep
      obtain ⟨us, vs, hnil, -, hvs⟩ := matchesSegments_deep.mp hmatch
      rw [(List.append_eq_nil_iff.mp hnil.symm).2, h.nil] at hvs
      cases hvs
    · obtain ⟨s, rest, hnil, -⟩ := (matchesSegments_cons hdeep).mp hmatch
      cases hnil

theorem Agrees.heads {parts : List GlobPart} (h : Agrees parts ps) (front : List (List Char))
    (hfront : ∀ p ∈ front, '/' ∉ p) :
    Agrees (front.flatMap headParts ++ parts) (front ++ ps) := by
  induction front with
  | nil => exact h
  | cons p front ih =>
    rw [List.forall_mem_cons] at hfront
    rw [List.flatMap_cons, List.append_assoc]
    exact (ih hfront.2).head hfront.1

theorem agrees_last (hp : '/' ∉ p) (hne : p ≠ deep) : Agrees (p.map segmentPart) [p] where
  iff ss hss hclean := by
    rw [matchesParts_last hp hss hclean, matchesSegments_cons hne]
    constructor
    · rintro ⟨s, rfl, hmatch⟩
      exact ⟨s, [], rfl, hmatch, rfl⟩
    · rintro ⟨s, rest, rfl, hmatch, hrest⟩
      rw [List.isEmpty_iff.mp hrest]
      exact ⟨s, rfl, hmatch⟩
  nil := by
    by_contra hmatch
    rw [Bool.not_eq_false] at hmatch
    obtain ⟨s, rest, hnil, -⟩ := (matchesSegments_cons hne).mp hmatch
    cases hnil

/-- `**` alone covers what has no line feed. -/
theorem matchesSegments_singleton_deep (covers : List Char → Bool) (ss : List (List Char)) :
    matchesSegments covers [deep] ss = ss.all covers := by
  rw [Bool.eq_iff_iff, matchesSegments_deep]
  constructor
  · rintro ⟨us, vs, rfl, hus, hvs⟩
    rw [List.isEmpty_iff.mp hvs, List.append_nil]
    exact hus
  · intro hss
    exact ⟨ss, [], by simp, hss, rfl⟩

theorem agrees_below (hp : '/' ∉ p) (hne : p ≠ deep) :
    Agrees (p.map segmentPart ++ [.subtree]) [p, deep] where
  iff ss hss hclean := by
    rw [matchesParts_below hp hss hclean, matchesSegments_cons hne]
    simp only [matchesSegments_singleton_deep]
  nil := by
    by_contra hmatch
    rw [Bool.not_eq_false] at hmatch
    obtain ⟨s, rest, hnil, -⟩ := (matchesSegments_cons hne).mp hmatch
    cases hnil

/-- `**` as the whole selector. -/
theorem matchesParts_anything (ss : List (List Char)) :
    matchesParts [.anything] (joinSegments ss) = matchesSegments lineless [deep] ss := by
  have hcode : matchesParts [.anything] (joinSegments ss) =
      skipWhile (· != '\n') (matchesParts []) (joinSegments ss) := rfl
  rw [hcode, matchesSegments_singleton_deep, ← lineless_joinSegments, Bool.eq_iff_iff,
    skipWhile_iff]
  constructor
  · rintro ⟨u, v, hjoin, hu, hv⟩
    rw [List.isEmpty_iff.mp hv, List.append_nil] at hjoin
    rw [hjoin]
    exact hu
  · intro hall
    exact ⟨_, [], by simp, hall, rfl⟩

/-- A path in normal form has no empty segment. -/
def NormalPath (path : List Char) : Prop := [] ∉ path.splitOn '/'

/-- Two `*` stand side by side only in a segment `**`. -/
def Segmented (pattern : List Char) : Prop := ∀ p ∈ pattern.splitOn '/', Whole p

/-- The last two segments are `**`. -/
def EndsDeepTwice (pattern : List Char) : Prop := [deep, deep] <:+ pattern.splitOn '/'

instance (path : List Char) : Decidable (NormalPath path) := inferInstanceAs (Decidable (¬_))

instance (pattern : List Char) : Decidable (Segmented pattern) :=
  inferInstanceAs (Decidable (∀ p ∈ _, _))

instance (pattern : List Char) : Decidable (EndsDeepTwice pattern) :=
  inferInstanceAs (Decidable (_ <:+ _))

theorem matchesParts_heads_subtree (front : List (List Char)) (hfront : ∀ p ∈ front, '/' ∉ p) :
    ∀ ss : List (List Char), ss ≠ [] → (∀ s ∈ ss, '/' ∉ s) → [] ∉ ss →
      matchesParts (front.flatMap headParts ++ [.subtree]) (joinSegments ss) = false := by
  induction front with
  | nil =>
    intro ss hss hclean hempty
    by_contra hmatch
    rw [Bool.not_eq_false] at hmatch
    obtain ⟨s, rest, rfl⟩ := List.exists_cons_of_ne_nil hss
    obtain ⟨c, s, rfl⟩ : ∃ c s', s = c :: s' := by
      refine List.exists_cons_of_ne_nil ?_
      rintro rfl
      exact hempty List.mem_cons_self
    have hslash : c ≠ '/' := by
      rintro rfl
      exact hclean _ List.mem_cons_self List.mem_cons_self
    have hfirst : (joinSegments ((c :: s) :: rest)).head? = some c := by
      by_cases hrest : rest = []
      · subst hrest
        simp [joinSegments]
      · rw [joinSegments_cons _ hrest]
        rfl
    rcases matchesParts_subtree.mp hmatch with hnil | ⟨v, hcons, -⟩
    · rw [hnil] at hfirst
      cases hfirst
    · rw [hcons] at hfirst
      exact hslash (Option.some.inj hfirst).symm
  | cons p front ih =>
    intro ss hss hclean hempty
    by_contra hmatch
    rw [Bool.not_eq_false, List.flatMap_cons, List.append_assoc] at hmatch
    rw [List.forall_mem_cons] at hfront
    have hlater : ∃ us vs, ss = us ++ vs ∧ vs ≠ [] ∧
        matchesParts (front.flatMap headParts ++ [.subtree]) (joinSegments vs) = true := by
      by_cases hdeep : p = deep
      · subst hdeep
        obtain ⟨us, vs, hcut, hvs, -, hparts⟩ := (matchesParts_deep hss hclean).mp hmatch
        exact ⟨us, vs, hcut, hvs, hparts⟩
      · obtain ⟨s, rest, hcut, hrest, -, hparts⟩ :=
          (matchesParts_head hfront.1 hdeep hss hclean).mp hmatch
        exact ⟨[s], rest, hcut, hrest, hparts⟩
    obtain ⟨us, vs, rfl, hvs, hparts⟩ := hlater
    rw [ih hfront.2 vs hvs (fun s hs => hclean s (List.mem_append_right us hs))
      (fun h => hempty (List.mem_append_right us h))] at hparts
    cases hparts

/-- `**` twice at the end takes the first of them back. -/
theorem globParts_twice {front : List (List Char)} (hfront : ∀ p ∈ front, Whole p) :
    globParts none [] (joinSegments (front ++ [deep, deep])) =
      front.flatMap headParts ++ [.subtree] := by
  have hdeep : Whole deep := Or.inl rfl
  have hwhole : ∀ p ∈ front ++ [deep], Whole p := by
    rw [List.forall_mem_append, List.forall_mem_singleton]
    exact ⟨hfront, hdeep⟩
  have hparts := globParts_joinSegments hdeep (front ++ [deep]) hwhole none []
  rw [List.append_assoc, List.singleton_append] at hparts
  rw [hparts, lastParts, if_pos rfl, if_pos (by simp)]
  simp [headParts]

theorem agrees_globParts (hne : ps ≠ []) (hclean : ∀ p ∈ ps, '/' ∉ p) (hwhole : ∀ p ∈ ps, Whole p)
    (halone : ps ≠ [deep]) (htwice : ¬[deep, deep] <:+ ps) :
    Agrees (globParts none [] (joinSegments ps)) ps := by
  obtain ⟨front, last, rfl⟩ : ∃ front last, ps = front ++ [last] :=
    ⟨_, _, (List.dropLast_concat_getLast hne).symm⟩
  rw [List.forall_mem_append, List.forall_mem_singleton] at hclean hwhole
  rw [globParts_joinSegments hwhole.2 front hwhole.1, lastParts, List.reverse_nil, List.nil_append]
  by_cases hlast : last = deep
  · subst hlast
    rw [if_pos rfl]
    rcases List.eq_nil_or_concat front with rfl | ⟨front, p, rfl⟩
    · exact absurd rfl halone
    · rw [List.concat_eq_append] at hclean htwice ⊢
      rw [List.forall_mem_append, List.forall_mem_singleton] at hclean
      have hp : p ≠ deep := by
        rintro rfl
        exact htwice ⟨front, by simp⟩
      have hparts := (agrees_below hclean.1.2 hp).heads front hclean.1.1
      have hdrop : ((front ++ [p]).flatMap headParts).dropLast =
          front.flatMap headParts ++ p.map segmentPart := by
        simp [headParts, hp, ← List.append_assoc]
      rw [if_pos (by simp), hdrop, List.append_assoc, List.append_assoc]
      exact hparts
  · rw [if_neg hlast]
    exact (agrees_last hclean.2 hlast).heads front hclean.1

/-- **What the code makes of a selector: `**` covers no line feed, and twice at the end it
matches nothing.** -/
theorem pathGlobMatches_iff {path pattern : List Char} (hpath : NormalPath path)
    (hpattern : Segmented pattern) :
    pathGlobMatches path pattern = true ↔
      ¬EndsDeepTwice pattern ∧ matchesPath lineless path pattern = true := by
  have hss : path.splitOn '/' ≠ [] := List.splitOn_ne_nil _ _
  have hclean : ∀ s ∈ path.splitOn '/', '/' ∉ s := fun _ => not_mem_of_mem_splitOn
  have hpath' : joinSegments (path.splitOn '/') = path := List.intercalate_splitOn '/'
  have hpattern' : joinSegments (pattern.splitOn '/') = pattern := List.intercalate_splitOn '/'
  have hcode : pathGlobMatches path pattern =
      matchesParts (globParts none [] (joinSegments (pattern.splitOn '/')))
        (joinSegments (path.splitOn '/')) := by
    rw [hpath', hpattern']
    rfl
  rw [hcode]
  unfold matchesPath
  by_cases htwice : EndsDeepTwice pattern
  · obtain ⟨front, hfront⟩ := htwice
    have hfront' : ∀ p ∈ front, p ∈ pattern.splitOn '/' := by
      intro p hp
      rw [← hfront]
      exact List.mem_append_left _ hp
    have hnone := matchesParts_heads_subtree front
      (fun p hp => not_mem_of_mem_splitOn (hfront' p hp)) _ hss hclean hpath
    rw [← hfront, globParts_twice fun p hp => hpattern p (hfront' p hp), hnone]
    simp [show EndsDeepTwice pattern from ⟨front, hfront⟩]
  · by_cases halone : pattern.splitOn '/' = [deep]
    · have hparts : globParts none [] (joinSegments [deep]) = [.anything] := rfl
      rw [halone, hparts, matchesParts_anything]
      simp [htwice]
    · have hagrees := agrees_globParts (List.splitOn_ne_nil '/' pattern)
        (fun _ => not_mem_of_mem_splitOn) hpattern halone htwice
      rw [hagrees.iff _ hss hclean]
      simp [htwice]

/-- **A selector matches as its segments do exactly if a path that fits it does not end at two
`**`, and fits it without a `**` over a line feed.** -/
theorem pathGlobMatches_agrees_iff {path pattern : List Char} (hpath : NormalPath path)
    (hpattern : Segmented pattern) :
    pathGlobMatches path pattern = matchesPath (fun _ => true) path pattern ↔
      (matchesPath (fun _ => true) path pattern = true →
        ¬EndsDeepTwice pattern ∧ matchesPath lineless path pattern = true) := by
  have hmono : matchesPath lineless path pattern = true →
      matchesPath (fun _ => true) path pattern = true :=
    matchesSegments_mono fun _ _ => rfl
  rw [Bool.eq_iff_iff, pathGlobMatches_iff hpath hpattern]
  constructor
  · exact fun h hmatch => h.mpr hmatch
  · exact fun h => ⟨fun hcode => hmono hcode.2, h⟩

theorem pathGlobMatches_agrees_iff_below :
    pathGlobMatches "src/a/b.py".toList "src/**/*.py".toList =
        matchesPath (fun _ => true) "src/a/b.py".toList "src/**/*.py".toList ↔
      (matchesPath (fun _ => true) "src/a/b.py".toList "src/**/*.py".toList = true →
        ¬EndsDeepTwice "src/**/*.py".toList ∧
          matchesPath lineless "src/a/b.py".toList "src/**/*.py".toList = true) :=
  pathGlobMatches_agrees_iff (by decide +kernel) (by decide +kernel)

/-- A selector that ends at two `**` does not match what is below its directory. -/
theorem pathGlobMatches_twice : ¬∀ path pattern value : List Char, NormalPath path →
      normalizePathPattern value = .ok pattern →
      pathGlobMatches path pattern = matchesPath (fun _ => true) path pattern := by
  intro h
  have hagrees := h "secrets/key".toList "secrets/**/**".toList "secrets/**/**".toList
    (by decide +kernel) (by decide +kernel)
  revert hagrees
  decide +kernel

/-! ### Normalised paths -/

end AlysisCode.Permission
