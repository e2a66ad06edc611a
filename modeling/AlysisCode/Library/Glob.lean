/-
Shell patterns, as `fnmatch.fnmatchcase` reads them.

A pattern is compiled to tokens and the tokens are matched against a whole text.  In `[seq]`
a hyphen between two characters is a range; a range that runs backwards is dropped together
with its ends, and what is left is read again, so the text of the class decides only then
whether it is negated.
-/
import Mathlib.Data.List.Basic
import Mathlib.Data.Char

namespace Glob

/-- `k` holds of what is left of the text behind some characters of `p`. -/
def skipWhile (p : Char → Bool) (k : List Char → Bool) : List Char → Bool
  | [] => k []
  | c :: rest => k (c :: rest) || (p c && skipWhile p k rest)

inductive Token where
  | star
  | any
  | lit (c : Char)
  /-- A character in one of the ranges, or in none of them. -/
  | set (negated : Bool) (ranges : List (Char × Char))
  deriving DecidableEq

/-! ### Character classes -/

/-- The text of the class that begins here, and what follows its `]`. -/
def splitClass (t : List Char) : Option (List Char × List Char) :=
  let (bang, t) := if t.head? = some '!' then (['!'], t.tail) else ([], t)
  let (bracket, t) := if t.head? = some ']' then ([']'], t.tail) else ([], t)
  match t.dropWhile (· != ']') with
  | _ :: after => some (bang ++ bracket ++ t.takeWhile (· != ']'), after)
  | [] => none

/-- The class's text cut at the hyphens of its ranges; none is looked for among the first
`skip` characters, and the last character is no range's hyphen. -/
def chunksFrom : Nat → Nat → List Char → List (List Char)
  | 0, _, t => [t]
  | fuel + 1, skip, t =>
    match (t.drop skip).findIdx? (· == '-') with
    | none => [t]
    | some i =>
      let rest := t.drop (skip + i + 1)
      if rest.isEmpty then [t] else t.take (skip + i) :: chunksFrom fuel 2 rest

/-- Drop the ranges that run backwards, the last one first. -/
def dropEmptyRanges (chunks : List (List Char)) : List (List Char) :=
  chunks.foldr (fun chunk later =>
    match later with
    | [] => [chunk]
    | next :: rest =>
      match chunk.getLast?, next.head? with
      | some a, some b => if b < a then (chunk.dropLast ++ next.tail) :: rest else chunk :: later
      | _, _ => chunk :: later) []

def classRanges : List Char → List (List Char) → List (Char × Char)
  | chunk, [] => chunk.map fun c => (c, c)
  | chunk, next :: rest =>
    match chunk.getLast?, next.head? with
    | some a, some b => chunk.dropLast.map (fun c => (c, c)) ++ (a, b) :: classRanges next.tail rest
    | _, _ => ('-', '-') :: classRanges next rest

def classToken (t : List Char) : Token :=
  match dropEmptyRanges (chunksFrom t.length (if t.head? = some '!' then 2 else 1) t) with
  | ('!' :: chunk) :: rest => .set true (classRanges chunk rest)
  | chunk :: rest => .set false (classRanges chunk rest)
  | [] => .set false []

/-! ### Patterns -/

def tokensFrom : Nat → List Char → List Token
  | 0, _ => []
  | _, [] => []
  | fuel + 1, c :: rest =>
    if c = '*' then .star :: tokensFrom fuel rest
    else if c = '?' then .any :: tokensFrom fuel rest
    else if c = '[' then
      match splitClass rest with
      | some (text, after) => classToken text :: tokensFrom fuel after
      | none => .lit '[' :: tokensFrom fuel rest
    else .lit c :: tokensFrom fuel rest

def tokens (pattern : List Char) : List Token := tokensFrom pattern.length pattern

def matchesTokens : List Token → List Char → Bool
  | [], t => t.isEmpty
  | .star :: tokens, t => skipWhile (fun _ => true) (matchesTokens tokens) t
  | .any :: tokens, t =>
    match t with
    | _ :: rest => matchesTokens tokens rest
    | [] => false
  | .lit d :: tokens, t =>
    match t with
    | c :: rest => c == d && matchesTokens tokens rest
    | [] => false
  | .set negated ranges :: tokens, t =>
    match t with
    | c :: rest =>
      (negated != ranges.any fun r => r.1 ≤ c && c ≤ r.2) && matchesTokens tokens rest
    | [] => false

/-- `fnmatch.fnmatchcase(name, pattern)`. -/
def fnmatchcase (name pattern : List Char) : Bool := matchesTokens (tokens pattern) name

example : fnmatchcase "v3.11".toList "v[!4-9]*[0-9]".toList = true := by decide

example : fnmatchcase "a-z".toList "a[c-a-]?".toList = true := by decide

end Glob

/-! ### Segment by segment

Globs that are matched segment by segment.

A path and a pattern are cut at their slashes.  A segment of the pattern matches one of the path;
the segment `**` matches any number of them, of those that it may cover.  Covering everything is
the meaning of the pattern; what covers less is the meaning of a matcher that cannot.
-/

namespace Glob

/-! ### Segments -/

def segmentToken (c : Char) : Token := if c = '*' then .star else if c = '?' then .any else .lit c

def matchesSegment (p s : List Char) : Bool := matchesTokens (p.map segmentToken) s

/-- The segment of a pattern that stands for any number of segments. -/
def deep : List Char := ['*', '*']

/-- `k` holds behind some of the segments, which `**` covers. -/
def skipSegments (covers : List Char → Bool) (k : List (List Char) → Bool) : List (List Char) → Bool
  | [] => k []
  | s :: rest => k (s :: rest) || (covers s && skipSegments covers k rest)

def matchesSegments (covers : List Char → Bool) : List (List Char) → List (List Char) → Bool
  | [], ss => ss.isEmpty
  | p :: ps, ss =>
    if p = deep then skipSegments covers (matchesSegments covers ps) ss
    else
      match ss with
      | s :: rest => matchesSegment p s && matchesSegments covers ps rest
      | [] => false

/-- The pattern matches the path, where `**` covers some segments. -/
def matchesPath (covers : List Char → Bool) (path pattern : List Char) : Bool :=
  matchesSegments covers (pattern.splitOn '/') (path.splitOn '/')

/-! ### What is skipped -/

variable {ss vs : List (List Char)} {t : List Char}

/-- Both kinds of skipping take a front of what they cover. -/
theorem skips_iff {α : Type*} (p : α → Bool) (k skip : List α → Bool) (hnil : skip [] = k [])
    (hcons : ∀ a rest, skip (a :: rest) = (k (a :: rest) || (p a && skip rest))) (t : List α) :
    skip t = true ↔ ∃ u v, t = u ++ v ∧ u.all p = true ∧ k v = true := by
  induction t with
  | nil => simp [hnil]
  | cons a rest ih =>
    rw [hcons, Bool.or_eq_true, Bool.and_eq_true, ih]
    constructor
    · rintro (h | ⟨ha, u, v, rfl, hu, hv⟩)
      · exact ⟨[], a :: rest, rfl, rfl, h⟩
      · exact ⟨a :: u, v, rfl, by simp [ha, hu], hv⟩
    · rintro ⟨u, v, ht, hu, hv⟩
      cases u with
      | nil =>
        left
        rw [List.nil_append] at ht
        rw [ht]
        exact hv
      | cons d u =>
        rw [List.cons_append, List.cons.injEq] at ht
        obtain ⟨rfl, rfl⟩ := ht
        rw [List.all_cons, Bool.and_eq_true] at hu
        exact .inr ⟨hu.1, u, v, rfl, hu.2, hv⟩

theorem skipWhile_iff {p : Char → Bool} {k : List Char → Bool} :
    skipWhile p k t = true ↔ ∃ u v, t = u ++ v ∧ u.all p = true ∧ k v = true :=
  skips_iff p k (skipWhile p k) rfl (fun _ _ => rfl) t

theorem skipSegments_iff {covers : List Char → Bool} {k : List (List Char) → Bool} :
    skipSegments covers k ss = true ↔ ∃ us vs, ss = us ++ vs ∧ us.all covers = true ∧ k vs = true :=
  skips_iff covers k (skipSegments covers k) rfl (fun _ _ => rfl) ss

section

variable {covers : List Char → Bool} {p : List Char} {ps ss : List (List Char)}

theorem matchesSegments_deep : matchesSegments covers (deep :: ps) ss = true ↔
      ∃ us vs, ss = us ++ vs ∧ us.all covers = true ∧ matchesSegments covers ps vs = true := by
  have hdeep : matchesSegments covers (deep :: ps) ss =
      skipSegments covers (matchesSegments covers ps) ss := if_pos rfl
  rw [hdeep]
  exact skipSegments_iff

theorem matchesSegments_cons (h : p ≠ deep) : matchesSegments covers (p :: ps) ss = true ↔
      ∃ s rest, ss = s :: rest ∧ matchesSegment p s = true ∧
        matchesSegments covers ps rest = true := by
  cases ss with
  | nil =>
    have hnil : matchesSegments covers (p :: ps) [] = false := if_neg h
    simp [hnil]
  | cons s rest =>
    have hcons : matchesSegments covers (p :: ps) (s :: rest) =
        (matchesSegment p s && matchesSegments covers ps rest) := if_neg h
    simp [hcons]

/-- Where `**` covers more, more matches. -/
theorem matchesSegments_mono {covers' : List Char → Bool}
    (h : ∀ s, covers s = true → covers' s = true) (hmatch : matchesSegments covers ps ss = true) :
    matchesSegments covers' ps ss = true := by
  induction ps generalizing ss with
  | nil => exact hmatch
  | cons p ps ih =>
    by_cases hp : p = deep
    · subst hp
      obtain ⟨us, vs, rfl, hus, hvs⟩ := matchesSegments_deep.mp hmatch
      refine matchesSegments_deep.mpr ⟨us, vs, rfl, ?_, ih hvs⟩
      rw [List.all_eq_true] at hus ⊢
      exact fun s hs => h s (hus s hs)
    · obtain ⟨s, rest, rfl, hs, hrest⟩ := (matchesSegments_cons hp).mp hmatch
      exact (matchesSegments_cons hp).mpr ⟨s, rest, rfl, hs, ih hrest⟩

end

/-! ### Cutting at slashes -/

theorem not_mem_of_mem_splitOn {x : Char} {s : List Char} (h : s ∈ t.splitOn x) : x ∉ s := by
  induction t generalizing s with
  | nil =>
    rw [List.splitOn_nil, List.mem_singleton] at h
    rw [h]
    exact List.not_mem_nil
  | cons c rest ih =>
    rw [List.splitOn_cons_eq_if_modifyHead] at h
    split at h
    · rcases List.mem_cons.mp h with rfl | h
      · exact List.not_mem_nil
      · exact ih h
    · rename_i hc
      obtain ⟨first, more, hsplit⟩ := List.exists_cons_of_ne_nil (List.splitOn_ne_nil x rest)
      rw [hsplit] at h ih
      rcases List.mem_cons.mp h with rfl | h
      · have hfirst := ih List.mem_cons_self
        intro hx
        rcases List.mem_cons.mp hx with rfl | hx
        · simp at hc
        · exact hfirst hx
      · exact ih (List.mem_cons_of_mem _ h)

def joinSegments (ss : List (List Char)) : List Char := ['/'].intercalate ss

theorem joinSegments_append {us : List (List Char)} (hus : us ≠ []) (hvs : vs ≠ []) :
    joinSegments (us ++ vs) = joinSegments us ++ '/' :: joinSegments vs := by
  induction us with
  | nil => exact absurd rfl hus
  | cons u us ih =>
    cases us with
    | nil =>
      obtain ⟨v, more, rfl⟩ := List.exists_cons_of_ne_nil hvs
      simp [joinSegments, List.intercalate_cons_cons]
    | cons u' us =>
      have hrest := ih (by simp)
      simp only [joinSegments, List.cons_append, List.intercalate_cons_cons] at hrest ⊢
      rw [hrest]
      simp

theorem joinSegments_cons (u : List Char) (hvs : vs ≠ []) :
    joinSegments (u :: vs) = u ++ '/' :: joinSegments vs := by
  have h := joinSegments_append (List.cons_ne_nil u []) hvs
  rwa [List.singleton_append, joinSegments, joinSegments, List.intercalate_singleton] at h

/-- A slash of a joined path is between two of its segments. -/
theorem split_joinSegments (hss : ss ≠ []) (hclean : ∀ s ∈ ss, '/' ∉ s) {u v : List Char}
    (h : joinSegments ss = u ++ '/' :: v) :
    ∃ us vs, us ≠ [] ∧ vs ≠ [] ∧ ss = us ++ vs ∧ u = joinSegments us ∧ v = joinSegments vs := by
  refine ⟨u.splitOn '/', v.splitOn '/', List.splitOn_ne_nil _ _, List.splitOn_ne_nil _ _, ?_,
    (List.intercalate_splitOn '/').symm, (List.intercalate_splitOn '/').symm⟩
  rw [← List.splitOn_append_cons_self, ← h, joinSegments, List.splitOn_intercalate '/' hclean hss]

theorem all_joinSegments {q : Char → Bool} (hslash : q '/' = true) (ss : List (List Char)) :
    (joinSegments ss).all q = ss.all fun s => s.all q := by
  induction ss with
  | nil => rfl
  | cons s ss ih =>
    by_cases hss : ss = []
    · subst hss
      simp [joinSegments]
    · rw [joinSegments_cons s hss]
      simp [ih, hslash]

end Glob
