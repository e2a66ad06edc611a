/-
Text as Python's `str` methods cut it.

A text is its list of code points.  `splitlines` ends a line at every character Unicode
calls a line boundary, so two programs that disagree on what ends a line still agree on
the *fields* between separators: `fields p` are the non-empty runs without a character of
`p`.  The lemmas say what leaves the fields of a text alone.
-/
import Mathlib.Data.List.Basic

/-! ### Deciding what holds of the characters of a text -/

/-- Only the characters that are there are looked at. -/
instance Char.decidableForallMem (p : Char → Prop) [DecidablePred p] (t : List Char) :
    Decidable (∀ c ∈ t, p c) := List.decidableBAll p t

instance Char.decidableExistsMem (p : Char → Prop) [DecidablePred p] (t : List Char) :
    Decidable (∃ c ∈ t, p c) := List.decidableBEx p t

instance Char.decidableForallSome (p : Char → Prop) [DecidablePred p] (c? : Option Char) :
    Decidable (∀ c ∈ c?, p c) := Option.decidableForallMem c?

instance Char.decidableExistsSome (p : Char → Prop) [DecidablePred p] (c? : Option Char) :
    Decidable (∃ c ∈ c?, p c) := Option.decidableExistsMem c?

/-- Texts are told apart by their characters. -/
instance Char.lawfulBEqText : LawfulBEq (List Char) := inferInstance

namespace Text

/-- The characters `str.splitlines` ends a line at. -/
def isLineBreak (c : Char) : Bool :=
  let n := c.toNat
  (10 ≤ n && n ≤ 13) || (28 ≤ n && n ≤ 30) || n == 0x85 || n == 0x2028 || n == 0x2029

/-- A piece of a text, unless it is empty. -/
def field (t : List Char) : List (List Char) := if t.isEmpty then [] else [t]

/-- `str.splitlines`, from a line begun with `line`; `\r\n` is one boundary. -/
def splitlinesFrom (line : List Char) : List Char → List (List Char)
  | [] => field line
  | '\r' :: '\n' :: rest => line :: splitlinesFrom [] rest
  | c :: rest =>
    if isLineBreak c then line :: splitlinesFrom [] rest else splitlinesFrom (line ++ [c]) rest

def splitlines (t : List Char) : List (List Char) := splitlinesFrom [] t

/-- `str.strip` of the characters of `p`. -/
def stripWhere (p : Char → Bool) (t : List Char) : List Char :=
  ((t.dropWhile p).reverse.dropWhile p).reverse

/-- `str.rsplit(sep, 1)`: what stands before and after the last `sep`, if there is one. -/
def rsplitOnce (sep : List Char) : List Char → Option (List Char × List Char)
  | [] => none
  | c :: rest =>
    match rsplitOnce sep rest with
    | some (before, after) => some (c :: before, after)
    | none =>
      if sep.isPrefixOf (c :: rest) then some ([], (c :: rest).drop sep.length) else none

/-! ### Shell words -/

/-- Where the lexer is: between words, in a word, in a quotation, after a backslash (and
the quotation it stands in). -/
inductive Lex where
  | gap
  | word
  | quoted (q : Char)
  | escaped (back : Option Char)
  deriving DecidableEq

/-- `shlex`'s POSIX rules with `whitespace_split`; `none` is its `ValueError`.  A backslash
in a double quotation escapes only the quote and itself. -/
def lexFrom (state : Lex) (token : List Char) : List Char → Option (List (List Char))
  | [] =>
    match state with
    | .gap => some []
    | .word => some [token]
    | .quoted _ | .escaped _ => none
  | c :: rest =>
    match state with
    | .gap | .word =>
      if c = ' ' ∨ c = '\t' ∨ c = '\r' ∨ c = '\n' then
        if state = .gap then lexFrom .gap [] rest
        else (lexFrom .gap [] rest).map (token :: ·)
      else if c = '\\' then lexFrom (.escaped none) token rest
      else if c = '"' ∨ c = '\'' then lexFrom (.quoted c) token rest
      else lexFrom .word (token ++ [c]) rest
    | .quoted q =>
      if c = q then lexFrom .word token rest
      else if c = '\\' ∧ q = '"' then lexFrom (.escaped (some q)) token rest
      else lexFrom (.quoted q) (token ++ [c]) rest
    | .escaped none => lexFrom .word (token ++ [c]) rest
    | .escaped (some q) =>
      if c = '\\' ∨ c = q then lexFrom (.quoted q) (token ++ [c]) rest
      else lexFrom (.quoted q) (token ++ ['\\', c]) rest

/-- `shlex.split`. -/
def shlexSplit (t : List Char) : Option (List (List Char)) := lexFrom .gap [] t

/-! ### Cutting at the last separator -/

variable {t : List Char} {p : Char → Bool} {c : Char}

theorem rsplitOnce_eq {sep before after : List Char} (h : rsplitOnce sep t = some (before, after)) :
    t = before ++ (sep ++ after) := by
  induction t generalizing before with
  | nil => cases h
  | cons c rest ih =>
    unfold rsplitOnce at h
    split at h
    · rename_i before' after' hrest
      obtain ⟨rfl, rfl⟩ : c :: before' = before ∧ after' = after := by simpa using h
      rw [List.cons_append, ← ih hrest]
    · split at h
      · rename_i hsep
        obtain ⟨rfl, rfl⟩ : [] = before ∧ (c :: rest).drop sep.length = after := by simpa using h
        obtain ⟨tail, htail⟩ := List.isPrefixOf_iff_prefix.mp hsep
        rw [List.nil_append, ← htail, List.drop_left]
      · cases h

/-! ### Stripping -/

/-- Neither end of the text is a character of `p`. -/
structure Bare (p : Char → Bool) (t : List Char) : Prop where
  first : ∀ c ∈ t.head?, p c = false
  last : ∀ c ∈ t.getLast?, p c = false

theorem Bare.reverse (h : Bare p t) : Bare p t.reverse where
  first := by
    rw [List.head?_reverse]
    exact h.last
  last := by
    rw [List.getLast?_reverse]
    exact h.first

theorem dropWhile_of_head (h : ∀ c ∈ t.head?, p c = false) : t.dropWhile p = t := by
  cases t with
  | nil => rfl
  | cons c rest =>
    have hc : ¬ p c = true := by simp [h c rfl]
    exact List.dropWhile_cons_of_neg hc

theorem head_dropWhile (t : List Char) : ∀ c ∈ (t.dropWhile p).head?, p c = false := by
  intro c hc
  have hnot := List.head?_dropWhile_not p t
  rw [Option.mem_def] at hc
  rwa [hc] at hnot

/-- Dropping characters in front leaves the end alone, or leaves nothing. -/
theorem last_dropWhile {q : Char → Bool} (h : ∀ c ∈ t.getLast?, q c = false) :
    ∀ c ∈ (t.dropWhile p).getLast?, q c = false := by
  intro c hc
  obtain ⟨before, hbefore⟩ := List.dropWhile_suffix (l := t) p
  apply h
  rw [← hbefore, List.getLast?_append, hc]
  rfl

/-- A stripped text is bare. -/
theorem bare_stripWhere (p : Char → Bool) (t : List Char) : Bare p (stripWhere p t) := by
  have hback : ∀ c ∈ (t.dropWhile p).reverse.getLast?, p c = false := by
    rw [List.getLast?_reverse]
    exact head_dropWhile t
  have hbare : Bare p ((t.dropWhile p).reverse.dropWhile p) :=
    ⟨head_dropWhile _, last_dropWhile hback⟩
  exact hbare.reverse

/-- A bare text has nothing to strip. -/
theorem Bare.stripWhere_eq (h : Bare p t) : stripWhere p t = t := by
  unfold stripWhere
  rw [dropWhile_of_head h.first, dropWhile_of_head h.reverse.first, List.reverse_reverse]

/-- What is stripped stands around what stays. -/
theorem stripWhere_split (p : Char → Bool) (t : List Char) :
    ∃ a b, t = a ++ (stripWhere p t ++ b) ∧ (∀ c ∈ a, p c = true) ∧ ∀ c ∈ b, p c = true := by
  refine ⟨t.takeWhile p, ((t.dropWhile p).reverse.takeWhile p).reverse, ?_, ?_, ?_⟩
  · have hback : stripWhere p t ++ ((t.dropWhile p).reverse.takeWhile p).reverse =
        t.dropWhile p := by
      unfold stripWhere
      rw [← List.reverse_append, List.takeWhile_append_dropWhile, List.reverse_reverse]
    rw [hback, List.takeWhile_append_dropWhile]
  · exact fun c hc => List.all_eq_true.mp List.all_takeWhile c hc
  · exact fun c hc => List.all_eq_true.mp List.all_takeWhile c (List.mem_reverse.mp hc)

/-- With nothing to strip at the end, stripping drops what is in front. -/
theorem stripWhere_of_last (h : ∀ c ∈ t.getLast?, p c = false) :
    stripWhere p t = t.dropWhile p := by
  have hfirst : ∀ c ∈ (t.dropWhile p).reverse.head?, p c = false := by
    rw [List.head?_reverse]
    exact last_dropWhile h
  unfold stripWhere
  rw [dropWhile_of_head hfirst, List.reverse_reverse]

/-- Behind a character that stays, only the end is stripped. -/
theorem stripWhere_cons (hc : p c = false) (t : List Char) :
    stripWhere p (c :: t) = c :: (t.reverse.dropWhile p).reverse := by
  have hback : (t.reverse ++ [c]).dropWhile p = t.reverse.dropWhile p ++ [c] := by
    rw [List.dropWhile_append]
    split
    · rename_i hempty
      rw [List.isEmpty_iff.mp hempty, List.dropWhile_cons_of_neg (by simp [hc])]
      rfl
    · rfl
  unfold stripWhere
  rw [List.dropWhile_cons_of_neg (by simp [hc]), List.reverse_cons, hback]
  simp

/-- A character that is stripped at the end makes no difference. -/
theorem stripWhere_concat (hc : p c = true) (t : List Char) :
    stripWhere p (t ++ [c]) = stripWhere p t := by
  have hfront : (t ++ [c]).dropWhile p = if (t.dropWhile p).isEmpty then [] else
      t.dropWhile p ++ [c] := by
    rw [List.dropWhile_append, List.dropWhile_cons_of_pos hc]
    rfl
  unfold stripWhere
  rw [hfront]
  split
  · rename_i hempty
    rw [List.isEmpty_iff.mp hempty]
  · rw [List.reverse_append, List.reverse_singleton, List.singleton_append,
      List.dropWhile_cons_of_pos hc]

/-- With nothing to strip in front, what stays is a prefix. -/
theorem stripWhere_prefix (h : ∀ c ∈ t.head?, p c = false) : stripWhere p t <+: t := by
  unfold stripWhere
  rw [dropWhile_of_head h, ← List.reverse_suffix, List.reverse_reverse]
  exact List.dropWhile_suffix p

variable {l s : List Char}

/-- Around a character that stays, the two ends are stripped by themselves. -/
theorem stripWhere_append_cons (hc : p c = false) (hs : s.dropWhile p ≠ []) (t : List Char) :
    stripWhere p (s ++ c :: t) = s.dropWhile p ++ c :: (t.reverse.dropWhile p).reverse := by
  have hfront : (s ++ c :: t).dropWhile p = s.dropWhile p ++ c :: t := by
    rw [List.dropWhile_append, if_neg (by simpa using hs)]
  have hback : (t.reverse ++ c :: (s.dropWhile p).reverse).dropWhile p =
      t.reverse.dropWhile p ++ c :: (s.dropWhile p).reverse := by
    rw [List.dropWhile_append]
    split
    · rename_i hempty
      rw [List.isEmpty_iff.mp hempty, List.dropWhile_cons_of_neg (by simp [hc])]
      rfl
    · rfl
  unfold stripWhere
  rw [hfront]
  simp only [List.reverse_append, List.reverse_cons, List.append_assoc, List.singleton_append]
  rw [hback]
  simp

/-! ### Squeezing runs -/

/-- `c + c in t`. -/
def doubled (c : Char) : List Char → Bool
  | a :: b :: rest => (a == c && b == c) || doubled c (b :: rest)
  | _ => false

/-- `t.replace(c + c, c)`. -/
def halve (c : Char) : List Char → List Char
  | a :: b :: rest => if a = c ∧ b = c then c :: halve c rest else a :: halve c (b :: rest)
  | t => t

/-- `while c + c in t: t = t.replace(c + c, c)`, for at most `fuel` rounds. -/
def squeezeLoop (c : Char) : Nat → List Char → List Char
  | 0, t => t
  | fuel + 1, t => if doubled c t then squeezeLoop c fuel (halve c t) else t

/-- Every run of `c` cut down to one. -/
def squeeze (c : Char) : List Char → List Char
  | [] => []
  | a :: rest => if a = c ∧ rest.head? = some c then squeeze c rest else a :: squeeze c rest

theorem squeeze_cons_of_ne {a : Char} (h : a ≠ c) (rest : List Char) :
    squeeze c (a :: rest) = a :: squeeze c rest :=
  if_neg fun hac => h hac.1

theorem squeeze_cons_cons (c : Char) (rest : List Char) :
    squeeze c (c :: c :: rest) = squeeze c (c :: rest) :=
  if_pos ⟨rfl, rfl⟩

theorem head_squeeze (c : Char) (t : List Char) : (squeeze c t).head? = t.head? := by
  induction t with
  | nil => rfl
  | cons a rest ih =>
    unfold squeeze
    split
    · rename_i h
      rw [ih, h.2, h.1]
      rfl
    · rfl

theorem head_halve (c : Char) (t : List Char) : (halve c t).head? = t.head? := by
  unfold halve
  split
  · split
    · rename_i h
      rw [h.1]
      rfl
    · rfl
  · rfl

theorem squeeze_halve (c : Char) (t : List Char) : squeeze c (halve c t) = squeeze c t := by
  induction t using halve.induct c with
  | case1 a b rest h ih =>
    obtain ⟨rfl, rfl⟩ := h
    rw [squeeze_cons_cons]
    unfold halve
    rw [if_pos ⟨rfl, rfl⟩]
    unfold squeeze
    rw [head_halve, ih]
  | case2 a b rest h ih =>
    unfold halve
    rw [if_neg h]
    unfold squeeze
    rw [head_halve, ih]
  | case3 t h =>
    unfold halve
    split
    · exact absurd rfl (h _ _ _)
    · rfl

theorem squeeze_of_not_doubled (h : doubled c t = false) : squeeze c t = t := by
  induction t with
  | nil => rfl
  | cons a rest ih =>
    cases rest with
    | nil => simp [squeeze]
    | cons b rest =>
      simp only [doubled, Bool.or_eq_false_iff, Bool.and_eq_false_iff, beq_eq_false_iff_ne] at h
      unfold squeeze
      rw [if_neg (by simp only [List.head?_cons, Option.some.injEq]; tauto), ih h.2]

theorem length_halve_le (c : Char) (t : List Char) : (halve c t).length ≤ t.length := by
  induction t using halve.induct c with
  | case1 a b rest h ih =>
    unfold halve
    rw [if_pos h]
    simp only [List.length_cons]
    omega
  | case2 a b rest h ih =>
    unfold halve
    rw [if_neg h]
    simp only [List.length_cons] at ih ⊢
    omega
  | case3 t h =>
    unfold halve
    split
    · exact absurd rfl (h _ _ _)
    · exact Nat.le_refl _

theorem length_halve_lt (h : doubled c t = true) : (halve c t).length < t.length := by
  induction t using halve.induct c with
  | case1 a b rest hab _ =>
    unfold halve
    rw [if_pos hab]
    have hle := length_halve_le c rest
    simp only [List.length_cons]
    omega
  | case2 a b rest hab ih =>
    have hrest : doubled c (b :: rest) = true := by
      simp only [doubled, Bool.or_eq_true, Bool.and_eq_true, beq_iff_eq] at h
      exact h.resolve_left hab
    have hlt := ih hrest
    unfold halve
    rw [if_neg hab]
    simp only [List.length_cons] at hlt ⊢
    omega
  | case3 t hshort =>
    unfold doubled at h
    split at h
    · exact absurd rfl (hshort _ _ _)
    · cases h

/-- **The loop squeezes: a round for every character is enough.** -/
theorem squeezeLoop_eq {fuel : Nat} (h : t.length ≤ fuel) : squeezeLoop c fuel t = squeeze c t := by
  induction fuel generalizing t with
  | zero =>
    have ht : t = [] := List.eq_nil_of_length_eq_zero (Nat.le_zero.mp h)
    rw [ht]
    rfl
  | succ fuel ih =>
    unfold squeezeLoop
    by_cases hd : doubled c t = true
    · have hlt := length_halve_lt hd
      rw [if_pos hd, ih (by omega), squeeze_halve]
    · rw [if_neg hd, squeeze_of_not_doubled (by simpa using hd)]

theorem doubled_squeeze (c : Char) (t : List Char) : doubled c (squeeze c t) = false := by
  induction t with
  | nil => rfl
  | cons a rest ih =>
    unfold squeeze
    split
    · exact ih
    · rename_i h
      have hhead := head_squeeze c rest
      cases hrest : squeeze c rest with
      | nil => rfl
      | cons b tail =>
        rw [hrest] at ih hhead
        rw [← hhead] at h
        simp only [doubled, ih, Bool.or_false, Bool.and_eq_false_iff, beq_eq_false_iff_ne]
        simp only [List.head?_cons, Option.some.injEq] at h
        tauto

theorem doubled_append (h : doubled c (s ++ t) = false) : doubled c t = false := by
  induction s with
  | nil => exact h
  | cons a rest ih =>
    apply ih
    cases htail : rest ++ t with
    | nil => rfl
    | cons b tail =>
      rw [List.cons_append, htail] at h
      simp only [doubled, Bool.or_eq_false_iff] at h
      exact h.2

theorem getLast_squeeze (c : Char) (t : List Char) : (squeeze c t).getLast? = t.getLast? := by
  induction t with
  | nil => rfl
  | cons a rest ih =>
    by_cases hnil : rest = []
    · simp [hnil, squeeze]
    · have hne : squeeze c rest ≠ [] := by
        intro heq
        have hhead := head_squeeze c rest
        rw [heq] at hhead
        exact hnil (List.head?_eq_none_iff.mp hhead.symm)
      have hlast : (squeeze c (a :: rest)).getLast? = (squeeze c rest).getLast? := by
        by_cases h : a = c ∧ rest.head? = some c
        · have heq : squeeze c (a :: rest) = squeeze c rest := if_pos h
          rw [heq]
        · have heq : squeeze c (a :: rest) = a :: squeeze c rest := if_neg h
          rw [heq, List.getLast?_cons_of_ne_nil hne]
      rw [hlast, ih, List.getLast?_cons_of_ne_nil hnil]

theorem mem_of_mem_squeeze {d : Char} (h : d ∈ squeeze c t) : d ∈ t := by
  induction t with
  | nil => exact h
  | cons a rest ih =>
    unfold squeeze at h
    split at h
    · exact List.mem_cons_of_mem a (ih h)
    · rcases List.mem_cons.mp h with rfl | h
      · exact List.mem_cons_self
      · exact List.mem_cons_of_mem a (ih h)

/-! ### Slashes -/

/-- `value.replace("\\", "/")`. -/
def replaceBackslash (value : List Char) : List Char :=
  value.map fun c => if c = '\\' then '/' else c

/-- `while value.startswith("./"): value = value[2:]`. -/
def dropDotSlashes : List Char → List Char
  | '.' :: '/' :: rest => dropDotSlashes rest
  | value => value

theorem dropDotSlashes_suffix (t : List Char) : dropDotSlashes t <:+ t := by
  induction t using dropDotSlashes.induct with
  | case1 rest ih =>
    exact ih.trans ⟨['.', '/'], rfl⟩
  | case2 t h =>
    have heq := dropDotSlashes.eq_2 t h
    exact heq.symm ▸ List.suffix_refl t

theorem dropDotSlashes_idem (t : List Char) :
    dropDotSlashes (dropDotSlashes t) = dropDotSlashes t := by
  induction t using dropDotSlashes.induct with
  | case1 _ ih => exact ih
  | case2 t h => rw [dropDotSlashes.eq_2 t h, dropDotSlashes.eq_2 t h]

theorem replaceBackslash_no_backslash (t : List Char) : '\\' ∉ replaceBackslash t := by
  intro h
  obtain ⟨c, -, hc⟩ := List.mem_map.mp h
  split at hc
  · cases hc
  · exact absurd hc (by assumption)

theorem replaceBackslash_eq (h : '\\' ∉ t) : replaceBackslash t = t := by
  unfold replaceBackslash
  conv_rhs => rw [← List.map_id t]
  apply List.map_congr_left
  intro c hc
  refine if_neg fun heq => h ?_
  rw [← heq]
  exact hc

theorem dropDotSlashes_of_ne (h : c ≠ '.') (t : List Char) : dropDotSlashes (c :: t) = c :: t := by
  apply dropDotSlashes.eq_2
  intro rest heq
  exact h (List.cons.inj heq).1

theorem dropDotSlashes_dot_of_ne (h : t.head? ≠ some '/') :
    dropDotSlashes ('.' :: t) = '.' :: t := by
  apply dropDotSlashes.eq_2
  rintro rest heq
  rw [(List.cons.inj heq).2] at h
  exact h rfl

/-! ### Fields -/

def fieldsFrom (p : Char → Bool) (begun : List Char) : List Char → List (List Char)
  | [] => field begun
  | c :: rest =>
    if p c then field begun ++ fieldsFrom p [] rest else fieldsFrom p (begun ++ [c]) rest

/-- The non-empty runs of `t` between characters of `p`. -/
def fields (p : Char → Bool) (t : List Char) : List (List Char) := fieldsFrom p [] t

theorem mem_field : l ∈ field t ↔ l = t ∧ l ≠ [] := by
  unfold field
  cases t with
  | nil => simp
  | cons c rest =>
    rw [if_neg (by simp), List.mem_singleton]
    constructor
    · rintro rfl
      exact ⟨rfl, List.cons_ne_nil c rest⟩
    · exact And.left

/-- Separators may be exchanged for one another. -/
theorem fields_map {f : Char → Char} (hsep : ∀ c, p (f c) = p c)
    (hkeep : ∀ c, p c = false → f c = c) (t : List Char) : fields p (t.map f) = fields p t := by
  suffices hfrom : ∀ begun, fieldsFrom p begun (t.map f) = fieldsFrom p begun t from hfrom []
  induction t with
  | nil => exact fun _ => rfl
  | cons c rest ih =>
    intro begun
    show fieldsFrom p begun (f c :: rest.map f) = fieldsFrom p begun (c :: rest)
    unfold fieldsFrom
    by_cases hc : p c = true
    · rw [if_pos (by rw [hsep, hc]), if_pos hc, ih]
    · rw [if_neg (by rw [hsep]; exact hc), if_neg hc, ih, hkeep c (by simpa using hc)]

/-- A separator at the end separates nothing. -/
theorem fields_append_sep (hc : p c = true) (t : List Char) : fields p (t ++ [c]) = fields p t := by
  suffices hfrom : ∀ begun, fieldsFrom p begun (t ++ [c]) = fieldsFrom p begun t from hfrom []
  induction t with
  | nil =>
    intro begun
    show fieldsFrom p begun [c] = field begun
    unfold fieldsFrom
    rw [if_pos hc]
    exact List.append_nil _
  | cons d rest ih =>
    intro begun
    show fieldsFrom p begun (d :: (rest ++ [c])) = fieldsFrom p begun (d :: rest)
    unfold fieldsFrom
    rw [ih, ih]

/-- **The lines of `splitlines` are the fields between line boundaries, and empty lines.** -/
theorem mem_splitlines (hl : l ≠ []) : l ∈ splitlines t ↔ l ∈ fields isLineBreak t := by
  suffices hfrom : ∀ line, l ∈ splitlinesFrom line t ↔ l ∈ fieldsFrom isLineBreak line t from
    hfrom []
  intro line
  -- an empty line is a field of neither kind
  have hend : ∀ begun rest rest', (l ∈ rest ↔ l ∈ rest') →
      (l ∈ begun :: rest ↔ l ∈ field begun ++ rest') := by
    intro begun rest rest' h
    rw [List.mem_cons, List.mem_append, mem_field, h]
    constructor
    · rintro (heq | hmem)
      · exact .inl ⟨heq, hl⟩
      · exact .inr hmem
    · rintro (⟨heq, -⟩ | hmem)
      · exact .inl heq
      · exact .inr hmem
  induction line, t using splitlinesFrom.induct with
  | case1 line => rfl
  | case2 line rest ih =>
    show l ∈ line :: splitlinesFrom [] rest ↔
      l ∈ field line ++ (field [] ++ fieldsFrom isLineBreak [] rest)
    exact hend _ _ _ ih
  | case3 line c rest hcrlf hc ih =>
    rw [splitlinesFrom.eq_3 _ _ _ hcrlf, if_pos hc]
    unfold fieldsFrom
    rw [if_pos hc]
    exact hend _ _ _ ih
  | case4 line c rest hcrlf hc ih =>
    rw [splitlinesFrom.eq_3 _ _ _ hcrlf, if_neg hc]
    unfold fieldsFrom
    rw [if_neg hc]
    exact ih

/-! ### Loops that collect -/

/-- A loop whose body adds what it finds in an item has what was there and what is found. -/
theorem foldl_collects {σ α : Type*} {f : σ → α → σ} {P : σ → Prop} {Q : α → Prop}
    (h : ∀ s a, P (f s a) ↔ P s ∨ Q a) (items : List α) (s : σ) :
    P (items.foldl f s) ↔ P s ∨ ∃ a ∈ items, Q a := by
  induction items generalizing s with
  | nil => simp
  | cons a rest ih =>
    rw [List.foldl_cons, ih, h, or_assoc]
    simp only [List.mem_cons, exists_eq_or_imp]

end Text
