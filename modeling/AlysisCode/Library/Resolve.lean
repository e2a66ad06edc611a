/-
Where the components of a path lead from a directory, and paths as Python's `ntpath` cuts them.

A component is nothing, a dot, two dots or a name; names are added and two dots take the last one
back.  A relative path leads below a directory exactly as far as its own normal form says, when
that form does not begin with two dots.
-/
import Mathlib.Data.List.Induction
import Mathlib.Data.List.TakeWhile
import AlysisCode.Library.Glob
import AlysisCode.Library.PurePath

namespace Posix

/-- A name: neither nothing nor dots. -/
structure IsName (c : List Char) : Prop where
  nonempty : c ≠ []
  dot : c ≠ ['.']
  dots : c ≠ ['.', '.']

/-- The directory a path with these components leads to from a directory. -/
def resolve (dir comps : List (List Char)) : List (List Char) :=
  comps.foldl (pushComponent true) dir

variable {absolute : Bool} {done : List (List Char)}

theorem pushComponent_skip {c : List Char} (h : c = [] ∨ c = ['.']) :
    pushComponent absolute done c = done :=
  if_pos h

theorem pushComponent_name {c : List Char} (h : IsName c) :
    pushComponent absolute done c = done ++ [c] := by
  unfold pushComponent
  rw [if_neg (not_or.mpr ⟨h.nonempty, h.dot⟩), if_pos (.inl h.dots)]

/-- Two dots take a name back. -/
theorem pushComponent_back (hne : done ≠ []) (h : ∀ c ∈ done.getLast?, IsName c) :
    pushComponent absolute done ['.', '.'] = done.dropLast := by
  unfold pushComponent
  rw [if_neg (by simp), if_neg]
  rintro (hdots | ⟨-, hempty⟩ | hlast)
  · exact hdots rfl
  · exact hne hempty
  · exact (h _ hlast).dots rfl

theorem pushComponent_top (h : done = []) : pushComponent true done ['.', '.'] = [] := by
  rw [h]
  rfl

/-- Where a path leads from a directory. -/
def locate (dir : List (List Char)) (path : List Char) : List (List Char) :=
  resolve (if isabs path then [] else dir) (path.splitOn '/')

/-- What a relative path leaves of its components: some two dots, and names. -/
def upAnd (ups : Nat) (names : List (List Char)) : List (List Char) :=
  List.replicate ups ['.', '.'] ++ names

theorem pushComponent_up (ups : Nat) :
    pushComponent false (upAnd ups []) ['.', '.'] = upAnd (ups + 1) [] := by
  have hlast : pushComponent false (upAnd ups []) ['.', '.'] = upAnd ups [] ++ [['.', '.']] := by
    unfold pushComponent
    rw [if_neg (by simp), if_pos]
    cases ups with
    | zero => exact .inr (.inl ⟨rfl, rfl⟩)
    | succ n =>
      refine .inr (.inr ?_)
      unfold upAnd
      rw [List.append_nil, List.getLast?_replicate]
      rfl
  rw [hlast]
  unfold upAnd
  rw [List.append_nil, List.append_nil, List.replicate_succ']

/-- **A relative path on its own, and from any directory.** -/
theorem resolve_relative (comps : List (List Char)) :
    ∃ ups names, (∀ c ∈ names, IsName c ∧ c ∈ comps) ∧
      comps.foldl (pushComponent false) [] = upAnd ups names ∧
      ∀ dir : List (List Char), (∀ c ∈ dir, IsName c) →
        resolve dir comps = dir.take (dir.length - ups) ++ names := by
  induction comps using List.reverseRecOn with
  | nil => exact ⟨0, [], by simp, rfl, fun dir _ => by simp [resolve]⟩
  | append_singleton comps c ih =>
    obtain ⟨ups, names, hnames, hrelative, hresolve⟩ := ih
    have hmore : ∀ d ∈ names, IsName d ∧ d ∈ comps ++ [c] := fun d hd =>
      ⟨(hnames d hd).1, List.mem_append_left _ (hnames d hd).2⟩
    have hrun (dir : List (List Char)) (hdir : ∀ c ∈ dir, IsName c) : resolve dir (comps ++ [c]) =
          pushComponent true (dir.take (dir.length - ups) ++ names) c := by
      rw [← hresolve dir hdir]
      unfold resolve
      rw [List.foldl_append]
      rfl
    rw [List.foldl_append, hrelative, List.foldl_cons, List.foldl_nil]
    by_cases hskip : c = [] ∨ c = ['.']
    · refine ⟨ups, names, hmore, pushComponent_skip hskip, fun dir hdir => ?_⟩
      rw [hrun dir hdir, pushComponent_skip hskip]
    · by_cases hdots : c = ['.', '.']
      · subst hdots
        by_cases hempty : names = []
        · subst hempty
          refine ⟨ups + 1, [], by simp, pushComponent_up ups, fun dir hdir => ?_⟩
          rw [hrun dir hdir, List.append_nil, List.append_nil]
          by_cases htop : dir.take (dir.length - ups) = []
          · rw [pushComponent_top htop]
            have hlength : dir.length - ups = 0 ∨ dir = [] := List.take_eq_nil_iff.mp htop
            rcases hlength with hlength | rfl
            · rw [show dir.length - (ups + 1) = 0 by omega, List.take_zero]
            · exact List.take_nil.symm
          · rw [pushComponent_back htop]
            · rw [List.dropLast_eq_take, List.take_take, List.length_take]
              congr 1
              omega
            · intro d hd
              exact hdir d (List.mem_of_mem_take (List.mem_of_mem_getLast? hd))
        · have hlast : ∀ d ∈ names.getLast?, IsName d := fun d hd =>
            (hnames d (List.mem_of_mem_getLast? hd)).1
          refine ⟨ups, names.dropLast, ?_, ?_, fun dir hdir => ?_⟩
          · exact fun d hd => hmore d (List.dropLast_subset names hd)
          · unfold upAnd
            rw [pushComponent_back (by simp [hempty]), List.dropLast_append_of_ne_nil hempty]
            intro d hd
            rw [List.getLast?_append_of_ne_nil _ hempty] at hd
            exact hlast d hd
          · rw [hrun dir hdir, pushComponent_back (by simp [hempty]),
              List.dropLast_append_of_ne_nil hempty]
            intro d hd
            rw [List.getLast?_append_of_ne_nil _ hempty] at hd
            exact hlast d hd
      · have hname : IsName c := ⟨fun h => hskip (.inl h), fun h => hskip (.inr h), hdots⟩
        refine ⟨ups, names ++ [c], ?_, ?_, fun dir hdir => ?_⟩
        · intro d hd
          rcases List.mem_append.mp hd with hd | hd
          · exact hmore d hd
          · obtain rfl := List.mem_singleton.mp hd
            exact ⟨hname, List.mem_append_right _ List.mem_cons_self⟩
        · unfold upAnd
          rw [pushComponent_name hname, List.append_assoc]
        · rw [hrun dir hdir, pushComponent_name hname, List.append_assoc]

/-- Names are added as they are. -/
theorem foldl_names {names : List (List Char)} (h : ∀ c ∈ names, IsName c) (done : List (List Char)) :
    names.foldl (pushComponent absolute) done = done ++ names := by
  induction names generalizing done with
  | nil => exact (List.append_nil done).symm
  | cons c rest ih =>
    rw [List.foldl_cons, pushComponent_name (h c List.mem_cons_self),
      ih fun d hd => h d (List.mem_cons_of_mem c hd), List.append_assoc, List.singleton_append]

/-- From a directory of names a path leads to names. -/
theorem resolve_names {dir : List (List Char)} (hdir : ∀ c ∈ dir, IsName c)
    (comps : List (List Char)) :
    ∀ c ∈ resolve dir comps, IsName c ∧ (c ∈ dir ∨ c ∈ comps) := by
  obtain ⟨ups, names, hnames, -, hresolve⟩ := resolve_relative comps
  rw [hresolve dir hdir]
  intro c hc
  rcases List.mem_append.mp hc with hc | hc
  · exact ⟨hdir c (List.mem_of_mem_take hc), .inl (List.mem_of_mem_take hc)⟩
  · exact ⟨(hnames c hc).1, .inr (hnames c hc).2⟩

/-- **A relative path whose normal form does not begin with two dots leads below.** -/
theorem resolve_below {dir comps : List (List Char)} (hdir : ∀ c ∈ dir, IsName c)
    (h : (comps.foldl (pushComponent false) []).head? ≠ some ['.', '.']) :
    (∀ c ∈ comps.foldl (pushComponent false) [], IsName c ∧ c ∈ comps) ∧
      resolve dir comps = dir ++ comps.foldl (pushComponent false) [] := by
  obtain ⟨ups, names, hnames, hrelative, hresolve⟩ := resolve_relative comps
  rw [hrelative] at h ⊢
  cases ups with
  | succ n => exact absurd rfl h
  | zero =>
    refine ⟨hnames, ?_⟩
    rw [hresolve dir hdir, Nat.sub_zero, List.take_length]
    rfl

end Posix

namespace Nt

open Posix

/-! ### `ntpath` -/

/-- `path.replace("/", "\\")` -/
def backslashed (path : List Char) : List Char := path.map fun c => if c = '/' then '\\' else c

/-- `\\?\UNC\`, in either case, of a path that begins with two separators. -/
def isUncPrefix (path : List Char) : Bool :=
  path[2]? == some '?' && path[3]? == some '\\' && (path[4]? == some 'U' || path[4]? == some 'u') &&
    (path[5]? == some 'N' || path[5]? == some 'n') &&
    (path[6]? == some 'C' || path[6]? == some 'c') && path[7]? == some '\\'

/-- The drive of a UNC or device path: two names behind the first separators. -/
def uncDrive (path : List Char) : List Char × List Char :=
  let start := if isUncPrefix path then 8 else 2
  let server := (path.drop start).takeWhile (· ≠ '\\')
  match (path.drop start).dropWhile (· ≠ '\\') with
  | [] => (path, [])
  | sep :: rest =>
    match rest.dropWhile (· ≠ '\\') with
    | [] => (path, [])
    | below => (path.take start ++ server ++ sep :: rest.takeWhile (· ≠ '\\'), below)

/-- `ntpath.splitroot`, of a path with backslashes only. -/
def splitroot : List Char → List Char × List Char × List Char
  | '\\' :: '\\' :: rest =>
    match uncDrive ('\\' :: '\\' :: rest) with
    | (drive, []) => (drive, [], [])
    | (drive, sep :: below) => (drive, [sep], below)
  | '\\' :: rest => ([], ['\\'], rest)
  | c :: ':' :: '\\' :: rest => ([c, ':'], ['\\'], rest)
  | c :: ':' :: rest => ([c, ':'], [], rest)
  | path => ([], [], path)

/-- `"\\".join(parts)`. -/
def join (parts : List (List Char)) : List Char := ['\\'].intercalate parts

def normpath (path : List Char) : List Char :=
  let (drive, root, rest) := splitroot (backslashed path)
  let comps := (rest.splitOn '\\').foldl (pushComponent !root.isEmpty) []
  if drive ++ root = [] ∧ comps = [] then ['.'] else drive ++ root ++ join comps

def isabs (path : List Char) : Bool :=
  let path := backslashed (path.take 3)
  path.head? == some '\\' || path.drop 1 == [':', '\\']

/-- The longest part in which two lists agree under a folding, by its length. -/
def commonLength (fold : List Char → List Char) : List (List Char) → List (List Char) → Nat
  | a :: as, b :: bs => if fold a = fold b then commonLength fold as bs + 1 else 0
  | _, _ => 0

/-- `ntpath.relpath(path, start)` of two absolute paths in normal form; `none` is its
`ValueError`.  `fold` is what `normcase` does to case. -/
def relpath (fold : List Char → List Char) (path start : List Char) : Option (List Char) :=
  let (startDrive, _, startRest) := splitroot start
  let (pathDrive, _, pathRest) := splitroot path
  if fold startDrive ≠ fold pathDrive then none
  else
    let startList := (startRest.splitOn '\\').filter (· ≠ [])
    let pathList := (pathRest.splitOn '\\').filter (· ≠ [])
    let shared := commonLength fold startList pathList
    let rel := List.replicate (startList.length - shared) ['.', '.'] ++ pathList.drop shared
    some (if rel.isEmpty then ['.'] else join rel)

example : normpath "c:/ws/./a/../b".toList = "c:\\ws\\b".toList := by decide

/-! ### Roots -/

/-- A path that begins neither with a separator nor with a drive. -/
def Rootless (path : List Char) : Prop := path.head? ≠ some '\\' ∧ path[1]? ≠ some ':'

variable {path rest drive : List Char} {fold : List Char → List Char}

theorem splitroot_of_rootless (h : Rootless path) : splitroot path = ([], [], path) := by
  obtain ⟨hsep, hcolon⟩ := h
  unfold splitroot
  split
  · exact absurd rfl hsep
  · exact absurd rfl hsep
  · exact absurd rfl hcolon
  · exact absurd rfl hcolon
  · rfl

variable {root server share below : List Char}

theorem isUncPrefix_congr (hserver : '\\' ∉ server) (hshare : '\\' ∉ share)
    (below below' : List Char) :
    isUncPrefix ('\\' :: '\\' :: (server ++ '\\' :: (share ++ '\\' :: below))) =
      isUncPrefix ('\\' :: '\\' :: (server ++ '\\' :: (share ++ '\\' :: below'))) := by
  match server, hserver with
  | [], _ => rfl
  | [s], _ =>
    match share, hshare with
    | [], _ | [a], _ | [a, b], _ | [a, b, c], _ | a :: b :: c :: d :: more, h => simp [isUncPrefix]
  | s :: t :: more, h =>
    have ht : (t == '\\') = false := by
      rw [beq_eq_false_iff_ne]
      rintro rfl
      simp at h
    simp only [isUncPrefix, List.cons_append, List.getElem?_cons_succ, List.getElem?_cons_zero,
      Option.some_beq_some, ht, Bool.and_false, Bool.false_and]

/-- What a split at the next separator gives. -/
theorem takeWhile_sep {name : List Char} (h : '\\' ∉ name) :
    (name ++ '\\' :: rest).takeWhile (· ≠ '\\') = name ∧
      (name ++ '\\' :: rest).dropWhile (· ≠ '\\') = '\\' :: rest := by
  have hname : ∀ c ∈ name, decide (c ≠ '\\') = true := by
    intro c hc
    rw [decide_eq_true_eq]
    rintro rfl
    exact h hc
  constructor
  · rw [List.takeWhile_append_of_pos hname, List.takeWhile_cons_of_neg (by simp), List.append_nil]
  · rw [List.dropWhile_append_of_pos hname, List.dropWhile_cons_of_neg (by simp)]

/-- A split at the next separator, when there is one. -/
theorem split_sep {t : List Char} {sep : Char} (h : t.dropWhile (· ≠ '\\') = sep :: rest) :
    sep = '\\' ∧ '\\' ∉ t.takeWhile (· ≠ '\\') ∧ t = t.takeWhile (· ≠ '\\') ++ '\\' :: rest := by
  induction t with
  | nil => cases h
  | cons c t ih =>
    by_cases hc : c = '\\'
    · subst hc
      rw [List.dropWhile_cons_of_neg (by simp)] at h
      rw [List.takeWhile_cons_of_neg (by simp)]
      cases h
      exact ⟨rfl, List.not_mem_nil, rfl⟩
    · rw [List.dropWhile_cons_of_pos (by simpa using hc)] at h
      obtain ⟨hsep, hmem, hsplit⟩ := ih h
      rw [List.takeWhile_cons_of_pos (by simpa using hc)]
      refine ⟨hsep, ?_, congrArg (c :: ·) hsplit⟩
      rw [List.mem_cons, not_or]
      exact ⟨fun heq => hc heq.symm, hmem⟩

/-- Only the first eight characters count. -/
theorem isUncPrefix_take (h : 8 ≤ path.length) (rest : List Char) :
    isUncPrefix (path.take 8 ++ rest) = isUncPrefix path := by
  have hget (i : Nat) (hi : i < 8) : (path.take 8 ++ rest)[i]? = path[i]? := by
    rw [List.getElem?_append_left (by rw [List.length_take]; omega), List.getElem?_take_of_lt hi]
  unfold isUncPrefix
  rw [hget 2 (by omega), hget 3 (by omega), hget 4 (by omega), hget 5 (by omega),
    hget 6 (by omega), hget 7 (by omega)]

theorem length_of_isUncPrefix (h : isUncPrefix path = true) : 8 ≤ path.length := by
  unfold isUncPrefix at h
  simp only [Bool.and_eq_true, beq_iff_eq] at h
  obtain ⟨hlt, -⟩ := List.getElem?_eq_some_iff.mp h.2
  exact hlt

/-- The drive of a UNC path, cut into its parts. -/
theorem uncDrive_eq {before : List Char}
    (hbefore : before = path.take (if isUncPrefix path then 8 else 2))
    (hpath : path = before ++ (server ++ '\\' :: (share ++ '\\' :: below)))
    (hserver : '\\' ∉ server) (hshare : '\\' ∉ share) :
    uncDrive path = (before ++ server ++ '\\' :: share, '\\' :: below) := by
  have hdrop : path.drop (if isUncPrefix path then 8 else 2) =
      server ++ '\\' :: (share ++ '\\' :: below) := by
    have hsplit := List.take_append_drop (if isUncPrefix path then 8 else 2) path
    rw [← hbefore] at hsplit
    exact List.append_cancel_left (hsplit.trans hpath)
  unfold uncDrive
  dsimp only
  rw [hdrop, (takeWhile_sep hserver).1, (takeWhile_sep hserver).2, ← hbefore]
  dsimp only
  rw [(takeWhile_sep hshare).1, (takeWhile_sep hshare).2]

/-- The drive of a UNC path does not depend on what is below it. -/
theorem uncDrive_of_append {q : List Char} {sep : Char}
    (h : uncDrive ('\\' :: '\\' :: q) = (drive, sep :: below)) (rest : List Char) :
    sep = '\\' ∧ ∃ more, drive = '\\' :: '\\' :: more ∧
      uncDrive (drive ++ '\\' :: rest) = (drive, '\\' :: rest) := by
  generalize hpath : '\\' :: '\\' :: q = path at h
  unfold uncDrive at h
  dsimp only at h
  generalize hstart : (if isUncPrefix path then 8 else 2) = start at h
  cases hserver : (path.drop start).dropWhile (· ≠ '\\') with
  | nil =>
    rw [hserver] at h
    cases (Prod.mk.inj h).2
  | cons sep₁ rest₁ =>
    rw [hserver] at h
    dsimp only at h
    cases hshare : rest₁.dropWhile (· ≠ '\\') with
    | nil =>
      rw [hshare] at h
      cases (Prod.mk.inj h).2
    | cons sep₂ rest₂ =>
      rw [hshare] at h
      obtain ⟨hdrive, hbelow⟩ := Prod.mk.inj h
      obtain ⟨rfl, rfl⟩ := List.cons.inj hbelow
      obtain ⟨rfl, hnoserver, hsplit₁⟩ := split_sep hserver
      obtain ⟨rfl, hnoshare, hsplit₂⟩ := split_sep hshare
      generalize (path.drop start).takeWhile (· ≠ '\\') = server at *
      generalize rest₁.takeWhile (· ≠ '\\') = share at *
      refine ⟨rfl, ?_⟩
      have hwhole : path = path.take start ++ (server ++ '\\' :: (share ++ '\\' :: rest₂)) := by
        conv_lhs => rw [← List.take_append_drop start path, hsplit₁, hsplit₂]
      have hnew : drive ++ '\\' :: rest = path.take start ++
          (server ++ '\\' :: (share ++ '\\' :: rest)) := by
        rw [← hdrive]
        simp
      have htwo : path.take start = '\\' :: '\\' :: (path.take start).drop 2 := by
        rw [← hpath, ← hstart]
        split
        · rfl
        · rfl
      have hsame : isUncPrefix (drive ++ '\\' :: rest) = isUncPrefix path := by
        rw [hnew]
        by_cases hunc : isUncPrefix path = true
        · rw [← hstart, if_pos hunc]
          exact isUncPrefix_take (length_of_isUncPrefix hunc) _
        · have htake : path.take start = ['\\', '\\'] := by
            rw [← hstart, if_neg hunc, ← hpath]
            rfl
          have hpathTwo : path = '\\' :: '\\' :: (server ++ '\\' :: (share ++ '\\' :: rest₂)) := by
            rwa [htake] at hwhole
          rw [htake, congrArg isUncPrefix hpathTwo]
          exact isUncPrefix_congr hnoserver hnoshare rest rest₂
      refine ⟨(path.take start).drop 2 ++ server ++ '\\' :: share, ?_, ?_⟩
      · rw [← hdrive]
        conv_lhs => rw [htwo]
        simp
      · have hbefore : path.take start = (drive ++ '\\' :: rest).take
            (if isUncPrefix (drive ++ '\\' :: rest) then 8 else 2) := by
          have hlength : start ≤ (path.take start).length := by
            rw [List.length_take, ← hstart]
            split
            · rename_i hunc
              have hle := length_of_isUncPrefix hunc
              omega
            · rw [← hpath, List.length_cons, List.length_cons]
              omega
          rw [hsame, hstart, hnew, List.take_append_of_le_length hlength, List.take_take,
            Nat.min_self]
        rw [uncDrive_eq hbefore hnew hnoserver hnoshare, hdrive]

/-- A path with a drive and a root, or with two separators in front. -/
inductive Qualified : List Char → Prop
  | unc (q : List Char) : Qualified ('\\' :: '\\' :: q)
  | drive {c : Char} (hc : c ≠ '\\') (rest : List Char) : Qualified (c :: ':' :: '\\' :: rest)

theorem splitroot_unc (q : List Char) : splitroot ('\\' :: '\\' :: q) =
    match uncDrive ('\\' :: '\\' :: q) with
    | (drive, []) => (drive, [], [])
    | (drive, sep :: below) => (drive, [sep], below) := rfl

theorem splitroot_drive {c : Char} (hc : c ≠ '\\') (rest : List Char) :
    splitroot (c :: ':' :: '\\' :: rest) = ([c, ':'], ['\\'], rest) := by
  unfold splitroot
  split
  · rename_i heq
    exact absurd (List.cons.inj heq).1 hc
  · rename_i heq
    exact absurd (List.cons.inj heq).1 hc
  · rename_i heq
    simp only [List.cons.injEq, true_and] at heq
    rw [heq.1, heq.2]
  · rename_i hnot heq
    simp only [List.cons.injEq, true_and] at heq
    exact absurd heq.2.symm (hnot rest)
  · rename_i hnot _
    exact absurd rfl (hnot c rest)

/-- The drive and the root of a qualified path stay, whatever is put below them. -/
theorem splitroot_append (hpath : Qualified path) (h : splitroot path = (drive, root, rest)) :
    drive ≠ [] ∧ (root = [] → rest = []) ∧
      ∀ t, (root = [] → t = []) → splitroot (drive ++ root ++ t) = (drive, root, t) := by
  cases hpath with
  | drive hc rest' =>
    rw [splitroot_drive hc] at h
    obtain ⟨rfl, rfl, rfl⟩ : [_, ':'] = drive ∧ ['\\'] = root ∧ rest' = rest := by
      simpa using h
    refine ⟨List.cons_ne_nil _ _, fun h => (nomatch h), fun t _ => ?_⟩
    exact splitroot_drive hc t
  | unc q =>
    rw [splitroot_unc] at h
    rcases hunc : uncDrive ('\\' :: '\\' :: q) with ⟨d, _ | ⟨sep, below⟩⟩
    · rw [hunc] at h
      obtain ⟨rfl, rfl, rfl⟩ : d = drive ∧ [] = root ∧ [] = rest := by simpa using h
      have hdrive : d = '\\' :: '\\' :: q := by
        unfold uncDrive at hunc
        dsimp only at hunc
        split at hunc
        · exact (Prod.mk.inj hunc).1.symm
        · split at hunc
          · exact (Prod.mk.inj hunc).1.symm
          · rename_i hne
            exact absurd (Prod.mk.inj hunc).2 hne
      refine ⟨?_, fun _ => rfl, fun t ht => ?_⟩
      · rw [hdrive]
        exact List.cons_ne_nil _ _
      · rw [ht rfl, List.append_nil, List.append_nil, hdrive]
        rw [splitroot_unc, hunc, hdrive]
    · rw [hunc] at h
      obtain ⟨rfl, rfl, rfl⟩ : d = drive ∧ [sep] = root ∧ below = rest := by simpa using h
      obtain ⟨rfl, -⟩ := uncDrive_of_append hunc []
      refine ⟨?_, fun h => (nomatch h), fun t _ => ?_⟩
      · obtain ⟨-, more, hmore, -⟩ := uncDrive_of_append hunc []
        rw [hmore]
        exact List.cons_ne_nil _ _
      · obtain ⟨-, more, hmore, hnew⟩ := uncDrive_of_append hunc t
        rw [List.append_assoc, List.singleton_append]
        rw [hmore] at hnew ⊢
        rw [List.cons_append, List.cons_append] at hnew ⊢
        rw [splitroot_unc, hnew]

/-- **The normal form of a qualified path: its drive, its root, and the names it leads to.** -/
theorem normpath_qualified (hpath : Qualified (backslashed path))
    (h : splitroot (backslashed path) = (drive, root, rest)) :
    splitroot (normpath path) = (drive, root, join (resolve [] (rest.splitOn '\\'))) := by
  obtain ⟨hdrive, hrest, happend⟩ := splitroot_append hpath h
  have hcomps : (rest.splitOn '\\').foldl (pushComponent !root.isEmpty) [] =
      resolve [] (rest.splitOn '\\') := by
    cases root with
    | nil =>
      rw [hrest rfl]
      rfl
    | cons c more => rfl
  unfold normpath
  rw [h]
  dsimp only
  rw [if_neg (by simp [hdrive]), hcomps]
  refine happend _ fun hroot => ?_
  rw [hrest hroot]
  rfl

/-- A drive, and the names below its root. -/
structure Location where
  drive : List Char
  names : List (List Char)

/-- Where a path leads from a directory, as `ntpath.join` and `ntpath.normpath` read it. -/
def locate (fold : List Char → List Char) (dir : Location) (path : List Char) : Location :=
  let path := backslashed path
  let (drive, root, rest) := splitroot path
  let comps := rest.splitOn '\\'
  if drive ≠ [] ∧ (root ≠ [] ∨ path.head? = some '\\') then ⟨drive, resolve [] comps⟩
  else if root ≠ [] then ⟨dir.drive, resolve [] comps⟩
  else if drive = [] ∨ fold drive = fold dir.drive then ⟨dir.drive, resolve dir.names comps⟩
  else ⟨drive, resolve [] comps⟩

theorem locate_qualified (hpath : Qualified (backslashed path))
    (h : splitroot (backslashed path) = (drive, root, rest)) (dir : Location) :
    locate fold dir path = ⟨drive, resolve [] (rest.splitOn '\\')⟩ := by
  obtain ⟨hdrive, -, -⟩ := splitroot_append hpath h
  have hroot : root ≠ [] ∨ (backslashed path).head? = some '\\' := by
    generalize backslashed path = q at hpath h
    cases hpath with
    | unc q => exact .inr rfl
    | drive hc rest' =>
      rw [splitroot_drive hc] at h
      obtain ⟨-, rfl, -⟩ : [_, ':'] = drive ∧ ['\\'] = root ∧ rest' = rest := by simpa using h
      exact .inl (List.cons_ne_nil _ _)
  unfold locate
  dsimp only
  rw [h]
  exact if_pos ⟨hdrive, hroot⟩

theorem locate_rootless (hpath : Rootless (backslashed path)) (dir : Location) :
    locate fold dir path = ⟨dir.drive, resolve dir.names ((backslashed path).splitOn '\\')⟩ := by
  unfold locate
  dsimp only
  rw [splitroot_of_rootless hpath]
  simp

/-! ### From one directory to another -/

theorem splitOn_join {names : List (List Char)} (hnames : ∀ c ∈ names, IsName c)
    (hsep : ∀ c ∈ names, '\\' ∉ c) : ((join names).splitOn '\\').filter (· ≠ []) = names := by
  by_cases hempty : names = []
  · rw [hempty]
    rfl
  · unfold join
    rw [List.splitOn_intercalate '\\' hsep hempty, List.filter_eq_self]
    intro c hc
    rw [decide_eq_true_eq]
    exact (hnames c hc).nonempty

theorem commonLength_le (fold : List Char → List Char) (as bs : List (List Char)) :
    commonLength fold as bs ≤ as.length ∧
      (commonLength fold as bs = as.length → as.map fold = (bs.take as.length).map fold) := by
  induction as generalizing bs with
  | nil => exact ⟨Nat.le_refl _, fun _ => rfl⟩
  | cons a as ih =>
    cases bs with
    | nil =>
      refine ⟨Nat.zero_le _, fun h => ?_⟩
      cases h
    | cons b bs =>
      unfold commonLength
      split
      · rename_i hfold
        refine ⟨Nat.succ_le_succ (ih bs).1, fun h => ?_⟩
        have hrest := (ih bs).2 (Nat.succ.inj h)
        rw [List.map_cons, List.length_cons, List.take_succ_cons, List.map_cons, hfold, hrest]
      · exact ⟨Nat.zero_le _, fun h => (nomatch h)⟩

/-- **A relative path that does not begin with two dots: the start is a part of the path.** -/
theorem relpath_inside {start startDrive startRoot pathDrive pathRoot rel : List Char}
    {S P : List (List Char)} (hstart : splitroot start = (startDrive, startRoot, join S))
    (hpath : splitroot path = (pathDrive, pathRoot, join P)) (hS : ∀ c ∈ S, IsName c)
    (hP : ∀ c ∈ P, IsName c) (hSsep : ∀ c ∈ S, '\\' ∉ c) (hPsep : ∀ c ∈ P, '\\' ∉ c)
    (h : relpath fold path start = some rel) (hinside : rel ≠ ['.', '.'])
    (hbegins : "..\\".toList.isPrefixOf rel = false) :
    fold startDrive = fold pathDrive ∧ S.map fold = (P.take S.length).map fold ∧
      rel = if P.drop S.length = [] then ['.'] else join (P.drop S.length) := by
  unfold relpath at h
  rw [hstart, hpath] at h
  dsimp only at h
  rw [splitOn_join hS hSsep, splitOn_join hP hPsep] at h
  by_cases hdrive : fold startDrive ≠ fold pathDrive
  · rw [if_pos hdrive] at h
    cases h
  · rw [if_neg hdrive] at h
    obtain ⟨hle, heq⟩ := commonLength_le fold S P
    by_cases hshared : commonLength fold S P = S.length
    · rw [hshared, Nat.sub_self, List.replicate_zero, List.nil_append] at h
      refine ⟨not_not.mp hdrive, heq hshared, ?_⟩
      rw [← Option.some.inj h]
      simp only [List.isEmpty_iff]
    · exfalso
      obtain ⟨n, hn⟩ : ∃ n, S.length - commonLength fold S P = n + 1 :=
        ⟨S.length - commonLength fold S P - 1, by omega⟩
      rw [hn, List.replicate_succ, List.cons_append] at h
      have hrel := (Option.some.inj h).symm
      rw [List.isEmpty_cons] at hrel
      unfold join at hrel
      cases hmore : List.replicate n ['.', '.'] ++ P.drop (commonLength fold S P) with
      | nil =>
        rw [hmore] at hrel
        exact hinside hrel
      | cons c more =>
        rw [hmore, if_neg Bool.false_ne_true, List.intercalate_cons_cons] at hrel
        rw [hrel] at hbegins
        simp at hbegins

end Nt
