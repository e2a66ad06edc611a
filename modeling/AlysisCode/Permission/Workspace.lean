/-
Where the path of a request lies.

A path is read with the whitespace around it dropped and with either separator.  One that is
reported as inside the workspace leads to the root or below it, and the path that is kept names
the place from there, without two dots.  On Windows this is said of paths that have a drive and a
root or neither; the kept path is case-folded.
-/
import AlysisCode.Library.Resolve
import AlysisCode.Permission.Selector

namespace AlysisCode.Permission

open Runs Text

/-! ### Places -/

/-- The names below the root, as a kept path shows them. -/
def shown (fold : List Char → List Char) (names : List (List Char)) : List Char :=
  if names = [] then ['.'] else fold (Posix.join names)

/-- Names without a separator in them. -/
structure Names (sep : Char) (names : List (List Char)) : Prop where
  isName : ∀ c ∈ names, Posix.IsName c
  clean : ∀ c ∈ names, sep ∉ c

variable {absolute : List Char → Bool} {comps : List (List Char)} {fold : List Char → List Char}
  {w : Nt.Location}

theorem join_eq_nil (h : ∀ c ∈ comps, c ≠ []) : Posix.join comps = [] ↔ comps = [] := by
  unfold Posix.join
  constructor
  · intro hjoin
    by_contra hne
    obtain ⟨c, rest, rfl⟩ := List.exists_cons_of_ne_nil hne
    cases rest with
    | nil =>
      rw [List.intercalate_singleton] at hjoin
      exact h c List.mem_cons_self hjoin
    | cons d rest =>
      rw [List.intercalate_cons_cons] at hjoin
      simp at hjoin
  · rintro rfl
    rfl

variable {path : Option (List Char)} {dir names : List (List Char)} {raw : List Char}
  {lower : List Char → List Char}

/-- A normal form that is inside does not begin with two dots. -/
theorem placeOf_inside (hcomps : ∀ c ∈ comps, c ≠ [] ∧ c ≠ ['.'])
    (h : placeOf absolute fold (if comps = [] then ['.'] else Posix.join comps) = (path, false)) :
    comps.head? ≠ some ['.', '.'] ∧ path = some (shown fold comps) := by
  unfold shown
  by_cases hempty : comps = []
  · subst hempty
    exact ⟨by simp, (Prod.mk.inj h).1.symm⟩
  · rw [if_neg hempty] at h ⊢
    have hne : Posix.join comps ≠ [] := mt (join_eq_nil fun c hc => (hcomps c hc).1).mp hempty
    have hdot : Posix.join comps ≠ ['.'] := by
      intro hjoin
      obtain ⟨c, rest, rfl⟩ := List.exists_cons_of_ne_nil hempty
      unfold Posix.join at hjoin
      cases rest with
      | nil =>
        rw [List.intercalate_singleton] at hjoin
        exact (hcomps c List.mem_cons_self).2 hjoin
      | cons d rest =>
        rw [List.intercalate_cons_cons] at hjoin
        have hc := (hcomps c List.mem_cons_self).1
        cases c with
        | nil => exact hc rfl
        | cons a more => simp at hjoin
    unfold placeOf at h
    rw [if_neg (not_or.mpr ⟨hne, hdot⟩)] at h
    split at h
    · cases (Prod.mk.inj h).2
    · rename_i hinside
      refine ⟨?_, (Prod.mk.inj h).1.symm⟩
      intro hhead
      apply hinside
      obtain ⟨rest, rfl⟩ := List.head?_eq_some_iff.mp hhead
      unfold Posix.join
      cases rest with
      | nil => exact .inl rfl
      | cons d rest =>
        rw [List.intercalate_cons_cons]
        exact .inr (.inl (by simp))

theorem foldl_clean (comps : List (List Char)) :
    ∀ c ∈ comps.foldl (Posix.pushComponent false) [], c ≠ [] ∧ c ≠ ['.'] := by
  obtain ⟨ups, names, hnames, hrelative, -⟩ := Posix.resolve_relative comps
  rw [hrelative]
  intro c hc
  rcases List.mem_append.mp hc with hc | hc
  · rw [List.eq_of_mem_replicate hc]
    exact ⟨by simp, by simp⟩
  · exact ⟨(hnames c hc).1.nonempty, (hnames c hc).1.dot⟩

/-- **A relative path that is inside leads to the names it shows.** -/
theorem relative_inside {sep : Char} (hdir : ∀ c ∈ dir, Posix.IsName c) (h : placeOf absolute fold
      (if (raw.splitOn sep).foldl (Posix.pushComponent false) [] = [] then ['.']
        else Posix.join ((raw.splitOn sep).foldl (Posix.pushComponent false) [])) =
      (path, false)) :
    ∃ names, Names sep names ∧ (∀ c ∈ names, c ∈ raw.splitOn sep) ∧
      Posix.resolve dir (raw.splitOn sep) = dir ++ names ∧ path = some (shown fold names) := by
  obtain ⟨hhead, hpath⟩ := placeOf_inside (foldl_clean _) h
  obtain ⟨hnames, hresolve⟩ := Posix.resolve_below hdir hhead
  refine ⟨_, ⟨fun c hc => (hnames c hc).1, fun c hc => ?_⟩, fun c hc => (hnames c hc).2,
    hresolve, hpath⟩
  exact Glob.not_mem_of_mem_splitOn (hnames c hc).2

/-! ### POSIX -/

/-- The path as it is read: without whitespace around it, and with slashes. -/
def posixRead (text : List Char) : List Char := replaceBackslash (stripWhere isSpace text)

/-- A workspace root names the directory, if it is absolute. -/
def PosixRoot (root : Option String) (dir : List (List Char)) : Prop :=
  (∀ c ∈ dir, Posix.IsName c) ∧ ∀ text ∈ root, Posix.isabs (replaceBackslash text.toList) = true →
      Posix.locate dir (replaceBackslash text.toList) = dir

theorem splitOn_join (h : Names '/' names) (hne : names ≠ []) :
    (Posix.join names).splitOn '/' = names :=
  List.splitOn_intercalate '/' h.clean hne

theorem isabs_join (h : Names '/' names) : Posix.isabs (Posix.join names) = false := by
  cases names with
  | nil => rfl
  | cons c rest =>
    have hfirst : (Posix.join (c :: rest)).head? = c.head? := by
      unfold Posix.join
      have hc := (h.isName c List.mem_cons_self).nonempty
      cases rest with
      | nil => rw [List.intercalate_singleton]
      | cons d rest =>
        rw [List.intercalate_cons_cons]
        cases c with
        | nil => exact absurd rfl hc
        | cons a more => rfl
    unfold Posix.isabs
    rw [hfirst]
    have hclean := h.clean c List.mem_cons_self
    cases c with
    | nil => rfl
    | cons a more =>
      rw [List.mem_cons, not_or] at hclean
      simpa using fun heq => hclean.1 heq.symm

theorem normpath_relative (h : Posix.isabs raw = false) : Posix.normpath raw =
      if (raw.splitOn '/').foldl (Posix.pushComponent false) [] = [] then ['.']
      else Posix.join ((raw.splitOn '/').foldl (Posix.pushComponent false) []) := by
  unfold Posix.normpath Posix.initialSlashes
  rw [h]
  simp only [Bool.not_false, if_true, List.replicate_zero, List.nil_append, List.isEmpty_iff]
  have hiff := join_eq_nil fun c hc => (foldl_clean (raw.splitOn '/') c hc).1
  by_cases hempty : (raw.splitOn '/').foldl (Posix.pushComponent false) [] = []
  · rw [if_pos hempty, if_pos (hiff.mpr hempty)]
  · rw [if_neg hempty, if_neg (mt hiff.mp hempty)]

/-- The normal form of an absolute path: one slash or two, and the names it leads to. -/
theorem normpath_absolute (h : Posix.isabs raw = true) : ∃ n, Posix.normpath raw =
        List.replicate (n + 1) '/' ++ Posix.join (Posix.resolve [] (raw.splitOn '/')) ∧
      Names '/' (Posix.resolve [] (raw.splitOn '/')) := by
  have hnames := @Posix.resolve_names [] (fun _ hc => nomatch hc) (raw.splitOn '/')
  refine ⟨Posix.initialSlashes raw - 1, ?_, fun c hc => (hnames c hc).1, fun c hc => ?_⟩
  · have hpos : Posix.initialSlashes raw - 1 + 1 = Posix.initialSlashes raw := by
      unfold Posix.initialSlashes
      rw [h]
      simp only [Bool.not_true, Bool.false_eq_true, if_false]
      split
      · rfl
      · rfl
    rw [hpos]
    unfold Posix.normpath
    rw [h, if_neg]
    · rfl
    · rw [← hpos]
      simp
  · rcases (hnames c hc).2 with hmem | hmem
    · cases hmem
    · exact Glob.not_mem_of_mem_splitOn hmem

/-- What lies below a directory: the names it is reported by, and where those lead. -/
def PosixInside (dir : List (List Char)) (raw : List Char) (path : Option (List Char)) : Prop :=
  ∃ names, Names '/' names ∧ Posix.locate dir raw = dir ++ names ∧
    path = some (shown id names) ∧ Posix.locate dir (shown id names) = dir ++ names

theorem locate_shown (h : Names '/' names) (dir : List (List Char)) :
    Posix.locate dir (shown id names) = dir ++ names := by
  unfold shown
  by_cases hempty : names = []
  · subst hempty
    rw [if_pos rfl, List.append_nil]
    unfold Posix.locate
    rw [if_neg (by decide)]
    rfl
  · rw [if_neg hempty, id]
    unfold Posix.locate
    rw [isabs_join h, if_neg Bool.false_ne_true, splitOn_join h hempty]
    exact Posix.foldl_names h.isName dir

theorem comps_absolute (names : List (List Char)) (n : Nat) :
    (List.replicate (n + 1) '/' ++ Posix.join names).splitOn '/' =
      List.replicate (n + 1) [] ++ (Posix.join names).splitOn '/' := by
  induction n with
  | zero =>
    rw [List.replicate_one, List.singleton_append, List.splitOn_cons_eq_if_modifyHead]
    rfl
  | succ n ih =>
    rw [List.replicate_succ, List.cons_append, List.splitOn_cons_eq_if_modifyHead, ih]
    rfl

theorem filter_absolute (h : Names '/' names) (n : Nat) {p : List Char → Bool} (hnil : p [] = false)
    (hp : ∀ c, Posix.IsName c → p c = true) :
    ((List.replicate (n + 1) '/' ++ Posix.join names).splitOn '/').filter p = names := by
  rw [comps_absolute names, List.filter_append, List.filter_replicate, hnil]
  simp only [Bool.false_eq_true, if_false, List.nil_append]
  by_cases hempty : names = []
  · subst hempty
    simp [Posix.join, hnil]
  · rw [splitOn_join h hempty, List.filter_eq_self]
    exact fun c hc => hp c (h.isName c hc)

theorem commonPrefix_begins {α : Type} [DecidableEq α] (as bs : List α) :
    Posix.commonPrefix as bs <+: as ∧ Posix.commonPrefix as bs <+: bs := by
  induction as generalizing bs with
  | nil => exact ⟨ List.nil_prefix, List.nil_prefix⟩
  | cons a as ih =>
    cases bs with
    | nil => exact ⟨ List.nil_prefix, List.nil_prefix⟩
    | cons b bs =>
      unfold Posix.commonPrefix
      split
      · rename_i heq
        rw [heq]
        exact ⟨(List.prefix_cons_inj b).mpr (ih bs).1, (List.prefix_cons_inj b).mpr (ih bs).2⟩
      · exact ⟨ List.nil_prefix, List.nil_prefix⟩

theorem join_inj {names' : List (List Char)} (h : Names '/' names) (h' : Names '/' names')
    (heq : Posix.join names = Posix.join names') : names = names' := by
  have hiff := join_eq_nil fun c hc => (h.isName c hc).nonempty
  have hiff' := join_eq_nil fun c hc => (h'.isName c hc).nonempty
  by_cases hempty : names = []
  · rw [hempty, hiff'.mp (heq ▸ hiff.mpr hempty)]
  · have hempty' : names' ≠ [] := fun hnil => hempty (hiff.mp (heq ▸ hiff'.mpr hnil))
    rw [← splitOn_join h hempty, heq, splitOn_join h' hempty']

theorem common_root {n m : Nat} {S P : List (List Char)} (hS : Names '/' S) (hP : Names '/' P)
    (h : Posix.commonpath (List.replicate (n + 1) '/' ++ Posix.join S)
      (List.replicate (m + 1) '/' ++ Posix.join P) = List.replicate (n + 1) '/' ++ Posix.join S) :
    Posix.commonPrefix S P = S := by
  have hfilter (c : List Char) (hc : Posix.IsName c) : decide (c ≠ [] ∧ c ≠ ['.']) = true := by
    rw [decide_eq_true_eq]
    exact ⟨hc.nonempty, hc.dot⟩
  unfold Posix.commonpath at h
  dsimp only at h
  rw [filter_absolute hS n (by decide) hfilter, filter_absolute hP m (by decide) hfilter] at h
  obtain ⟨hfront, -⟩ := commonPrefix_begins S P
  have hcommon : Names '/' (Posix.commonPrefix S P) :=
    ⟨fun c hc => hS.isName c (hfront.subset hc), fun c hc => hS.clean c (hfront.subset hc)⟩
  rw [List.replicate_succ, List.cons_append] at h
  have htail := (List.cons.inj h).2
  cases n with
  | zero => exact join_inj hcommon hS htail
  | succ n =>
    -- two slashes in front are kept, and are no common path
    exfalso
    have habs := isabs_join hcommon
    rw [htail] at habs
    cases habs

variable {text value : List Char} {root : Option String}

/-- An absolute path that begins with the names of the root leads below it. -/
theorem posix_absolute (hraw : Posix.isabs raw = true) (htext : Posix.isabs text = true)
    (hdir : Posix.locate dir text = dir)
    (hcommon : Posix.commonpath (Posix.normpath text) (Posix.normpath raw) = Posix.normpath text)
    (h : placeOf Posix.isabs id (Posix.normpath
      (Posix.relpath (Posix.normpath raw) (Posix.normpath text))) = (path, false)) :
    PosixInside dir raw path := by
  obtain ⟨n, htextnorm, hS⟩ := normpath_absolute htext
  obtain ⟨m, hrawnorm, hP⟩ := normpath_absolute hraw
  have hlocate : Posix.locate dir raw = Posix.resolve [] (raw.splitOn '/') := by
    unfold Posix.locate
    rw [hraw, if_pos rfl]
  unfold Posix.locate at hdir
  rw [htext, if_pos rfl] at hdir
  rw [hdir] at htextnorm hS
  unfold PosixInside
  rw [hlocate]
  generalize Posix.resolve [] (raw.splitOn '/') = P at hrawnorm hP ⊢
  rw [htextnorm, hrawnorm] at hcommon h
  have hshared := common_root hS hP hcommon
  obtain ⟨names, hnames⟩ : dir <+: P := hshared ▸ (commonPrefix_begins dir P).2
  have hbelow : Names '/' names :=
    ⟨fun c hc => hP.isName c (hnames ▸ List.mem_append_right dir hc),
      fun c hc => hP.clean c (hnames ▸ List.mem_append_right dir hc)⟩
  refine ⟨names, hbelow, hnames.symm, ?_, locate_shown hbelow dir⟩
  have hfilter (c : List Char) (hc : Posix.IsName c) : decide (c ≠ []) = true := by
    rw [decide_eq_true_eq]
    exact hc.nonempty
  have hrel : Posix.relpath (List.replicate (m + 1) '/' ++ Posix.join P)
      (List.replicate (n + 1) '/' ++ Posix.join dir) = shown id names := by
    have hstart := filter_absolute hS n (p := fun c => decide (c ≠ [])) (by decide) hfilter
    have hpath := filter_absolute hP m (p := fun c => decide (c ≠ [])) (by decide) hfilter
    simp only [Posix.relpath, hstart, hpath, hshared, Nat.sub_self, List.replicate_zero,
      List.nil_append, List.isEmpty_iff]
    rw [← hnames, List.drop_left]
    rfl
  rw [hrel] at h
  have hnorm : Posix.normpath (shown id names) = shown id names := by
    unfold shown
    by_cases hempty : names = []
    · rw [if_pos hempty]
      rfl
    · rw [if_neg hempty, id, normpath_relative (isabs_join hbelow), splitOn_join hbelow hempty,
        Posix.foldl_names hbelow.isName, List.nil_append, if_neg hempty]
  rw [hnorm] at h
  exact (placeOf_inside (fun c hc => ⟨(hbelow.isName c hc).nonempty, (hbelow.isName c hc).dot⟩) h).2

theorem posix_eq (value : List Char) (root : Option String) :
    normalizePosixWorkspacePath value root =
      if Posix.isabs (posixRead value) then
        match root with
        | none => (none, true)
        | some root =>
          if !Posix.isabs (replaceBackslash root.toList) then (none, true)
          else if Posix.commonpath (Posix.normpath (replaceBackslash root.toList))
              (Posix.normpath (posixRead value)) ≠ Posix.normpath (replaceBackslash root.toList) then
            (none, true)
          else placeOf Posix.isabs id (Posix.normpath (Posix.relpath
            (Posix.normpath (posixRead value)) (Posix.normpath (replaceBackslash root.toList))))
      else placeOf Posix.isabs id (Posix.normpath (posixRead value)) := rfl

/-- **What is reported as inside on POSIX lies at the root or below it.** -/
theorem posix_inside (hroot : PosixRoot root dir)
    (h : normalizePosixWorkspacePath value root = (path, false)) :
    PosixInside dir (posixRead value) path := by
  rw [posix_eq] at h
  generalize posixRead value = raw at h ⊢
  by_cases hraw : Posix.isabs raw = true
  · rw [if_pos hraw] at h
    cases root with
    | none => cases (Prod.mk.inj h).2
    | some text =>
      dsimp only at h
      by_cases htext : Posix.isabs (replaceBackslash text.toList) = true
      · rw [if_neg (by simp [htext])] at h
        by_cases hcommon : Posix.commonpath (Posix.normpath (replaceBackslash text.toList))
            (Posix.normpath raw) = Posix.normpath (replaceBackslash text.toList)
        · rw [if_neg (not_not.mpr hcommon)] at h
          exact posix_absolute hraw htext (hroot.2 text rfl htext) hcommon h
        · rw [if_pos hcommon] at h
          cases (Prod.mk.inj h).2
      · rw [if_pos (by simp [htext])] at h
        cases (Prod.mk.inj h).2
  · rw [if_neg hraw, normpath_relative (Bool.eq_false_iff.mpr hraw)] at h
    obtain ⟨names, hnames, -, hresolve, hpath⟩ := relative_inside hroot.1 h
    refine ⟨names, hnames, ?_, hpath, locate_shown hnames dir⟩
    unfold Posix.locate
    rw [if_neg hraw]
    exact hresolve

/-! ### Windows -/

/-- The machine with Python's `ntpath`; `lower` is what it does to the case of names. -/
def ntHost (nt : Bool) (lower : List Char → List Char) : Host :=
  ⟨nt, Nt.normpath, Nt.relpath lower, Nt.isabs⟩

/-- The path as it is read: without whitespace around it, and with backslashes. -/
def windowsRead (text : List Char) : List Char := Nt.backslashed (stripWhere isSpace text)

/-- A workspace root names the location, if it is absolute. -/
def WindowsRoot (lower : List Char → List Char) (root : Option String) (w : Nt.Location) : Prop :=
  (∀ c ∈ w.names, Posix.IsName c) ∧
    ∀ text ∈ root, windowsAbsolute text.toList = true → Nt.locate lower w text.toList = w

/-- What lies below a location, up to the case of names, and the names it is reported by. -/
def WindowsInside (lower : List Char → List Char) (w : Nt.Location) (raw : List Char)
    (path : Option (List Char)) : Prop :=
  ∃ names, Names '\\' names ∧ Names '/' names ∧
    lower (Nt.locate lower w raw).drive = lower w.drive ∧
    (Nt.locate lower w raw).names.map lower = w.names.map lower ++ names.map lower ∧
    ((∀ name ∈ names.head?, name[1]? ≠ some ':') → path = some (shown casefold names) ∧
      Nt.locate lower w (shown id names) = ⟨w.drive, w.names ++ names⟩)

theorem backslashed_backslashed (path : List Char) :
    Nt.backslashed (Nt.backslashed path) = Nt.backslashed path := by
  unfold Nt.backslashed
  rw [List.map_map]
  refine List.map_congr_left fun c _ => ?_
  rw [Function.comp_apply]
  by_cases hc : c = '/'
  · rw [if_pos hc, if_neg (by decide)]
  · rw [if_neg hc, if_neg hc]

theorem slash_not_mem_backslashed (path : List Char) : '/' ∉ Nt.backslashed path := by
  intro hmem
  obtain ⟨c, -, hc⟩ := List.mem_map.mp hmem
  by_cases hslash : c = '/'
  · rw [if_pos hslash] at hc
    exact absurd hc (by decide)
  · rw [if_neg hslash] at hc
    exact hslash hc

/-- An absolute path has a drive and a root, or two separators in front. -/
theorem qualified_of_absolute {path : List Char} (h : windowsAbsolute path = true) :
    Nt.Qualified (Nt.backslashed path) := by
  match path with
  | [] | [_] => cases h
  | a :: b :: rest =>
    unfold windowsAbsolute at h
    simp only [Bool.or_eq_true, Bool.and_eq_true, beq_iff_eq] at h
    rcases h with ⟨⟨halpha, rfl⟩, hrest⟩ | ⟨ha, hb⟩
    · have hslash : a ≠ '/' := by
        rintro rfl
        exact absurd halpha (by decide)
      have hback : a ≠ '\\' := by
        rintro rfl
        exact absurd halpha (by decide)
      cases rest with
      | nil => simp at hrest
      | cons d more =>
        have hd : (if d = '/' then '\\' else d) = '\\' := by
          rcases hrest with hd | hd
          · cases hd
            rfl
          · cases hd
            rfl
        unfold Nt.backslashed
        rw [List.map_cons, List.map_cons, List.map_cons, hd, if_neg hslash, if_neg (by decide)]
        exact .drive hback _
    · have hsep (c : Char) (hc : c = '/' ∨ c = '\\') : (if c = '/' then '\\' else c) = '\\' := by
        rcases hc with rfl | rfl
        · rfl
        · rfl
      unfold Nt.backslashed
      rw [List.map_cons, List.map_cons, hsep a ha, hsep b hb]
      exact .unc _

theorem mem_of_mem_splitOn {x c : Char} {t s : List Char} (hs : s ∈ t.splitOn x) (hc : c ∈ s) :
    c ∈ t := by
  have hjoin : [x].intercalate (t.splitOn x) = t := List.intercalate_splitOn x
  rw [← hjoin]
  unfold List.intercalate
  rw [List.mem_flatten]
  refine ⟨s, ?_, hc⟩
  generalize t.splitOn x = l at hs
  induction l with
  | nil => cases hs
  | cons d rest ih =>
    cases rest with
    | nil => simpa using hs
    | cons e rest =>
      rw [List.intersperse_cons_cons]
      rcases List.mem_cons.mp hs with rfl | hs
      · exact List.mem_cons_self
      · exact List.mem_cons_of_mem _ (List.mem_cons_of_mem _ (ih hs))

theorem map_intercalate {f : Char → Char} (sep : Char) (h : ∀ c ∈ names, c.map f = c) :
    ([sep].intercalate names).map f = [f sep].intercalate names := by
  induction names with
  | nil => rfl
  | cons c rest ih =>
    have hc := h c List.mem_cons_self
    cases rest with
    | nil =>
      rw [List.intercalate_singleton, List.intercalate_singleton]
      exact hc
    | cons d rest =>
      rw [List.intercalate_cons_cons, List.intercalate_cons_cons, List.map_append,
        List.map_append, ih fun d hd => h d (List.mem_cons_of_mem c hd), hc]
      rfl

theorem map_replace {x y : Char} {c : List Char} (h : x ∉ c) :
    c.map (fun d => if d = x then y else d) = c := by
  conv_rhs => rw [← List.map_id c]
  refine List.map_congr_left fun d hd => if_neg ?_
  rintro rfl
  exact h hd

theorem slashed_join (h : ∀ c ∈ names, '\\' ∉ c) :
    (Nt.join names).map (fun c => if c = '\\' then '/' else c) = Posix.join names :=
  map_intercalate '\\' fun c hc => map_replace (h c hc)

theorem backslashed_join (h : ∀ c ∈ names, '/' ∉ c) :
    Nt.backslashed (Posix.join names) = Nt.join names :=
  map_intercalate '/' fun c hc => map_replace (h c hc)

/-- Names begin with no root, and with no drive unless the first one looks like one. -/
theorem rootless_join (h : Names '\\' names) (hdrive : ∀ name ∈ names.head?, name[1]? ≠ some ':') :
    Nt.Rootless (Nt.join names) := by
  cases names with
  | nil => exact ⟨by decide, by decide⟩
  | cons c rest =>
    obtain ⟨a, more, rfl⟩ := List.exists_cons_of_ne_nil (h.isName c List.mem_cons_self).nonempty
    have ha : a ≠ '\\' := by
      rintro rfl
      exact h.clean _ List.mem_cons_self List.mem_cons_self
    have hsecond := hdrive _ rfl
    unfold Nt.join
    cases rest with
    | nil =>
      rw [List.intercalate_singleton]
      exact ⟨by simpa using ha, hsecond⟩
    | cons d rest =>
      rw [List.intercalate_cons_cons]
      refine ⟨by simpa using ha, ?_⟩
      cases more with
      | nil => simp
      | cons b more => simpa using hsecond

theorem nt_locate_shown (h : Names '\\' names) (hslash : ∀ c ∈ names, '/' ∉ c)
    (hdrive : ∀ name ∈ names.head?, name[1]? ≠ some ':') (w : Nt.Location) :
    Nt.locate lower w (shown id names) = ⟨w.drive, w.names ++ names⟩ := by
  unfold shown
  by_cases hempty : names = []
  · subst hempty
    rw [if_pos rfl, Nt.locate_rootless ⟨by decide, by decide⟩, List.append_nil]
    rfl
  · rw [if_neg hempty, id, Nt.locate_rootless]
    · rw [backslashed_join hslash]
      unfold Nt.join
      rw [List.splitOn_intercalate '\\' h.clean hempty]
      exact congrArg _ (Posix.foldl_names h.isName w.names)
    · rw [backslashed_join hslash]
      exact rootless_join h hdrive

/-- The normal form of a path with neither drive nor root, with slashes. -/
theorem nt_normpath_rootless (h : Nt.Rootless (Nt.backslashed raw)) :
    (Nt.normpath raw).map (fun c => if c = '\\' then '/' else c) =
      if ((Nt.backslashed raw).splitOn '\\').foldl (Posix.pushComponent false) [] = [] then ['.']
      else Posix.join (((Nt.backslashed raw).splitOn '\\').foldl
        (Posix.pushComponent false) []) := by
  have hclean : ∀ c ∈ ((Nt.backslashed raw).splitOn '\\').foldl (Posix.pushComponent false) [],
      '\\' ∉ c := by
    obtain ⟨ups, names, hnames, hrelative, -⟩ :=
      Posix.resolve_relative ((Nt.backslashed raw).splitOn '\\')
    rw [hrelative]
    intro c hc
    rcases List.mem_append.mp hc with hc | hc
    · rw [List.eq_of_mem_replicate hc]
      decide
    · exact Glob.not_mem_of_mem_splitOn (hnames c hc).2
  unfold Nt.normpath
  rw [Nt.splitroot_of_rootless h]
  dsimp only
  rw [List.isEmpty_nil, Bool.not_true]
  by_cases hempty : ((Nt.backslashed raw).splitOn '\\').foldl (Posix.pushComponent false) [] = []
  · rw [if_pos ⟨rfl, hempty⟩, if_pos hempty]
    rfl
  · rw [if_neg (fun hboth => hempty hboth.2), if_neg hempty]
    exact slashed_join hclean

/-- **A path with neither drive nor root that is inside leads to the names it shows.** -/
theorem windows_relative (hw : ∀ c ∈ w.names, Posix.IsName c)
    (hraw : Nt.Rootless (Nt.backslashed raw)) (h : placeOf windowsAbsolute casefold
      ((Nt.normpath raw).map fun c => if c = '\\' then '/' else c) = (path, false)) :
    WindowsInside lower w raw path := by
  rw [nt_normpath_rootless hraw] at h
  obtain ⟨names, hnames, hmem, hresolve, hpath⟩ := relative_inside hw h
  have hslash : ∀ c ∈ names, '/' ∉ c := fun c hc hslash =>
    slash_not_mem_backslashed raw (mem_of_mem_splitOn (hmem c hc) hslash)
  refine ⟨names, hnames, ⟨hnames.isName, hslash⟩, ?_, ?_, fun hdrive => ⟨hpath, ?_⟩⟩
  · rw [Nt.locate_rootless hraw]
  · rw [Nt.locate_rootless hraw, hresolve, List.map_append]
  · exact nt_locate_shown hnames hslash hdrive w

/-- What is below the root of a path is its end. -/
theorem splitroot_suffix {path : List Char} (h : Nt.Qualified path) :
    (Nt.splitroot path).2.2 <:+ path := by
  cases h with
  | drive hc rest =>
    rw [Nt.splitroot_drive hc]
    exact List.suffix_append [_, ':', '\\'] rest
  | unc q =>
    rw [Nt.splitroot_unc]
    rcases hunc : Nt.uncDrive ('\\' :: '\\' :: q) with ⟨d, _ | ⟨sep, below⟩⟩
    · exact List.nil_suffix
    · refine (List.suffix_cons sep below).trans ?_
      unfold Nt.uncDrive at hunc
      dsimp only at hunc
      split at hunc
      · cases (Prod.mk.inj hunc).2
      · rename_i next rest hdrop
        split at hunc
        · cases (Prod.mk.inj hunc).2
        · rw [← (Prod.mk.inj hunc).2]
          refine (List.dropWhile_suffix _).trans ((List.suffix_cons next rest).trans ?_)
          rw [← hdrop]
          exact (List.dropWhile_suffix _).trans (List.drop_suffix _ _)

theorem names_qualified {path drive root rest : List Char}
    (hpath : Nt.Qualified (Nt.backslashed path))
    (h : Nt.splitroot (Nt.backslashed path) = (drive, root, rest)) :
    Names '\\' (Posix.resolve [] (rest.splitOn '\\')) ∧
      Names '/' (Posix.resolve [] (rest.splitOn '\\')) := by
  have hnames := @Posix.resolve_names [] (fun _ hc => nomatch hc) (rest.splitOn '\\')
  have hmem (c : List Char) (hc : c ∈ Posix.resolve [] (rest.splitOn '\\')) :
      c ∈ rest.splitOn '\\' := ((hnames c hc).2).resolve_left (List.not_mem_nil)
  have hsuffix := splitroot_suffix hpath
  rw [h] at hsuffix
  refine ⟨⟨fun c hc => (hnames c hc).1, fun c hc => ?_⟩,
    ⟨fun c hc => (hnames c hc).1, fun c hc hslash => ?_⟩⟩
  · exact Glob.not_mem_of_mem_splitOn (hmem c hc)
  · exact slash_not_mem_backslashed path (hsuffix.subset (mem_of_mem_splitOn (hmem c hc) hslash))

/-- **An absolute path that is inside leads below the root, up to the case of names.** -/
theorem windows_absolute {rel : List Char} (hraw : windowsAbsolute raw = true)
    (htext : windowsAbsolute text = true) (hw : Nt.locate lower w text = w)
    (hrel : Nt.relpath lower (Nt.normpath raw) (Nt.normpath text) = some rel)
    (hinside : rel ≠ ['.', '.']) (hbegins : "..\\".toList.isPrefixOf rel = false)
    (h : placeOf windowsAbsolute casefold
      ((Nt.normpath rel).map fun c => if c = '\\' then '/' else c) = (path, false)) :
    WindowsInside lower w raw path := by
  have hraw := qualified_of_absolute hraw
  have htext := qualified_of_absolute htext
  obtain ⟨textDrive, textRoot, textRest, htextsplit⟩ : ∃ drive root rest,
      Nt.splitroot (Nt.backslashed text) = (drive, root, rest) := ⟨_, _, _, rfl⟩
  obtain ⟨rawDrive, rawRoot, rawRest, hrawsplit⟩ : ∃ drive root rest,
      Nt.splitroot (Nt.backslashed raw) = (drive, root, rest) := ⟨_, _, _, rfl⟩
  rw [Nt.locate_qualified htext htextsplit] at hw
  have hS := names_qualified htext htextsplit
  have hP := names_qualified hraw hrawsplit
  have hstart := Nt.normpath_qualified htext htextsplit
  have hpath := Nt.normpath_qualified hraw hrawsplit
  have hlocate : Nt.locate lower w raw = ⟨rawDrive, Posix.resolve [] (rawRest.splitOn '\\')⟩ :=
    Nt.locate_qualified hraw hrawsplit w
  unfold WindowsInside
  rw [hlocate, ← hw]
  generalize Posix.resolve [] (textRest.splitOn '\\') = S at hS hstart
  generalize Posix.resolve [] (rawRest.splitOn '\\') = P at hP hpath
  obtain ⟨hdrive, hfront, hshown⟩ := Nt.relpath_inside hstart hpath hS.1.isName hP.1.isName
    hS.1.clean hP.1.clean hrel hinside hbegins
  have hdrop {sep : Char} (hP : Names sep P) : Names sep (P.drop S.length) :=
    ⟨fun c hc => hP.isName c (List.mem_of_mem_drop hc),
      fun c hc => hP.clean c (List.mem_of_mem_drop hc)⟩
  have hnames := hdrop hP.1
  have hslash := hdrop hP.2
  refine ⟨P.drop S.length, hnames, hslash, hdrive.symm, ?_, fun hfirst => ?_⟩
  · change P.map lower = S.map lower ++ _
    rw [hfront, ← List.map_append, List.take_append_drop]
  · refine ⟨?_, nt_locate_shown hnames hslash.clean hfirst _⟩
    generalize P.drop S.length = names at hnames hslash hfirst hshown
    by_cases hempty : names = []
    · subst hempty
      rw [if_pos rfl] at hshown
      subst hshown
      have hnone : ∀ c ∈ ([] : List (List Char)), c ≠ [] ∧ c ≠ ['.'] := fun _ hc => nomatch hc
      exact (placeOf_inside hnone h).2
    · rw [if_neg hempty] at hshown
      subst hshown
      have hback : Nt.backslashed (Nt.join names) = Nt.join names := by
        rw [← backslashed_join hslash.clean, backslashed_backslashed]
      have hrootless := rootless_join hnames hfirst
      rw [← hback] at hrootless
      rw [nt_normpath_rootless hrootless, hback] at h
      unfold Nt.join at h
      rw [List.splitOn_intercalate '\\' hnames.clean hempty,
        Posix.foldl_names hnames.isName, List.nil_append] at h
      exact (placeOf_inside (fun c hc =>
        ⟨(hnames.isName c hc).nonempty, (hnames.isName c hc).dot⟩) h).2

theorem windows_eq (nt : Bool) (lower : List Char → List Char) (value : List Char)
    (root : Option String) :
    normalizeWindowsWorkspacePath (ntHost nt lower) value root =
      if windowsAbsolute (windowsRead value) then
        match root with
        | none => (none, true)
        | some root =>
          if !windowsAbsolute root.toList then (none, true)
          else
            match Nt.relpath lower (Nt.normpath (windowsRead value))
              (Nt.normpath root.toList) with
            | none => (none, true)
            | some relative =>
              if relative = ['.', '.'] ∨ "..\\".toList.isPrefixOf relative ∨
                  Nt.isabs relative then (none, true)
              else placeOf windowsAbsolute casefold
                ((Nt.normpath relative).map fun c => if c = '\\' then '/' else c)
      else placeOf windowsAbsolute casefold
        ((Nt.normpath (windowsRead value)).map fun c => if c = '\\' then '/' else c) := rfl

/-- **What is reported as inside on Windows lies at the root or below it**, when the path has a
drive and a root or neither. -/
theorem windows_inside {nt : Bool} (hroot : WindowsRoot lower root w)
    (hform : windowsAbsolute (windowsRead value) = true ∨ Nt.Rootless (windowsRead value))
    (h : normalizeWindowsWorkspacePath (ntHost nt lower) value root = (path, false)) :
    WindowsInside lower w (windowsRead value) path := by
  have hback : Nt.backslashed (windowsRead value) = windowsRead value :=
    backslashed_backslashed _
  rw [windows_eq] at h
  generalize windowsRead value = raw at h hform hback ⊢
  by_cases hraw : windowsAbsolute raw = true
  · rw [if_pos hraw] at h
    cases root with
    | none => cases (Prod.mk.inj h).2
    | some text =>
      dsimp only at h
      by_cases htext : windowsAbsolute text.toList = true
      · rw [if_neg (by simp [htext])] at h
        cases hrel : Nt.relpath lower (Nt.normpath raw) (Nt.normpath text.toList) with
        | none =>
          rw [hrel] at h
          cases (Prod.mk.inj h).2
        | some relative =>
          rw [hrel] at h
          dsimp only at h
          split at h
          · cases (Prod.mk.inj h).2
          · rename_i hout
            obtain ⟨hinside, hrest⟩ := not_or.mp hout
            obtain ⟨hbegins, -⟩ := not_or.mp hrest
            exact windows_absolute hraw htext (hroot.2 text rfl htext) hrel hinside
              (Bool.eq_false_iff.mpr hbegins) h
      · rw [if_pos (by simp [htext])] at h
        cases (Prod.mk.inj h).2
  · rw [if_neg hraw] at h
    have hrootless := hform.resolve_left hraw
    rw [← hback] at hrootless
    exact windows_relative hroot.1 hrootless h

/-! ### Both platforms -/

end AlysisCode.Permission
