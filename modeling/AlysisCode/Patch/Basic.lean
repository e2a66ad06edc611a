/-
The paths of a patch, as the write guards see them.

`iter_patch_paths` scans a patch's lines for file names: those on its `diff --git` lines
if it has any that parse, those on its `---` and `+++` lines otherwise.  The swarm's write
guard checks each of them before `git_apply_patch` hands the patch to git.
-/
import AlysisCode.Ide.Common
import AlysisCode.Library.Runs
import AlysisCode.Library.Text

namespace AlysisCode.Patch

open Text Runs

/-- `str.strip()`. -/
def stripText (t : List Char) : List Char := stripWhere isSpace t

/-- `raw[1:-1]`. -/
def inner (raw : List Char) : List Char := (raw.drop 1).dropLast

def unquotePath (value : List Char) : List Char :=
  let raw := stripText value
  if raw.isEmpty then []
  else if raw.head? = some '"' ∧ raw.getLast? = some '"' ∧ 2 ≤ raw.length then
    match shlexSplit raw with
    | some (word :: _) => word
    | some [] | none => inner raw
  else raw

def normalizeGitPath (value : List Char) : List Char :=
  let raw := unquotePath (stripText value)
  if "a/".toList.isPrefixOf raw || "b/".toList.isPrefixOf raw then raw.drop 2 else raw

def devNull : List Char := "/dev/null".toList

/-- `parse_diff_git_line`; `none` is the pair of two `None`s. -/
def parseDiffGitLine (line : List Char) : Option (List Char × List Char) :=
  if "diff --git ".toList.isPrefixOf line then
    let payload := stripText (line.drop "diff --git ".length)
    let words :=
      match shlexSplit payload with
      | some (first :: second :: _) => some (normalizeGitPath first, normalizeGitPath second)
      | _ => none
    if "a/".toList.isPrefixOf payload then
      match rsplitOnce " b/".toList payload with
      | some (a, b) => some (normalizeGitPath a, normalizeGitPath ("b/".toList ++ b))
      | none => words
    else words
  else none

def parsePatchHeaderPath (line mark : List Char) : Option (List Char) :=
  if mark.isPrefixOf line then
    let raw := stripText ((line.drop mark.length).takeWhile (· ≠ '\t'))
    if raw.isEmpty then none
    else
      let path := normalizeGitPath raw
      if path.isEmpty ∨ path = devNull then none else some path
  else none

/-- `seen.add(path)` and `paths.append(path)`, for a path not seen yet. -/
def addPath (paths : List (List Char)) (path : List Char) : List (List Char) :=
  if path ∈ paths then paths else paths ++ [path]

/-- The body of the loop over a header line's two paths. -/
def visitPath (paths : List (List Char)) (path : List Char) : List (List Char) :=
  if path.isEmpty ∨ path = devNull then paths else addPath paths path

/-- The body of the first loop of `iter_patch_paths`, on whether a header line was seen and
the paths. -/
def scanDiffHeader (found : Bool × List (List Char)) (line : List Char) : Bool × List (List Char) :=
  match parseDiffGitLine line with
  | none => found
  | some (a, b) => (true, visitPath (visitPath found.2 a) b)

/-- The body of the second. -/
def scanFileHeader (paths : List (List Char)) (line : List Char) : List (List Char) :=
  ["--- ".toList, "+++ ".toList].foldl (fun paths mark =>
    match parsePatchHeaderPath line mark with
    | none => paths
    | some path => addPath paths path) paths

def iterPatchPaths (patchText : List Char) : List (List Char) :=
  let (sawDiffHeader, paths) := (splitlines patchText).foldl scanDiffHeader (false, [])
  if sawDiffHeader then paths else (splitlines patchText).foldl scanFileHeader paths

/-- `str.replace("\r\n", "\n")`. -/
def replaceCrlf : List Char → List Char
  | [] => []
  | '\r' :: '\n' :: rest => '\n' :: replaceCrlf rest
  | c :: rest => c :: replaceCrlf rest

/-- `_normalize_patch_text`: what `git_apply_patch` passes to git. -/
def normalizePatchText (patch : List Char) : List Char :=
  let normalized := (replaceCrlf patch).map fun c => if c = '\r' then '\n' else c
  if normalized ≠ [] ∧ normalized.getLast? ≠ some '\n' then normalized ++ ['\n'] else normalized

structure WriteScopeViolation where
  (toolName rawPath reason detail : List Char)
  resolvedRelpath : Option (List Char) := none
  deriving DecidableEq

/-- `SwarmWriteScopeGuard.check_tool_call` on a `git_apply_patch` call; `checkTarget` is
`_check_target`, and an error is the violation recorded and raised. -/
def checkPatchCall (checkTarget : List Char → Option WriteScopeViolation)
    (patch : Option (List Char)) : Except WriteScopeViolation Unit :=
  (iterPatchPaths (patch.getD [])).forM fun rawPath =>
    match checkTarget rawPath with
    | some violation => .error violation
    | none => .ok ()

/-! ### What the loops collect -/

variable {paths : List (List Char)} {text patch path p : List Char}

theorem mem_addPath : p ∈ addPath paths path ↔ p ∈ paths ∨ p = path := by
  unfold addPath
  split
  · rename_i hmem
    constructor
    · exact .inl
    · rintro (h | rfl)
      · exact h
      · exact hmem
  · rw [List.mem_append, List.mem_singleton]

def NamesFile (path : List Char) : Prop := path ≠ [] ∧ path ≠ devNull

theorem mem_visitPath : p ∈ visitPath paths path ↔ p ∈ paths ∨ (p = path ∧ NamesFile path) := by
  unfold visitPath
  by_cases h : path.isEmpty ∨ path = devNull
  · rw [if_pos h]
    have hno : ¬ NamesFile path := by
      rintro ⟨hne, hdev⟩
      rcases h with h | h
      · exact hne (List.isEmpty_iff.mp h)
      · exact hdev h
    constructor
    · exact .inl
    · rintro (hmem | ⟨-, hfile⟩)
      · exact hmem
      · exact absurd hfile hno
  · rw [if_neg h, mem_addPath]
    rw [not_or, List.isEmpty_iff] at h
    constructor
    · rintro (hmem | heq)
      · exact .inl hmem
      · exact .inr ⟨heq, h⟩
    · rintro (hmem | ⟨heq, -⟩)
      · exact .inl hmem
      · exact .inr heq

/-- `p` is one of the two names on a `diff --git` line. -/
def OnDiffLine (p line : List Char) : Prop :=
  ∃ a b, parseDiffGitLine line = some (a, b) ∧ (p = a ∨ p = b)

/-- `p` is the name on a `---` or `+++` line. -/
def OnFileLine (p line : List Char) : Prop :=
  parsePatchHeaderPath line "--- ".toList = some p ∨
    parsePatchHeaderPath line "+++ ".toList = some p

/-- The line is a `diff --git` line as the scanner reads one. -/
def isDiffLine (line : List Char) : Bool := (parseDiffGitLine line).isSome

/-- `p` is on the lines that count: the `diff --git` lines if there are any, else the `---`
and `+++` lines. -/
def Listed (lines : List (List Char)) (p : List Char) : Prop :=
  if lines.any isDiffLine = true then ∃ line ∈ lines, OnDiffLine p line
  else ∃ line ∈ lines, OnFileLine p line

theorem scanDiffHeader_saw (found : Bool × List (List Char)) (line : List Char) :
    (scanDiffHeader found line).1 = true ↔ found.1 = true ∨ isDiffLine line = true := by
  unfold scanDiffHeader isDiffLine
  cases parseDiffGitLine line with
  | none | some names => simp

theorem mem_scanDiffHeader (p : List Char) (found : Bool × List (List Char)) (line : List Char) :
    p ∈ (scanDiffHeader found line).2 ↔ p ∈ found.2 ∨ (OnDiffLine p line ∧ NamesFile p) := by
  unfold scanDiffHeader OnDiffLine
  cases hparse : parseDiffGitLine line with
  | none => simp
  | some names =>
    obtain ⟨a, b⟩ := names
    rw [mem_visitPath, mem_visitPath]
    constructor
    · rintro ((h | ⟨rfl, hfile⟩) | ⟨rfl, hfile⟩)
      · exact .inl h
      · exact .inr ⟨⟨p, b, rfl, .inl rfl⟩, hfile⟩
      · exact .inr ⟨⟨a, p, rfl, .inr rfl⟩, hfile⟩
    · rintro (h | ⟨⟨a', b', heq, hp⟩, hfile⟩)
      · exact .inl (.inl h)
      · obtain ⟨rfl, rfl⟩ : a = a' ∧ b = b' := by simpa using heq
        rcases hp with rfl | rfl
        · exact .inl (.inr ⟨rfl, hfile⟩)
        · exact .inr ⟨rfl, hfile⟩

theorem mem_scanFileHeader (p : List Char) (paths : List (List Char)) (line : List Char) :
    p ∈ scanFileHeader paths line ↔ p ∈ paths ∨ OnFileLine p line := by
  have hmark : ∀ (paths : List (List Char)) (mark : List Char),
      p ∈ (match parsePatchHeaderPath line mark with
        | none => paths
        | some path => addPath paths path) ↔
        p ∈ paths ∨ parsePatchHeaderPath line mark = some p := by
    intro paths mark
    cases parsePatchHeaderPath line mark with
    | none => simp
    | some path => rw [mem_addPath, Option.some.injEq, eq_comm (a := path)]
  unfold scanFileHeader OnFileLine
  rw [List.foldl_cons, List.foldl_cons, List.foldl_nil, hmark, hmark, or_assoc]

theorem namesFile_of_header {line mark : List Char} (h : parsePatchHeaderPath line mark = some p) :
    NamesFile p := by
  unfold parsePatchHeaderPath at h
  split at h
  · simp only at h
    split at h
    · cases h
    · split at h
      · cases h
      · rename_i hnot
        cases h
        rwa [not_or, List.isEmpty_iff] at hnot
  · cases h

/-- **What `iter_patch_paths` returns**: names on `diff --git` lines if there are such lines,
names on `---` and `+++` lines otherwise. -/
theorem mem_iterPatchPaths :
    p ∈ iterPatchPaths text ↔ NamesFile p ∧ Listed (splitlines text) p := by
  have hsaw := foldl_collects (P := fun found => found.1 = true) scanDiffHeader_saw
    (splitlines text) (false, [])
  have hpaths := foldl_collects (P := fun found => p ∈ found.2)
    (mem_scanDiffHeader p) (splitlines text) (false, [])
  have hfiles := foldl_collects (P := fun paths => p ∈ paths)
    (mem_scanFileHeader p) (splitlines text)
  simp only [Bool.false_eq_true, false_or, List.not_mem_nil] at hsaw hpaths
  unfold iterPatchPaths Listed
  simp only
  by_cases hdiff : (splitlines text).any isDiffLine = true
  · rw [if_pos (hsaw.mpr (List.any_eq_true.mp hdiff)), if_pos hdiff, hpaths]
    constructor
    · rintro ⟨line, hline, hon, hfile⟩
      exact ⟨hfile, line, hline, hon⟩
    · rintro ⟨hfile, line, hline, hon⟩
      exact ⟨line, hline, hon, hfile⟩
  · rw [if_neg fun h => hdiff (List.any_eq_true.mpr (hsaw.mp h)), if_neg hdiff, hfiles, hpaths]
    constructor
    · rintro (⟨line, hline, ⟨a, b, hparse, -⟩, -⟩ | ⟨line, hline, hon⟩)
      · exact absurd (List.any_eq_true.mpr ⟨line, hline, by simp [isDiffLine, hparse]⟩) hdiff
      · refine ⟨?_, line, hline, hon⟩
        rcases hon with hon | hon
        · exact namesFile_of_header hon
        · exact namesFile_of_header hon
    · rintro ⟨-, hline⟩
      exact .inr hline

/-! ### The guard and git are given texts with the same lines -/

theorem not_diffLine_nil : isDiffLine [] = false := by decide

/-- Empty lines name nothing. -/
theorem listed_congr {lines lines' : List (List Char)}
    (h : ∀ line, line ≠ [] → (line ∈ lines ↔ line ∈ lines')) :
    Listed lines p ↔ Listed lines' p := by
  have hsame : ∀ Q : List Char → Prop, ¬ Q [] →
      ((∃ line ∈ lines, Q line) ↔ ∃ line ∈ lines', Q line) := by
    intro Q hnil
    constructor
    · rintro ⟨line, hline, hQ⟩
      have hne : line ≠ [] := fun heq => hnil (heq ▸ hQ)
      exact ⟨line, (h line hne).mp hline, hQ⟩
    · rintro ⟨line, hline, hQ⟩
      have hne : line ≠ [] := fun heq => hnil (heq ▸ hQ)
      exact ⟨line, (h line hne).mpr hline, hQ⟩
  have hany : lines.any isDiffLine = lines'.any isDiffLine := by
    rw [Bool.eq_iff_iff, List.any_eq_true, List.any_eq_true]
    refine hsame (isDiffLine · = true) ?_
    rw [not_diffLine_nil]
    exact Bool.false_ne_true
  have hdiff : ¬ OnDiffLine p [] := by
    rintro ⟨a, b, hparse, -⟩
    have hno := not_diffLine_nil
    rw [isDiffLine, hparse] at hno
    cases hno
  have hfile : ¬ OnFileLine p [] := by
    rintro (h | h) <;> cases h
  unfold Listed
  rw [hany]
  by_cases hdiffs : lines'.any isDiffLine = true
  · rw [if_pos hdiffs, if_pos hdiffs]
    exact hsame _ hdiff
  · rw [if_neg hdiffs, if_neg hdiffs]
    exact hsame _ hfile

theorem mem_iterPatchPaths_fields :
    p ∈ iterPatchPaths text ↔ NamesFile p ∧ Listed (fields isLineBreak text) p := by
  rw [mem_iterPatchPaths, listed_congr fun line hne => mem_splitlines hne]

theorem fields_replaceCrlf (t : List Char) :
    fields isLineBreak (replaceCrlf t) = fields isLineBreak t := by
  suffices hfrom : ∀ begun,
      fieldsFrom isLineBreak begun (replaceCrlf t) = fieldsFrom isLineBreak begun t from hfrom []
  induction t using replaceCrlf.induct with
  | case1 => exact fun _ => rfl
  | case2 rest ih =>
    intro begun
    show field begun ++ fieldsFrom isLineBreak [] (replaceCrlf rest) =
      field begun ++ (field [] ++ fieldsFrom isLineBreak [] rest)
    rw [ih]
    rfl
  | case3 c rest hcrlf ih =>
    intro begun
    rw [replaceCrlf.eq_3 _ _ hcrlf]
    unfold fieldsFrom
    rw [ih, ih]

theorem fields_normalizePatchText (patch : List Char) :
    fields isLineBreak (normalizePatchText patch) = fields isLineBreak patch := by
  have hmap : fields isLineBreak ((replaceCrlf patch).map fun c => if c = '\r' then '\n' else c) =
      fields isLineBreak patch := by
    rw [fields_map ?_ ?_, fields_replaceCrlf]
    · intro c
      by_cases hc : c = '\r'
      · rw [if_pos hc, hc]
        rfl
      · rw [if_neg hc]
    · intro c hc
      refine if_neg ?_
      rintro rfl
      cases hc
  unfold normalizePatchText
  simp only
  split
  · rw [fields_append_sep rfl, hmap]
  · exact hmap

/-- **The scanned paths are those of the text that git is given.** -/
theorem mem_iterPatchPaths_normalize :
    p ∈ iterPatchPaths (normalizePatchText patch) ↔ p ∈ iterPatchPaths patch := by
  rw [mem_iterPatchPaths_fields, mem_iterPatchPaths_fields, fields_normalizePatchText]

theorem checkPatchCall_ok {checkTarget : List Char → Option WriteScopeViolation} :
    checkPatchCall checkTarget (some patch) = .ok () ↔
      ∀ p ∈ iterPatchPaths patch, checkTarget p = none := by
  unfold checkPatchCall
  rw [show (some patch).getD [] = patch from rfl]
  refine forM_eq_ok.trans (forall₂_congr fun p _ => ?_)
  cases checkTarget p with
  | some violation => exact ⟨fun h => (nomatch h), fun h => (nomatch h)⟩
  | none => exact ⟨fun _ => rfl, fun _ => rfl⟩

end AlysisCode.Patch

/-! ### What git writes

What the scanned paths cover of what git writes.

`git apply` is not part of the program: `GitApply` is any reader that takes file names
off a patch's header lines, where only a line feed ends a line.  The scanner and git agree
on the fields of a text (`mem_iterPatchPaths_fields`) but not on which of its lines count:
once a `diff --git` line is seen, names on `---`, `+++`, `rename` and `copy` lines are not
looked at, and without one the `rename` and `copy` lines still are not.
-/

namespace AlysisCode.Patch

open Text

/-- How `git apply` reads a patch: its header lines, each with the file it names.  The
files named are those that applying the patch can create, modify, delete, rename or copy. -/
structure GitApply where
  reads : List Char → List (List Char × List Char)
  lines : ∀ patch, ∀ r ∈ reads patch, r.1 ∈ fields (· == '\n') patch
  names : ∀ patch, ∀ r ∈ reads patch, NamesFile r.2

variable (git : GitApply)

def GitApply.targets (patch : List Char) : List (List Char) :=
  (git.reads patch).map (·.2)

/-- Every file git takes from a header line stands on a line that is scanned: a `diff --git`
line, if the patch has one, and a `---` or `+++` line if it has none. -/
def Scanned (patch : List Char) : Prop :=
  ∀ r ∈ git.reads patch, Listed (splitlines patch) r.2

theorem targets_covered_iff (patch : List Char) :
    (∀ p ∈ git.targets patch, p ∈ iterPatchPaths patch) ↔ Scanned git patch := by
  constructor
  · intro h r hr
    exact (mem_iterPatchPaths.mp (h r.2 (List.mem_map_of_mem hr))).2
  · intro h p hp
    obtain ⟨r, hr, rfl⟩ := List.mem_map.mp hp
    exact mem_iterPatchPaths.mpr ⟨git.names patch r hr, h r hr⟩

/-- The guard stops every call of `git_apply_patch` that writes what it does not allow. -/
def Guarded (patch : List Char) : Prop :=
  ∀ checkTarget, checkPatchCall checkTarget (some patch) = .ok () →
    ∀ p ∈ git.targets (normalizePatchText patch), checkTarget p = none

theorem guarded_iff (patch : List Char) :
    Guarded git patch ↔ Scanned git (normalizePatchText patch) := by
  rw [← targets_covered_iff]
  constructor
  · intro h p hp
    rw [mem_iterPatchPaths_normalize]
    by_contra hmiss
    -- a guard that allows the scanned paths only
    let only : List Char → Option WriteScopeViolation := fun p =>
      if p ∈ iterPatchPaths patch then none else some ⟨[], p, [], [], none⟩
    have hpass : checkPatchCall only (some patch) = .ok () :=
      checkPatchCall_ok.mpr fun p hp => if_pos hp
    have hallowed : only p = none := h only hpass p hp
    rw [show only p = some _ from if_neg hmiss] at hallowed
    cases hallowed
  · intro h checkTarget hpass p hp
    exact checkPatchCall_ok.mp hpass p (mem_iterPatchPaths_normalize.mp (h p hp))

/-- The file on a header line, for names without quotes: after `--- ` and `+++ ` the part
behind the first slash, up to a tab. -/
def plainName (line : List Char) : Option (List Char) :=
  let keep (path : List Char) : Option (List Char) :=
    if path ≠ [] ∧ path ≠ devNull then some path else none
  if "--- ".toList.isPrefixOf line ∨ "+++ ".toList.isPrefixOf line then
    let raw := (line.drop 4).takeWhile (· ≠ '\t')
    if raw = devNull then none else keep ((raw.dropWhile (· ≠ '/')).drop 1)
  else if "rename from ".toList.isPrefixOf line then keep (line.drop 12)
  else if "rename to ".toList.isPrefixOf line then keep (line.drop 10)
  else if "copy to ".toList.isPrefixOf line then keep (line.drop 8)
  else none

/-- Git on patches whose hunks have no line that looks like a header. -/
def plainGit : GitApply where
  reads patch := (fields (· == '\n') patch).filterMap fun l => (plainName l).map (l, ·)
  lines patch r hr := by
    obtain ⟨l, hl, hname⟩ := List.mem_filterMap.mp hr
    obtain ⟨p, -, rfl⟩ := Option.map_eq_some_iff.mp hname
    exact hl
  names patch r hr := by
    obtain ⟨l, -, hname⟩ := List.mem_filterMap.mp hr
    obtain ⟨p, hp, rfl⟩ := Option.map_eq_some_iff.mp hname
    unfold plainName at hp
    simp only at hp
    split_ifs at hp <;> exact Option.some.inj hp ▸ ‹_ ∧ _›

/-- A section with a `diff --git` line, then one without. -/
def mixedPatch : List Char :=
  ("diff --git a/ok.txt b/ok.txt\nnew file mode 100644\n--- /dev/null\n+++ b/ok.txt\n" ++
    "@@ -0,0 +1 @@\n+ok\n--- /dev/null\n+++ b/evil.txt\n@@ -0,0 +1 @@\n+evil\n").toList

theorem mixedPatch_paths : plainGit.targets mixedPatch = ["ok.txt".toList, "evil.txt".toList] ∧
      iterPatchPaths mixedPatch = ["ok.txt".toList] ∧
      normalizePatchText mixedPatch = mixedPatch := by
  decide +kernel

/-- The guard of a task that may write `ok.txt`. -/
def allowOk (path : List Char) : Option WriteScopeViolation :=
  if path = "ok.txt".toList then none
  else some ⟨"git_apply_patch".toList, path, "out_of_scope".toList,
    "write target is outside the task write scope: ok.txt.".toList, some path⟩

end AlysisCode.Patch
