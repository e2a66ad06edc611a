/-
The names under which long tool outputs are stored.

A name is made of the step, the tool's name and the call's id, of which every character that is
not safe in a file name becomes an underscore.  Two outputs share a name exactly if their texts
look alike so, and then the later one takes the place of the earlier one.
-/
import AlysisCode.Ide.Common
import AlysisCode.Library.Text
import Mathlib.Data.List.Forall2

namespace AlysisCode.Compaction.Offload

/-! ### Names -/

/-- `[A-Za-z0-9_-]` -/
def isSafe (c : Char) : Bool := c.isAlphanum || c == '_' || c == '-'

def safeComponent (raw : List Char) : List Char :=
  match (Text.stripWhere isSpace raw).map fun c => if isSafe c then c else '_' with
  | [] => ['x']
  | clean => clean

/-- How the writes of one output end: everything is written, the artifact is but its handle is
not, or nothing is. -/
inductive Fate where
  | saved
  | unregistered
  | refused
  deriving DecidableEq

structure ToolResult where
  toolName : List Char
  toolCallId : List Char
  step : Int
  contentJson : List Char
  fate : Fate := .saved

/-- The payload of an artifact. -/
structure Artifact where
  schemaVersion : Nat := 1
  toolName : List Char
  toolCallId : List Char
  step : Int
  contentJson : List Char

variable (r : ToolResult)

def ToolResult.artifact : Artifact :=
  { toolName := r.toolName, toolCallId := r.toolCallId, step := r.step,
    contentJson := r.contentJson }

/-- The file name of `_artifact_path`. -/
def artifactName : List Char :=
  "step".toList ++ (Nat.toDigits 10 (max 0 r.step).toNat ++ '_' ::
    (safeComponent r.toolName ++ '_' :: safeComponent r.toolCallId ++ ".json".toList))

/-! ### Offloading -/

/-- The artifacts in the directory of tool outputs. -/
abbrev Artifacts := List Char → Option Artifact

/-- Where the locators of tool outputs begin. -/
def locatorRoot : List Char := "session_artifacts/tool_outputs/".toList

def resolveLocator (locator : List Char) : Option (List Char) :=
  if locatorRoot.isPrefixOf locator then some (locator.drop locatorRoot.length) else none

structure OffloadResult where
  offloaded : Bool
  transcriptShaped : Bool
  artifactLocator : Option (List Char)
  originalChars : Nat

/-- `maybe_offload`, with the constructor's `max(1, int(threshold_chars))`. -/
def maybeOffload (thresholdChars : Int) (files : Artifacts) (r : ToolResult) :
    OffloadResult × Artifacts :=
  let threshold := max 1 thresholdChars
  let originalChars := r.contentJson.length
  if originalChars < threshold then (⟨false, false, none, originalChars⟩, files)
  else
    let written := Function.update files (artifactName r) (some r.artifact)
    match r.fate with
    | .saved => (⟨true, true, some (locatorRoot ++ artifactName r), originalChars⟩, written)
    | .unregistered => (⟨false, true, none, originalChars⟩, written)
    | .refused => (⟨false, true, none, originalChars⟩, files)

/-- The outputs of a session one after the other: the messages, and what is stored. -/
def offloadAll (thresholdChars : Int) (files : Artifacts) :
    List ToolResult → List (ToolResult × OffloadResult) × Artifacts
  | [] => ([], files)
  | r :: rest =>
    let (answer, files) := maybeOffload thresholdChars files r
    let (answers, files) := offloadAll thresholdChars files rest
    ((r, answer) :: answers, files)

/-- The output is written to its artifact. -/
def writes (thresholdChars : Int) (r : ToolResult) : Bool :=
  max 1 thresholdChars ≤ r.contentJson.length && r.fate != .refused

def denotes (files : Artifacts) (locator : List Char) : Option Artifact :=
  (resolveLocator locator).bind files

/-- No two outputs are stored under one name, and every locator in a message denotes the output
it was made for. -/
def NeverAlias (thresholdChars : Int) (files : Artifacts) (results : List ToolResult) : Prop :=
  (results.filter (writes thresholdChars)).Pairwise (fun r r' => artifactName r ≠ artifactName r') ∧
  ∀ m ∈ (offloadAll thresholdChars files results).1, ∀ locator ∈ m.2.artifactLocator,
    denotes (offloadAll thresholdChars files results).2 locator = some m.1.artifact

/-! ### Outputs that look alike -/

/-- One of the characters that stand as an underscore in a name. -/
def isUnderscored (c : Char) : Bool := !c.isAlphanum && c != '-'

/-- The characters are the same, or both stand as an underscore. -/
def AlikeChar (c c' : Char) : Prop := c = c' ∨ (isUnderscored c = true ∧ isUnderscored c' = true)

/-- A name as it is read, without the blanks around it. -/
def component (raw : List Char) : List Char :=
  if Text.stripWhere isSpace raw = [] then ['x'] else Text.stripWhere isSpace raw

/-- The tool's name and the call's id, joined. -/
def label : List Char := component r.toolName ++ '_' :: component r.toolCallId

/-- The outputs are of one step (none is before the first), and their labels are alike. -/
def Alike (r' : ToolResult) : Prop :=
  max 0 r.step = max 0 r'.step ∧ List.Forall₂ AlikeChar (label r) (label r')

/-- A character as it stands in a name. -/
def safeChar (c : Char) : Char := if isSafe c then c else '_'

theorem safeChar_eq_iff {c c' : Char} : safeChar c = safeChar c' ↔ AlikeChar c c' := by
  have hclass (c : Char) : (isUnderscored c = true ∧ safeChar c = '_') ∨
      (isUnderscored c = false ∧ safeChar c = c) := by
    by_cases hline : c = '_'
    · exact .inl (by subst hline; decide)
    · by_cases halnum : c.isAlphanum = true <;> by_cases hdash : c = '-' <;>
        simp [isUnderscored, safeChar, isSafe, hline, halnum, hdash]
  unfold AlikeChar
  constructor
  · intro h
    rcases hclass c with ⟨hc, heq⟩ | ⟨hc, heq⟩ <;> rcases hclass c' with ⟨hc', heq'⟩ | ⟨hc', heq'⟩
    · exact .inr ⟨hc, hc'⟩
    · rw [heq, heq'] at h
      rw [← h] at hc'
      cases hc'
    · rw [heq, heq'] at h
      rw [h] at hc
      cases hc
    · exact .inl (by rw [← heq, ← heq', h])
  · rintro (rfl | ⟨hc, hc'⟩)
    · rfl
    · rcases hclass c with ⟨-, heq⟩ | ⟨hno, -⟩ <;> rcases hclass c' with ⟨-, heq'⟩ | ⟨hno', -⟩ <;>
        simp_all

theorem safeComponent_eq (raw : List Char) : safeComponent raw = (component raw).map safeChar := by
  unfold safeComponent component
  cases Text.stripWhere isSpace raw with
  | nil | cons c rest => rfl

theorem artifactName_eq :
    artifactName r = "step".toList ++ (Nat.toDigits 10 (max 0 r.step).toNat ++ '_' ::
      ((label r).map safeChar ++ ".json".toList)) := by
  unfold artifactName label
  rw [safeComponent_eq, safeComponent_eq, List.map_append, List.map_cons]
  simp [show safeChar '_' = '_' from rfl]

theorem takeWhile_step (n : Nat) (rest : List Char) :
    (Nat.toDigits 10 n ++ '_' :: rest).takeWhile Char.isDigit = Nat.toDigits 10 n := by
  rw [List.takeWhile_append_of_pos fun c hc =>
    Nat.isDigit_of_mem_toDigits (by omega) (le_refl 10) hc]
  simp [show Char.isDigit '_' = false from rfl]

theorem toDigits_inj {n m : Nat} (h : Nat.toDigits 10 n = Nat.toDigits 10 m) : n = m := by
  rw [← Nat.ofDigitChars_ten_toDigits (n := n), h, Nat.ofDigitChars_ten_toDigits]

/-- **Two outputs have one name exactly if they look alike.** -/
theorem artifactName_eq_iff {r r' : ToolResult} :
    artifactName r = artifactName r' ↔ Alike r r' := by
  have hlabels : (label r).map safeChar = (label r').map safeChar ↔
      List.Forall₂ AlikeChar (label r) (label r') := by
    rw [← List.forall₂_eq_eq_eq, List.forall₂_map_left_iff, List.forall₂_map_right_iff]
    simp only [safeChar_eq_iff]
  rw [artifactName_eq, artifactName_eq, List.append_right_inj]
  constructor
  · intro h
    have hdigits := congrArg (List.takeWhile Char.isDigit) h
    rw [takeWhile_step, takeWhile_step] at hdigits
    rw [hdigits, List.append_right_inj, List.cons_inj_right, List.append_left_inj] at h
    have hsteps := toDigits_inj hdigits
    exact ⟨by omega, hlabels.mp h⟩
  · intro ⟨hsteps, hlabel⟩
    rw [hsteps, hlabels.mpr hlabel]

/-! ### What is stored -/

variable {thresholdChars : Int} {files : Artifacts} {r : ToolResult} {results : List ToolResult}

theorem maybeOffload_files : (maybeOffload thresholdChars files r).2 =
    if writes thresholdChars r then Function.update files (artifactName r) (some r.artifact)
    else files := by
  unfold maybeOffload writes
  by_cases hshort : (r.contentJson.length : Int) < max 1 thresholdChars
  · have hlong : ¬ max 1 thresholdChars ≤ (r.contentJson.length : Int) := by omega
    simp only [if_pos hshort, decide_eq_false hlong, Bool.false_and, Bool.false_eq_true, if_false]
  · have hlong : max 1 thresholdChars ≤ (r.contentJson.length : Int) := by omega
    simp only [if_neg hshort, decide_eq_true hlong, Bool.true_and]
    cases r.fate <;> rfl

theorem maybeOffload_locator {locator : List Char}
    (h : locator ∈ (maybeOffload thresholdChars files r).1.artifactLocator) :
    writes thresholdChars r = true ∧ locator = locatorRoot ++ artifactName r := by
  unfold maybeOffload at h
  unfold writes
  by_cases hshort : (r.contentJson.length : Int) < max 1 thresholdChars
  · rw [if_pos hshort] at h
    cases h
  · have hlong : max 1 thresholdChars ≤ (r.contentJson.length : Int) := by omega
    simp only [if_neg hshort] at h
    simp only [decide_eq_true hlong, Bool.true_and]
    clear hlong hshort
    cases hfate : r.fate <;> simp_all

theorem denotes_locator (files : Artifacts) (r : ToolResult) :
    denotes files (locatorRoot ++ artifactName r) = files (artifactName r) := by
  simp [denotes, resolveLocator]

theorem offloadAll_frame {name : List Char}
    (h : ∀ r ∈ results.filter (writes thresholdChars), name ≠ artifactName r) :
    (offloadAll thresholdChars files results).2 name = files name := by
  induction results generalizing files with
  | nil => rfl
  | cons r rest ih =>
    show (offloadAll thresholdChars (maybeOffload thresholdChars files r).2 rest).2 name = _
    rw [ih fun r' hr' => h r' (by simp_all), maybeOffload_files]
    by_cases hwrites : writes thresholdChars r = true
    · rw [if_pos hwrites, Function.update_of_ne (h r (by simp [hwrites]))]
    · rw [if_neg hwrites]

theorem offloadAll_denotes (h : (results.filter (writes thresholdChars)).Pairwise fun r r' =>
      artifactName r ≠ artifactName r') :
    ∀ m ∈ (offloadAll thresholdChars files results).1, ∀ locator ∈ m.2.artifactLocator,
      denotes (offloadAll thresholdChars files results).2 locator = some m.1.artifact := by
  induction results generalizing files with
  | nil => simp [offloadAll]
  | cons r rest ih =>
    intro m hm locator hlocator
    have hrest : (rest.filter (writes thresholdChars)).Pairwise fun r r' =>
        artifactName r ≠ artifactName r' := by
      refine h.sublist ?_
      exact (List.sublist_cons_self r rest).filter _
    rcases List.mem_cons.mp hm with rfl | hm
    · obtain ⟨hwrites, rfl⟩ := maybeOffload_locator hlocator
      rw [List.filter_cons_of_pos hwrites, List.pairwise_cons] at h
      rw [denotes_locator]
      show (offloadAll thresholdChars (maybeOffload thresholdChars files r).2 rest).2 _ = _
      rw [offloadAll_frame h.1, maybeOffload_files, if_pos hwrites, Function.update_self]
    · exact ih hrest m hm locator hlocator

/-- **Outputs never alias exactly if no two of those that are written look alike.** -/
theorem neverAlias_iff (thresholdChars : Int) (files : Artifacts) (results : List ToolResult) :
    NeverAlias thresholdChars files results ↔
      (results.filter (writes thresholdChars)).Pairwise fun r r' => ¬ Alike r r' := by
  have hnames : (results.filter (writes thresholdChars)).Pairwise
      (fun r r' => artifactName r ≠ artifactName r') ↔
      (results.filter (writes thresholdChars)).Pairwise fun r r' => ¬ Alike r r' := by
    simp only [ne_eq, artifactName_eq_iff]
  exact ⟨fun h => hnames.mp h.1, fun h => ⟨hnames.mpr h, offloadAll_denotes (hnames.mpr h)⟩⟩

/-- Two calls of one step whose ids differ in a character only. -/
def dotted : List ToolResult :=
  [⟨"shell_run".toList, "call.1".toList, 0, "first".toList, .saved⟩,
    ⟨"shell_run".toList, "call_1".toList, 0, "second".toList, .saved⟩]

theorem dotted_alias : ¬ NeverAlias 1 (fun _ => none) dotted := by
  intro h
  have hnames : ¬ (dotted.filter (writes 1)).Pairwise
      fun r r' => artifactName r ≠ artifactName r' := by decide +kernel
  exact hnames h.1

end AlysisCode.Compaction.Offload
