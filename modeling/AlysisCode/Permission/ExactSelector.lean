/-
Selectors that are ranked as exact.

The ranking knows two wildcards, `*` and `?`.  The matcher knows a third, the class in brackets,
so a selector without the two is exact only if no bracket in it is closed; if one is, the
selector does not even match the text it was made from.
-/
import AlysisCode.Library.GlobClass
import AlysisCode.Permission.Evaluate
import AlysisCode.Permission.Normalize

namespace AlysisCode.Permission

open Glob Runs Text

/-! ### Wildcards of a normalised text -/

theorem isWild_foldTargets : ∀ n ∈ foldTargets, isWild (Char.ofNat n) = false := by
  have hall : foldTargets.all (fun n => !isWild (Char.ofNat n)) = true := by decide +kernel
  intro n hn
  simpa using List.all_eq_true.mp hall n hn

variable {rule : PermissionRule} {t : List Char} {p : String}

theorem mem_replaceNewlines {d : Char} (h : d ∈ replaceNewlines t) : d = '\n' ∨ d ∈ t := by
  induction t using replaceNewlines.induct with
  | case1 rest ih =>
    rw [replaceNewlines, List.mem_cons] at h
    rcases h with h | h
    · exact .inl h
    · exact (ih h).imp_right fun hd => List.mem_cons_of_mem _ (List.mem_cons_of_mem _ hd)
  | case2 rest hnext ih =>
    rw [replaceNewlines.eq_2 _ hnext, List.mem_cons] at h
    rcases h with h | h
    · exact .inl h
    · exact (ih h).imp_right (List.mem_cons_of_mem _)
  | case3 c rest h1 h2 ih =>
    rw [replaceNewlines.eq_3 _ _ h1 h2, List.mem_cons] at h
    rcases h with rfl | h
    · exact .inr List.mem_cons_self
    · exact (ih h).imp_right (List.mem_cons_of_mem _)
  | case4 => cases h

theorem not_wild_normalizeCommandText (h : t.any isWild = false) :
    (normalizeCommandText t).any isWild = false := by
  rw [List.any_eq_false] at h ⊢
  intro d hd
  rcases mem_commandTextFrom hd with rfl | hd
  · decide
  · rcases mem_replaceNewlines hd with rfl | hd
    · decide
    · exact h d hd

theorem not_wild_commandPatternFor {windows : Bool} (h : p.toList.any isWildcard = false) :
    (commandPatternFor windows p).any isWild = false := by
  have hnormal := not_wild_normalizeCommandText h
  unfold commandPatternFor
  split
  · rw [List.any_eq_false] at hnormal ⊢
    intro d hd
    obtain ⟨c, hc, hmem⟩ := List.mem_flatMap.mp hd
    rw [casefoldChar_avoids isWild_foldTargets (by simpa using hnormal c hc) hmem]
    exact Bool.false_ne_true
  · exact hnormal

/-! ### Rules with one selector -/

/-- The rule selects tools by a pattern, and nothing else. -/
def OnlyTool (rule : PermissionRule) (p : String) : Prop :=
  rule.toolPattern = some p ∧ rule.pathPattern = none ∧ rule.commandPattern = none

def OnlyCommand (rule : PermissionRule) (p : String) : Prop :=
  rule.commandPattern = some p ∧ rule.pathPattern = none ∧ rule.toolPattern = none

section

variable {rule : PermissionRule} {p : String}

theorem ruleMatches_tool (h : OnlyTool rule p) (request : NormalizedRequest) :
    ruleMatches rule request = fnmatchcase request.toolName p.toList := by
  unfold ruleMatches
  rw [h.1, h.2.1, h.2.2]
  simp

theorem ruleMatches_command (h : OnlyCommand rule p) (request : NormalizedRequest) :
    ruleMatches rule request = request.command.any fun command =>
        fnmatchcase command (commandPatternFor request.windows p) := by
  unfold ruleMatches
  rw [h.1, h.2.1, h.2.2]
  cases request.command with
  | none => rfl
  | some command => simp

theorem exact_iff_not_hasClass {q : List Char} (hwild : q.any isWild = false) :
    (∀ t, fnmatchcase t q = true ↔ t = q) ↔ ¬HasClass q := by
  constructor
  · intro h hclass
    have hself := (h q).mpr rfl
    rw [fnmatchcase_self_of_class hclass hwild] at hself
    cases hself
  · exact fun h t => fnmatchcase_iff_eq h hwild

end

def asking (toolName : List Char) (command : Option (List Char)) (windows : Bool) :
    NormalizedRequest where
  toolName := toolName
  paths := []
  command := command
  windows := windows
  sensitive := false
  externalDirectory := false

theorem toolSelector_exact_iff (hrule : OnlyTool rule p) (hexact : p.toList.any isWildcard = false) :
    (∀ request : NormalizedRequest,
      ruleMatches rule request = true ↔ request.toolName = p.toList) ↔ ¬HasClass p.toList := by
  rw [← exact_iff_not_hasClass hexact]
  constructor
  · intro h t
    have hrequest := h (asking t none false)
    rwa [ruleMatches_tool hrule] at hrequest
  · intro h request
    rw [ruleMatches_tool hrule]
    exact h request.toolName

theorem commandSelector_exact_iff (hrule : OnlyCommand rule p)
    (hexact : p.toList.any isWildcard = false) (windows : Bool) :
    (∀ request : NormalizedRequest, request.windows = windows → (ruleMatches rule request = true ↔
        request.command = some (commandPatternFor windows p))) ↔
      ¬HasClass (commandPatternFor windows p) := by
  rw [← exact_iff_not_hasClass (not_wild_commandPatternFor hexact)]
  constructor
  · intro h t
    have hrequest := h (asking [] (some t) windows) rfl
    rw [ruleMatches_command hrule] at hrequest
    simpa [asking] using hrequest
  · rintro h request rfl
    rw [ruleMatches_command hrule]
    cases hcommand : request.command with
    | none => simp
    | some command => simpa using h command

/-! ### A request's own command -/

theorem command_normalizeRequest {host : Host} {request : PermissionRequest}
    {normalized : NormalizedRequest} (h : normalizeRequest host request = .ok normalized)
    {text : String} (htext : request.command = some text)
    (hp : p.toList = normalizeCommandText text.toList) :
    normalized.command = some (commandPatternFor normalized.windows p) := by
  obtain ⟨toolName, -, h⟩ := bind_eq_ok.mp h
  obtain ⟨places, -, h⟩ := bind_eq_ok.mp h
  cases h
  unfold commandPatternFor
  rw [htext, hp, normalizeCommandText_idem]
  split <;> rfl

/-- **A selector that is ranked as exact is exact if and only if it has no class, and one made
from a request's own command matches the request if and only if it has none.** -/
theorem exactSelector_iff (p : String) (hexact : p.toList.any isWildcard = false) :
    (∀ rule, OnlyTool rule p → ((∀ request : NormalizedRequest,
        ruleMatches rule request = true ↔ request.toolName = p.toList) ↔ ¬HasClass p.toList)) ∧
    (∀ rule, OnlyCommand rule p → ∀ windows,
      ((∀ request : NormalizedRequest, request.windows = windows →
        (ruleMatches rule request = true ↔ request.command = some (commandPatternFor windows p))) ↔
        ¬HasClass (commandPatternFor windows p))) ∧
    ∀ rule, OnlyCommand rule p → ∀ host request normalized text,
      normalizeRequest host request = .ok normalized → request.command = some text →
      p.toList = normalizeCommandText text.toList →
      (ruleMatches rule normalized = true ↔
        ¬HasClass (commandPatternFor normalized.windows p)) := by
  refine ⟨fun rule hrule => toolSelector_exact_iff hrule hexact,
    fun rule hrule => commandSelector_exact_iff hrule hexact, ?_⟩
  intro rule hrule host request normalized text hnormalized htext hp
  rw [ruleMatches_command hrule, command_normalizeRequest hnormalized htext hp, Option.any_some]
  constructor
  · intro hmatch hclass
    rw [fnmatchcase_self_of_class hclass (not_wild_commandPatternFor hexact)] at hmatch
    cases hmatch
  · exact fnmatchcase_self

def commandRule (command : String) : PermissionRule where
  id := "pr_0"
  effect := .allow
  order := 0
  source := "user"
  commandPattern := some command

theorem not_hasClass_of_not_mem {p : List Char} (h : '[' ∉ p) : ¬HasClass p := by
  rintro ⟨before, after, rfl, -⟩
  exact h (by simp)

/-- `make test` is exact. -/
theorem exactSelector_iff_make : ruleMatches (commandRule "make test")
      (asking "shell".toList (some "make test".toList) false) = true := by
  obtain ⟨-, hcommand, -⟩ := exactSelector_iff "make test" (by decide +kernel)
  have hexact := (hcommand (commandRule "make test") ⟨rfl, rfl, rfl⟩ false).mpr
    (not_hasClass_of_not_mem (by decide +kernel))
  exact (hexact (asking "shell".toList (some "make test".toList) false) rfl).mpr (by decide +kernel)

/-- The rule for `ls [a]` does not match the request to run it. -/
theorem exactSelector_class : ¬∀ (p : String) (rule : PermissionRule) (request : NormalizedRequest),
      p.toList.any isWildcard = false → OnlyCommand rule p →
      (ruleMatches rule request = true ↔
        request.command = some (commandPatternFor request.windows p)) := by
  intro h
  have hmatch := (h "ls [a]" (commandRule "ls [a]")
    (asking "shell".toList (some "ls [a]".toList) false) (by decide +kernel)
    ⟨rfl, rfl, rfl⟩).mpr (by decide +kernel)
  revert hmatch
  decide +kernel

end AlysisCode.Permission
