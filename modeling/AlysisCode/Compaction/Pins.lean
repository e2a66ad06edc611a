/-
Pins: what is kept of a turn when the turn itself is removed.

A pin is written without its score, so a restored one counts as scored zero.  The pins that
are kept are different, few and short enough, and such pins are restored as they were written.
-/
import AlysisCode.Compaction.Basic
import AlysisCode.Library.Collect
import AlysisCode.Library.JsonText

namespace AlysisCode.Compaction

/-- `pin["source"]` -/
structure Source where
  historyPath : String
  idxRange : Nat × Nat

/-- A pin as `_public_pin` shows it. -/
structure PublicPin where
  kind : String
  text : String
  reasons : List String
  source : Source

structure Pin (S : Type) extends PublicPin where
  score : Option S

variable {F S : Type}

def publicPin (pin : Pin S) : PublicPin where
  kind := if pin.kind = "" then "context" else pin.kind
  text := pin.text
  reasons := pin.reasons.filter fun reason => strip reason ≠ ""
  source := pin.source

/-- `dict(pin)`, of a pin that was read. -/
def restoredPin (pin : PublicPin) : Pin S := { pin with score := none }

/-! ### The pins of a chunk -/

/-- `part in text` -/
def contains (text : List Char) (part : String) : Bool := text.tails.any part.toList.isPrefixOf

def pinKind (turn : ScoredTurn S) : String :=
  let reasons := turn.reasons.map folded
  let preview := folded turn.userPreview
  if "errors_or_failures".toList ∈ reasons then "error"
  else if "requirements_or_constraints".toList ∈ reasons ∨ "acceptance_criteria".toList ∈ reasons ∨
      contains preview "must" ∨ contains preview "do not" ∨ contains preview "never" then
    "constraint"
  else if "shell_or_git_commands".toList ∈ reasons ∨ "verification_commands".toList ∈ reasons then
    "command"
  else if "requirements_or_constraints".toList ∈ reasons then "requirement"
  else "context"

def extractPinsForChunk [LinearOrder S] (settings : Settings S) (historyPath : String)
    (scoredTurns : List (ScoredTurn S)) : List (Pin S) :=
  scoredTurns.filterMap fun turn =>
    let snippet := trimSnippet turn.userPreview settings.pinSnippetChars
    if turn.score < settings.pinScoreThreshold then none
    else if snippet = "" then none
    else
      some
        { kind := pinKind turn
          text := snippet
          reasons := turn.reasons
          score := some turn.score
          source :=
            { historyPath := historyPath
              idxRange := (turn.start, max turn.start (turn.stop - 1)) } }

/-! ### Bounding the pins -/

def normalizePinText (text : String) : List Char := Text.casefold (collapse (strip text).toList)

/-- `json.dumps(…, ensure_ascii=False, separators=(",", ":"))` -/
def compactStyle : Json.Style where
  ascii := false
  spaced := false
  sortKeys := false

def PublicPin.toJson (pin : PublicPin) : Json F :=
  .obj [("kind", .str pin.kind), ("text", .str pin.text),
    ("reasons", .arr (pin.reasons.map .str)),
    ("source", .obj [("history_path", .str pin.source.historyPath),
      ("idx_range", .arr [.int pin.source.idxRange.1, .int pin.source.idxRange.2])])]

/-- `{"pins": [self._public_pin(pin) for pin in pins]}` -/
def pinsPayload (pins : List (Pin S)) : Json F :=
  .obj [("pins", .arr (pins.map fun pin => (publicPin pin).toJson))]

/-- `float(pin.get("score") or 0.0)` -/
def scoreOf [Zero S] (pin : Pin S) : S := pin.score.getD 0

def pinKey (pin : Pin S) : List Char := normalizePinText pin.text

section Bounded

variable (F) [Json.Floats F]

/-- The length of the pins as they are shown. -/
def pinsSize (pins : List (Pin S)) : Nat :=
  (Json.dumps compactStyle (pinsPayload pins : Json F)).length

/-- The last of the first `n` pins is dropped until the others are short enough. -/
def fitPins (maxChars : Nat) (pins : List (Pin S)) : Nat → List (Pin S)
  | 0 => []
  | n + 1 =>
    if pinsSize F (pins.take (n + 1)) ≤ maxChars then pins.take (n + 1)
    else fitPins maxChars pins n

def boundedPins [LinearOrder S] [Zero S] (settings : Settings S) (pins : List (Pin S)) : List (Pin S) :=
  let byText := Collect.best (fun next existing => scoreOf existing < scoreOf next) pinKey
    (pins.filter fun pin => pinKey pin ≠ [])
  let ordered := byText.insertionSort fun a b => scoreOf b ≤ scoreOf a
  let ordered := ordered.take settings.maxPins
  fitPins F settings.maxPinsChars ordered ordered.length

/-! ### Bounded pins are restored as they are -/

/-- The pins are as `boundedPins` leaves them. -/
structure Bounded (settings : Settings S) (pins : List (Pin S)) : Prop where
  nonempty : ∀ pin ∈ pins, pinKey pin ≠ []
  distinct : (pins.map pinKey).Nodup
  few : pins.length ≤ settings.maxPins
  short : pins ≠ [] → pinsSize F pins ≤ settings.maxPinsChars

variable {F} {settings : Settings S} {pins : List (Pin S)}

theorem fitPins_eq_take (maxChars : Nat) (pins : List (Pin S)) (n : Nat) :
    ∃ m, fitPins F maxChars pins n = pins.take m := by
  induction n with
  | zero => exact ⟨0, rfl⟩
  | succ n ih =>
    rw [fitPins]
    by_cases hsize : pinsSize F (pins.take (n + 1)) ≤ maxChars
    · rw [if_pos hsize]
      exact ⟨n + 1, rfl⟩
    · rw [if_neg hsize]
      exact ih

theorem fitPins_short {maxChars n : Nat} (h : fitPins F maxChars pins n ≠ []) :
    pinsSize F (fitPins F maxChars pins n) ≤ maxChars := by
  induction n with
  | zero => exact absurd rfl h
  | succ n ih =>
    rw [fitPins] at h ⊢
    by_cases hsize : pinsSize F (pins.take (n + 1)) ≤ maxChars
    · rw [if_pos hsize]
      exact hsize
    · rw [if_neg hsize] at h ⊢
      exact ih h

theorem bounded_boundedPins [LinearOrder S] [Zero S] (settings : Settings S) (pins : List (Pin S)) :
    Bounded F settings (boundedPins F settings pins) := by
  unfold boundedPins
  dsimp only
  generalize hbest : Collect.best (fun next existing => decide (scoreOf existing < scoreOf next))
    pinKey (pins.filter fun pin => pinKey pin ≠ []) = byText
  have hperm := List.perm_insertionSort (fun a b : Pin S => scoreOf b ≤ scoreOf a) byText
  generalize byText.insertionSort (fun a b => scoreOf b ≤ scoreOf a) = sorted at hperm
  obtain ⟨m, hm⟩ := fitPins_eq_take (F := F) settings.maxPinsChars (sorted.take settings.maxPins)
    (sorted.take settings.maxPins).length
  have hsub : ((sorted.take settings.maxPins).take m).Sublist sorted :=
    (List.take_sublist _ _).trans (List.take_sublist _ _)
  exact
    { nonempty := by
        intro pin hpin
        rw [hm] at hpin
        have hmem : pin ∈ byText := hperm.mem_iff.mp (hsub.subset hpin)
        rw [← hbest] at hmem
        simpa using (List.mem_filter.mp (Collect.mem_best hmem)).2
      distinct := by
        have hnodup : (byText.map pinKey).Nodup := hbest ▸ Collect.nodup_best _
        rw [hm]
        exact ((hperm.map pinKey).nodup_iff.mpr hnodup).sublist (hsub.map pinKey)
      few := by
        rw [hm]
        exact (List.length_take_le' _ _).trans (List.length_take_le _ _)
      short := fitPins_short }

theorem bounded_nil (settings : Settings S) : Bounded F settings ([] : List (Pin S)) :=
  ⟨by simp, List.nodup_nil, Nat.zero_le _, fun h => absurd rfl h⟩

omit [Json.Floats F] in
theorem publicPin_restored (pin : Pin S) :
    publicPin (restoredPin (publicPin pin) : Pin S) = publicPin pin := by
  have hkind : (publicPin pin).kind ≠ "" := by
    show (if pin.kind = "" then "context" else pin.kind) ≠ ""
    by_cases h : pin.kind = ""
    · rw [if_pos h]
      decide
    · rw [if_neg h]
      exact h
  have hreasons : ((publicPin pin).reasons.filter fun reason => strip reason ≠ "") =
      (publicPin pin).reasons :=
    List.filter_eq_self.mpr fun reason h => (List.mem_filter.mp h).2
  show PublicPin.mk (if (publicPin pin).kind = "" then "context" else (publicPin pin).kind)
    (publicPin pin).text ((publicPin pin).reasons.filter fun reason => strip reason ≠ "")
    (publicPin pin).source = _
  rw [if_neg hkind, hreasons]

omit [Json.Floats F] in
theorem pinsPayload_restored (pins : List (Pin S)) :
    (pinsPayload (pins.map fun pin => (restoredPin (publicPin pin) : Pin S)) : Json F) =
      pinsPayload pins := by
  have hshown : ((pins.map fun pin => (restoredPin (publicPin pin) : Pin S)).map
      fun pin => ((publicPin pin).toJson : Json F)) =
        pins.map fun pin => (publicPin pin).toJson := by
    rw [List.map_map]
    exact List.map_congr_left fun pin _ => congrArg PublicPin.toJson (publicPin_restored pin)
  rw [pinsPayload, hshown]
  rfl

omit [Json.Floats F] in
theorem pinKey_restored (pin : Pin S) :
    pinKey (restoredPin (publicPin pin) : Pin S) = pinKey pin := by
  have htext : (restoredPin (publicPin pin) : Pin S).text = pin.text := rfl
  unfold pinKey
  rw [htext]

theorem pinsSize_restored (pins : List (Pin S)) :
    pinsSize F (pins.map fun pin => (restoredPin (publicPin pin) : Pin S)) = pinsSize F pins := by
  unfold pinsSize
  rw [pinsPayload_restored]

/-- **Bounded pins are restored as they are.** -/
theorem Bounded.restore_eq [LinearOrder S] [Zero S] (h : Bounded F settings pins) :
    boundedPins F settings (pins.map fun pin => restoredPin (publicPin pin)) =
      pins.map fun pin => restoredPin (publicPin pin) := by
  have hsize : pinsSize F (pins.map fun pin => (restoredPin (publicPin pin) : Pin S)) =
      pinsSize F pins := pinsSize_restored pins
  have hkeys : (pins.map fun pin => (restoredPin (publicPin pin) : Pin S)).map pinKey =
      pins.map pinKey := by
    simp only [List.map_map, Function.comp_def, pinKey_restored]
  have hlength : (pins.map fun pin => (restoredPin (publicPin pin) : Pin S)).length =
      pins.length := List.length_map _
  have hempty : (pins.map fun pin => (restoredPin (publicPin pin) : Pin S)) ≠ [] → pins ≠ [] := by
    intro hne hnil
    exact hne (by rw [hnil]; rfl)
  have hkey : ∀ pin ∈ (pins.map fun pin => (restoredPin (publicPin pin) : Pin S)),
      pinKey pin ≠ [] := by
    intro pin hpin
    obtain ⟨pin', hpin', rfl⟩ := List.mem_map.mp hpin
    rw [pinKey_restored]
    exact h.nonempty pin' hpin'
  have hscore : ∀ pin ∈ (pins.map fun pin => (restoredPin (publicPin pin) : Pin S)),
      scoreOf pin = 0 := by
    intro pin hpin
    obtain ⟨pin', -, rfl⟩ := List.mem_map.mp hpin
    rfl
  generalize (pins.map fun pin => (restoredPin (publicPin pin) : Pin S)) = restored at *
  have hfilter : restored.filter (fun pin => pinKey pin ≠ []) = restored :=
    List.filter_eq_self.mpr fun pin hpin => by simpa using hkey pin hpin
  have hsorted : restored.insertionSort (fun a b => scoreOf b ≤ scoreOf a) = restored := by
    refine List.Pairwise.insertionSort_eq ?_
    refine List.pairwise_of_forall_mem_list fun a ha b hb => ?_
    rw [hscore a ha, hscore b hb]
  have hfew : restored.take settings.maxPins = restored :=
    List.take_of_length_le (hlength ▸ h.few)
  have hfit : fitPins F settings.maxPinsChars restored restored.length = restored := by
    cases hn : restored.length with
    | zero =>
      rw [fitPins]
      exact (List.length_eq_zero_iff.mp hn).symm
    | succ n =>
      have hne : restored ≠ [] := fun hnil => by rw [hnil] at hn; cases hn
      have htake : restored.take (n + 1) = restored := List.take_of_length_le hn.le
      rw [fitPins, htake, if_pos (hsize ▸ h.short (hempty hne))]
  unfold boundedPins
  dsimp only
  rw [hfilter, Collect.best_eq (hkeys ▸ h.distinct), hsorted, hfew, hfit]

end Bounded

end AlysisCode.Compaction
