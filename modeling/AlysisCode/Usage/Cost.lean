/-
What tokens cost.

A call's tokens are of seven classes, each with a rate of its own.  Where the arithmetic is exact
the cost is the sum over the classes, and there is none exactly when the rate of the input or of
the output is absent or one that is needed; a rate of zero for tokens whose cache lives for five
minutes or an hour is left out, since it is read as an absent one.
-/
import Mathlib.Algebra.BigOperators.Group.List.Basic
import Mathlib.Tactic.Ring
import AlysisCode.Usage.Build

namespace AlysisCode.Usage

variable {F : Type} [Arith F] {python : Python F} {value : F → ℚ}

/-- Arithmetic that does not round; `value` is the number that is meant. -/
structure Exact (python : Python F) (value : F → ℚ) : Prop where
  ofInt (n : Int) : value (Arith.ofInt n) = n
  add (x y : F) : value (Arith.add x y) = value x + value y
  mul (x y : F) : value (Arith.mul x y) = value x * value y
  isZero (x : F) : python.isZero x = true ↔ value x = 0

structure TokenClass (F : Type) where
  tokens : Int
  rate : Option F

def cacheClasses (caches : CacheCounts) (rates : Rates F) : List (TokenClass F) :=
  let creation5m := caches.cacheCreation5m.getD 0
  let creation1h := caches.cacheCreation1h.getD 0
  [⟨caches.cacheRead.getD 0, rates.cacheRead⟩,
    ⟨creation5m, rates.cacheCreation5m.or rates.cacheCreation⟩,
    ⟨creation1h, rates.cacheCreation1h.or rates.cacheCreation⟩,
    ⟨caches.cacheCreation.getD 0 - (creation5m + creation1h), rates.cacheCreation⟩]

def uncachedTokens (promptTokens : Int) (caches : CacheCounts) : Int :=
  caches.uncached.getD
    (max 0 (promptTokens - caches.cacheRead.getD 0 - caches.cacheCreation.getD 0))

def tokenClasses (promptTokens completionTokens : Int) (caches : CacheCounts)
    (reasoningTokens : Option Int) (rates : Rates F) : List (TokenClass F) :=
  let reasoning := reasoningTokens.getD 0
  ⟨uncachedTokens promptTokens caches, rates.input⟩ :: cacheClasses caches rates ++
    [⟨completionTokens - reasoning, rates.output⟩,
      ⟨reasoning, rates.reasoningOutput.or rates.output⟩]

def classesCost (value : F → ℚ) (classes : List (TokenClass F)) : ℚ :=
  (classes.map fun c => (c.tokens : ℚ) * (c.rate.map value).getD 0).sum

/-- Counts that fit together. -/
structure Consistent (promptTokens completionTokens : Int) (caches : CacheCounts)
    (reasoningTokens : Option Int) : Prop where
  read : 0 ≤ caches.cacheRead.getD 0
  creation5m : 0 ≤ caches.cacheCreation5m.getD 0
  creation1h : 0 ≤ caches.cacheCreation1h.getD 0
  creation : caches.cacheCreation5m.getD 0 + caches.cacheCreation1h.getD 0 ≤
    caches.cacheCreation.getD 0
  uncached : ∀ n ∈ caches.uncached, 0 ≤ n ∧
    n + caches.cacheRead.getD 0 + caches.cacheCreation.getD 0 = promptTokens
  reasoning : 0 ≤ reasoningTokens.getD 0 ∧ reasoningTokens.getD 0 ≤ completionTokens

def NoZeroRate (value : F → ℚ) (caches : CacheCounts) (rates : Rates F) : Prop :=
  (0 < caches.cacheCreation5m.getD 0 → ∀ x ∈ rates.cacheCreation5m, value x ≠ 0) ∧
    (0 < caches.cacheCreation1h.getD 0 → ∀ x ∈ rates.cacheCreation1h, value x ≠ 0)

/-! ### Adding up classes -/

def addClasses (classes : List (TokenClass F)) (cost : Option F) : Option F :=
  classes.foldl (fun cost c => addPriced c.tokens c.rate cost) cost

theorem addPriced_none (n : Int) (rate : Option F) : addPriced n rate none = none := by
  unfold addPriced
  split
  · rfl
  · cases rate <;> rfl

theorem addPriced_some (h : Exact python value) (n : Int) (rate : Option F) (x : F) :
    (addPriced n rate (some x) = none ↔ 0 < n ∧ rate = none) ∧
      ∀ y, addPriced n rate (some x) = some y → 0 ≤ n →
        value y = value x + n * (rate.map value).getD 0 := by
  unfold addPriced
  by_cases hn : n ≤ 0
  · rw [if_pos hn]
    refine ⟨by simp [Int.not_lt.mpr hn], fun y hy hpos => ?_⟩
    cases hy
    simp [show n = 0 by omega]
  · rw [if_neg hn]
    cases rate with
    | none => simpa using Int.not_le.mp hn
    | some r =>
      refine ⟨by simp, fun y hy _ => ?_⟩
      rw [← Option.some.inj hy, h.add, h.mul, h.ofInt]
      rfl

/-- **The cost of classes, on top of another.** -/
theorem addClasses_some (h : Exact python value) {classes : List (TokenClass F)}
    (hpos : ∀ c ∈ classes, 0 ≤ c.tokens) (x : F) :
    (addClasses classes (some x) = none ↔ ∃ c ∈ classes, 0 < c.tokens ∧ c.rate = none) ∧
      ∀ y, addClasses classes (some x) = some y →
        value y = value x + classesCost value classes := by
  induction classes generalizing x with
  | nil => simp [addClasses, classesCost]
  | cons c rest ih =>
    rw [List.forall_mem_cons] at hpos
    obtain ⟨hnone, hsome⟩ := addPriced_some h c.tokens c.rate x
    simp only [addClasses, List.foldl_cons] at ih ⊢
    cases hfirst : addPriced c.tokens c.rate (some x) with
    | none =>
      have hall (l : List (TokenClass F)) :
          l.foldl (fun cost c => addPriced c.tokens c.rate cost) none = none := by
        induction l with
        | nil => rfl
        | cons c l ih => rw [List.foldl_cons, addPriced_none, ih]
      simp [hall, hnone.mp hfirst]
    | some y =>
      have hthere : ¬(0 < c.tokens ∧ c.rate = none) := by simp [← hnone, hfirst]
      obtain ⟨hrest, hcost⟩ := ih hpos.2 y
      refine ⟨by simp [hrest, hthere], fun z hz => ?_⟩
      rw [hcost z hz, hsome y hfirst hpos.1]
      simp [classesCost, add_assoc]

theorem addPriced_rateOr (h : Exact python value) {n : Int} {own other : Option F}
    (hrate : 0 < n → ∀ x ∈ own, value x ≠ 0) (cost : Option F) :
    addPriced n (rateOr python own other) cost = addPriced n (own.or other) cost := by
  by_cases hn : n ≤ 0
  · simp [addPriced, hn]
  · cases own with
    | none => rfl
    | some x => simp [rateOr, ← Bool.not_eq_true, h.isZero, hrate (by omega) x rfl]

/-! ### The cost of a call -/

def withOutput (completionTokens : Int) (reasoningTokens : Option Int) (rates : Rates F)
    (outputRate cost : F) : F :=
  let reasoning := max 0 (reasoningTokens.getD 0)
  match rates.reasoningOutput with
  | some reasoningRate =>
    if 0 < reasoning then
      Arith.add (Arith.add cost (Arith.mul
        (Arith.ofInt (max 0 (max 0 completionTokens - reasoning))) outputRate))
          (Arith.mul (Arith.ofInt reasoning) reasoningRate)
    else Arith.add cost (Arith.mul (Arith.ofInt (max 0 completionTokens)) outputRate)
  | none => Arith.add cost (Arith.mul (Arith.ofInt (max 0 completionTokens)) outputRate)

variable {completionTokens : Int} {reasoningTokens : Option Int}

theorem value_withOutput (h : Exact python value) (rates : Rates F) (outputRate cost : F)
    (hcounts : 0 ≤ reasoningTokens.getD 0 ∧ reasoningTokens.getD 0 ≤ completionTokens) :
    value (withOutput completionTokens reasoningTokens rates outputRate cost) = value cost +
      ((completionTokens - reasoningTokens.getD 0 : Int) * value outputRate +
        (reasoningTokens.getD 0 : Int) *
          ((rates.reasoningOutput.or (some outputRate)).map value).getD 0) := by
  obtain ⟨hpos, hle⟩ := hcounts
  unfold withOutput
  generalize reasoningTokens.getD 0 = r at hpos hle ⊢
  dsimp only
  rw [max_eq_right hpos, max_eq_right (hpos.trans hle), max_eq_right (sub_nonneg.mpr hle)]
  split
  · rename_i rate hrate
    by_cases hr : 0 < r
    · simp only [if_pos hr, h.add, h.mul, h.ofInt, hrate, Option.some_or, Option.map_some,
        Option.getD_some]
      ring
    · obtain rfl : r = 0 := by omega
      simp [h.add, h.mul, h.ofInt]
  · rename_i hrate
    simp only [h.add, h.mul, h.ofInt, hrate, Option.none_or, Option.map_some, Option.getD_some]
    push_cast
    ring

theorem costUsd_eq (h : Exact python value) {promptTokens : Int} {caches : CacheCounts}
    {rates : Rates F} {inputRate outputRate : F}
    (hcounts : Consistent promptTokens completionTokens caches reasoningTokens)
    (hrates : NoZeroRate value caches rates) (hinput : rates.input = some inputRate)
    (houtput : rates.output = some outputRate) :
    (usageCostUsd python promptTokens completionTokens caches reasoningTokens rates).costUsd =
      (addClasses (cacheClasses caches rates) (some (Arith.add (Arith.ofInt 0) (Arith.mul
        (Arith.ofInt (uncachedTokens promptTokens caches)) inputRate)))).map
          (withOutput completionTokens reasoningTokens rates outputRate) := by
  obtain ⟨hread, h5m, h1h, hcreation, huncached, -⟩ := hcounts
  have hgeneric : (if max 0 (caches.cacheCreation.getD 0) = 0 then 0
      else max 0 (max 0 (caches.cacheCreation.getD 0) - (max 0 (caches.cacheCreation5m.getD 0) +
        max 0 (caches.cacheCreation1h.getD 0)))) = caches.cacheCreation.getD 0 -
          (caches.cacheCreation5m.getD 0 + caches.cacheCreation1h.getD 0) := by
    split <;> omega
  have hrest : max 0 (caches.uncached.getD (max 0 (promptTokens -
      max 0 (caches.cacheRead.getD 0) - max 0 (caches.cacheCreation.getD 0)))) =
        uncachedTokens promptTokens caches := by
    unfold uncachedTokens
    cases hun : caches.uncached with
    | none => simp only [Option.getD_none]; omega
    | some n => exact max_eq_right (huncached n hun).1
  unfold usageCostUsd
  rw [hinput, houtput]
  dsimp only
  rw [hgeneric, hrest, max_eq_right hread, max_eq_right h5m, max_eq_right h1h,
    addPriced_rateOr h hrates.1, addPriced_rateOr h hrates.2]
  split
  · next heq => exact (congrArg (Option.map _) heq).symm
  · next cost heq =>
    exact (congrArg (Option.map (withOutput completionTokens reasoningTokens rates outputRate))
      heq).symm

omit [Arith F] in
theorem cacheClasses_nonneg {promptTokens completionTokens : Int} {caches : CacheCounts}
    {reasoningTokens : Option Int}
    (h : Consistent promptTokens completionTokens caches reasoningTokens) (rates : Rates F) :
    ∀ c ∈ cacheClasses caches rates, 0 ≤ c.tokens := by
  have hcreation := h.creation
  simp only [cacheClasses, List.forall_mem_cons]
  exact ⟨h.read, h.creation5m, h.creation1h, by omega, fun _ hc => nomatch hc⟩

/-- **Every token is billed once, at the rate of its class**, and there is no cost exactly when
the rate of the input, of the output or of a class that has tokens is absent. -/
theorem usageCostUsd_classes (h : Exact python value) {promptTokens completionTokens : Int}
    {caches : CacheCounts} {reasoningTokens : Option Int} {rates : Rates F}
    (hcounts : Consistent promptTokens completionTokens caches reasoningTokens)
    (hrates : NoZeroRate value caches rates) :
    let classes := tokenClasses promptTokens completionTokens caches reasoningTokens rates
    let cost := (usageCostUsd python promptTokens completionTokens caches reasoningTokens
      rates).costUsd
    (cost = none ↔ rates.input = none ∨ rates.output = none ∨
      ∃ c ∈ classes, 0 < c.tokens ∧ c.rate = none) ∧
    (∀ x, cost = some x → value x = classesCost value classes) ∧
    ((caches.uncached = none →
        caches.cacheRead.getD 0 + caches.cacheCreation.getD 0 ≤ promptTokens) →
      (classes.map (·.tokens)).sum = promptTokens + completionTokens) := by
  intro classes cost
  refine and_assoc.mp ⟨?_, fun hprompt => ?_⟩
  · cases hinput : rates.input with
    | none => simp [cost, usageCostUsd, hinput]
    | some inputRate =>
      cases houtput : rates.output with
      | none => simp [cost, usageCostUsd, hinput, houtput]
      | some outputRate =>
        obtain ⟨hnone, hcost⟩ := addClasses_some h (cacheClasses_nonneg hcounts rates)
          (Arith.add (Arith.ofInt 0) (Arith.mul
            (Arith.ofInt (uncachedTokens promptTokens caches)) inputRate))
        simp only [cost, costUsd_eq h hcounts hrates hinput houtput, Option.map_eq_none_iff,
          hnone, Option.map_eq_some_iff]
        refine ⟨by simp [classes, tokenClasses, hinput, houtput, or_and_right, exists_or], ?_⟩
        rintro x ⟨y, hy, rfl⟩
        rw [value_withOutput h rates outputRate y hcounts.reasoning, hcost y hy]
        simp only [h.add, h.mul, h.ofInt, classes, tokenClasses, classesCost, hinput, houtput,
          List.map_cons, List.map_append, List.cons_append, List.sum_cons, List.sum_append,
          List.map_nil, List.sum_nil, Option.map_some, Option.getD_some]
        push_cast
        ring
  · have hun := hcounts.uncached
    simp only [classes, tokenClasses, cacheClasses, uncachedTokens, List.map_cons,
      List.map_nil, List.cons_append, List.nil_append, List.sum_cons, List.sum_nil]
    cases huncached : caches.uncached with
    | none =>
      have hle := hprompt huncached
      simp only [Option.getD_none]
      omega
    | some n =>
      have hsum := (hun n huncached).2
      simp only [Option.getD_some]
      omega

/-! ### Whole prices -/

/-- Prices that are whole numbers, written as floats are. -/
instance : Json.Floats ℤ where
  isFinite _ := true
  repr n := String.ofList (Json.intText n ++ ['.', '0'])
  ofText t :=
    match Json.scanNumber (F := Unit) t.toList.dropLast.dropLast with
    | some (.int n, _) => n
    | _ => 0
  repr_text n _ := by
    rw [String.toList_ofList]
    have hzero : Json.IsFraction ['.', '0'] := Or.inr ⟨['0'], rfl, by simp, by simp⟩
    cases n with
    | ofNat n =>
      exact ⟨[], _, _, [], by simp [Json.intText],
        Json.isInteger_of_nat (.inl rfl) n, hzero, .inl rfl, by simp⟩
    | negSucc n =>
      exact ⟨['-'], _, _, [], by simp [Json.intText],
        Json.isInteger_of_nat (.inr rfl) (n + 1), hzero, .inl rfl, by simp⟩
  repr_special _ h := by cases h
  ofText_repr n := by
    have hscan := Json.scanNumber_int (F := Unit) n (t := []) (fun _ hc => nomatch hc)
    rw [List.append_nil] at hscan
    simp [List.dropLast_append_of_ne_nil, hscan]

instance : Arith ℤ where
  ofInt n := n
  add := (· + ·)
  sub := (· - ·)
  mul := (· * ·)
  div := (· / ·)
  abs n := n.natAbs
  lt m n := decide (m < n)
  le m n := decide (m ≤ n)
  ceil n := n

def wholePrices : Python ℤ := { str := fun _ => "", isZero := fun n => n == 0 }

theorem exact_wholePrices : Exact wholePrices (fun n : ℤ => (n : ℚ)) where
  ofInt _ := rfl
  add := Int.cast_add
  mul := Int.cast_mul
  isZero n := by simp [wholePrices]

/-- Three tokens from the cache, two for the cache, and one of three in reasoning. -/
def sixTokens : CacheCounts := ⟨some 3, some 2, some 2, none, some 1, false⟩

def sixRates : Rates ℤ := ⟨some 5, some 7, some 1, none, some 6, none, some 9⟩

theorem usageCostUsd_classes_sixTokens :
    (usageCostUsd wholePrices 6 3 sixTokens (some 1) sixRates).costUsd ≠ none ∧
      ∀ x, (usageCostUsd wholePrices 6 3 sixTokens (some 1) sixRates).costUsd = some x →
        (x : ℚ) = 5 + 3 + 12 + 14 + 9 := by
  have hcounts : Consistent 6 3 sixTokens (some 1) := by
    constructor <;> simp [sixTokens]
  have hrates : NoZeroRate (fun n : ℤ => (n : ℚ)) sixTokens sixRates := by
    constructor <;> simp [sixTokens, sixRates]
  obtain ⟨hnone, hcost, -⟩ := usageCostUsd_classes exact_wholePrices hcounts hrates
  refine ⟨fun hc => ?_, fun x hx => (hcost x hx).trans ?_⟩
  · simpa [sixRates, tokenClasses, cacheClasses, sixTokens, uncachedTokens] using hnone.mp hc
  · norm_num [classesCost, tokenClasses, cacheClasses, sixTokens, uncachedTokens, sixRates]

/-- No output and no rate for it: there is no cost, though all there is has a rate. -/
theorem usageCostUsd_unpriced :
    ¬∀ (promptTokens completionTokens : Int) (caches : CacheCounts) (rates : Rates ℤ),
      Consistent promptTokens completionTokens caches none →
      ((usageCostUsd wholePrices promptTokens completionTokens caches none rates).costUsd = none ↔
        ∃ c ∈ tokenClasses promptTokens completionTokens caches none rates,
          0 < c.tokens ∧ c.rate = none) := by
  intro hall
  have h := (hall 1 0 ⟨none, none, none, none, some 1, false⟩
    ⟨some 5, none, none, none, none, none, none⟩ (by constructor <;> simp)).mp rfl
  simp [tokenClasses, cacheClasses, uncachedTokens] at h

end AlysisCode.Usage
