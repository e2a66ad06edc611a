/-
Every record that the builder makes is sound, and its payload is a dict.
-/
import AlysisCode.Usage.ReadBack

namespace AlysisCode.Usage

variable {F : Type} {host : Host F}

/-! ### Counts and texts -/

theorem isCount_none : IsCount none := fun _ h => by cases h

theorem isCount_some {n : Int} (h : 0 ≤ n) : IsCount (some n) := fun m hm => by
  rwa [← Option.some.inj hm]

theorem isCount_safeCount (value : Option Int) : IsCount (safeCount value) := by
  intro n hn
  unfold safeCount at hn
  split at hn
  · split at hn
    · cases hn
    · cases hn
      omega
  · cases hn

variable {value : Option Int} {key : String} {other : Option Int}

theorem IsCount.or (h : IsCount value) (h' : IsCount other) : IsCount (value.or other) := by
  cases value with
  | none => exact h'
  | some n => exact h

theorem IsCount.ite {p : Prop} [Decidable p] (h : IsCount value) (h' : IsCount other) :
    IsCount (if p then value else other) := by
  split
  · exact h
  · exact h'

theorem IsCount.getD (h : IsCount value) : 0 ≤ value.getD 0 := by
  cases value with
  | none => exact Int.le_refl _
  | some n => exact h n rfl

theorem safeText_stripped {s t : String} (h : stripped s = some t) :
    safeText (some t) = some t := by
  unfold stripped at h
  split at h
  · cases h
  · rename_i hne
    cases h
    show stripped (strip s) = some (strip s)
    unfold stripped
    rw [strip_strip, if_neg hne]

theorem safeText_safeText (value : Option String) : safeText (safeText value) = safeText value := by
  cases value with
  | none => rfl
  | some s =>
    cases hs : stripped s with
    | none =>
      have hone : safeText (some s) = none := hs
      rw [hone]
      rfl
    | some t =>
      have hone : safeText (some s) = some t := hs
      rw [hone]
      exact safeText_stripped hs

theorem label_of_lookup {payload : Members F} (hkey : key ∈ planLabels) {v : Json F}
    (h : (planMembers host payload).lookup key = some v) :
    ∃ s, v = .str s ∧ safeText (some s) = some s := by
  obtain ⟨before, after, hmembers, -⟩ := List.lookup_eq_some_iff.mp h
  have hmem : (key, v) ∈ planMembers host payload := by rw [hmembers]; simp
  have hapart : key ∉ planFlags ∧ key ∉ planCounts := by
    have hnodup := nodup_planKeys
    rw [List.nodup_append', List.nodup_append'] at hnodup
    exact ⟨fun hflag => hnodup.1.2.2 hkey hflag,
      fun hcount => hnodup.2.2 (List.mem_append_left _ hkey) hcount⟩
  unfold planMembers at hmem
  simp only [List.mem_append, List.mem_filterMap, Option.map_eq_some_iff, Prod.mk.injEq] at hmem
  obtain (⟨_, -, s, hs, rfl, rfl⟩ | ⟨_, hflag, _, -, rfl, -⟩) | ⟨_, hcount, _, -, rfl, -⟩ := hmem
  · refine ⟨s, rfl, safeText_stripped (s := host.python.text
      (host.python.orElse (Json.get payload _) (.str ""))) hs⟩
  · exact absurd hflag hapart.1
  · exact absurd hcount hapart.2

theorem safeText_planText (payload : Option (Members F)) (hkey : key ∈ planLabels) :
    safeText (planText host.python (safeRequestPlan host payload) key) =
      planText host.python (safeRequestPlan host payload) key := by
  unfold planText safeRequestPlan
  cases payload with
  | none => rfl
  | some payload =>
    dsimp only [Option.bind_some]
    split
    · rfl
    dsimp only [Option.bind_some]
    split
    · unfold Json.get
      cases hlookup : (planMembers host payload).lookup key with
      | none =>
        rename_i htruthy
        unfold Json.get at htruthy
        rw [hlookup] at htruthy
        cases htruthy
      | some v =>
        obtain ⟨s, rfl, hs⟩ := label_of_lookup hkey hlookup
        exact hs
    · rfl

theorem distinct_safeRequestPlan (payload : Option (Members F)) :
    ∀ plan ∈ safeRequestPlan host payload, (Json.obj plan).Distinct := by
  intro plan hplan
  obtain ⟨members, -, hplan⟩ := Option.bind_eq_some_iff.mp hplan
  split at hplan
  · cases hplan
  · rw [← Option.some.inj hplan]
    exact distinct_planMembers host members

/-! ### Estimates -/

theorem sound_entry (python : Python F) (tool : Members F) {fallback : String}
    (hstrip : strip fallback = fallback) (hne : fallback ≠ "") :
    strip (toolName python tool fallback) = toolName python tool fallback ∧
      toolName python tool fallback ≠ "" := by
  have hor {name rest : String} (hname : strip name = name)
      (hrest : strip rest = rest ∧ rest ≠ "") :
      strip (if name ≠ "" then name else rest) = (if name ≠ "" then name else rest) ∧
        (if name ≠ "" then name else rest) ≠ "" := by
    split
    · rename_i hne
      exact ⟨hname, hne⟩
    · exact hrest
  have hlabel (value : Json F) : strip (label python value) = label python value :=
    strip_strip _
  unfold toolName
  refine hor ?_ (hor (hlabel _) ⟨hstrip, hne⟩)
  split
  · exact hlabel _
  · rfl

theorem strip_fallback (n : Nat) : strip ("tool_" ++ toString n) = "tool_" ++ toString n := by
  apply strip_of_none
  intro c hc
  rw [String.toList_append] at hc
  obtain hc | hc := List.mem_append.mp hc
  · have hall : ∀ c ∈ "tool_".toList, isSpace c = false := by decide +kernel
    exact hall c hc
  · have hdigits : (toString n).toList = Nat.toDigits 10 n := Nat.toList_repr
    rw [hdigits] at hc
    have hdigit := Nat.isDigit_of_mem_toDigits (by omega) (le_refl 10) hc
    rw [Char.isDigit, Bool.and_eq_true, decide_eq_true_eq, decide_eq_true_eq] at hdigit
    have hlow : 48 ≤ c.toNat := hdigit.1
    have hhigh : c.toNat ≤ 57 := hdigit.2
    unfold isSpace
    simp only [Bool.or_eq_false_iff, Bool.and_eq_false_iff, decide_eq_false_iff_not,
      beq_eq_false_iff_ne]
    omega

section Estimates

variable [Json.Floats F]

theorem sound_report (host : Host F) (toolList : Option (List (Members F))) :
    (analyzeToolSchemaBudget host toolList).Sound where
  toolCount := Int.natCast_nonneg _
  totalTokens := Int.natCast_nonneg _
  budgetTokens := Int.natCast_nonneg _
  overBudgetTokens := Int.natCast_nonneg _
  largestTools := by
    intro entry hmem
    have hentry := List.mem_mergeSort.mp (List.mem_of_mem_take hmem)
    unfold budgetEntries at hentry
    obtain ⟨i, hi, rfl⟩ := List.mem_mapIdx.mp hentry
    obtain ⟨hstrip, hne⟩ := sound_entry host.python ((toolList.getD [])[i])
      (strip_fallback (i + 1)) (by simp)
    exact ⟨hstrip, hne, Int.natCast_nonneg _⟩

theorem sound_estimate (host : Host F) (messages : List (Members F))
    (toolList : Option (List (Members F))) (pinnedPrefixLen : Int) :
    (estimateRequestTokenBreakdown host messages toolList pinnedPrefixLen).Sound where
  bootstrapPromptTokens := Int.natCast_nonneg _
  toolSchemaTokens := Int.natCast_nonneg _
  liveConversationHistoryTokens := Int.natCast_nonneg _
  inlineToolTranscriptTokens := Int.natCast_nonneg _
  memorySummaryTokens := Int.natCast_nonneg _
  pinsTokens := Int.natCast_nonneg _
  toolSchemaBudget := by
    intro report hreport
    rw [← Option.some.inj hreport]
    exact sound_report host toolList

theorem RequestTokenBreakdown.Sound.total {b : RequestTokenBreakdown} (h : b.Sound) :
    0 ≤ b.totalTokens := by
  obtain ⟨h1, h2, h3, h4, h5, h6, -⟩ := h
  unfold RequestTokenBreakdown.totalTokens
  omega

/-! ### Counts -/

omit [Json.Floats F] in
theorem isCount_safeInt (v : Json F) : IsCount (safeInt host v) := by
  cases v with
  | bool b => cases b <;> exact isCount_some (by decide)
  | null | arr items | obj members => exact isCount_none
  | int n => exact isCount_safeCount (some n)
  | float x | str s => exact isCount_safeCount _

theorem fallbackPromptEstimate_nonneg (host : Host F) (call : Call F) :
    0 ≤ fallbackPromptEstimate host call := by
  unfold fallbackPromptEstimate
  cases hprovider : (safeRequestPlan host call.requestPlan).bind fun plan =>
      safeInt host (Json.get plan "serialized_request_estimate_tokens") with
  | some n =>
    obtain ⟨plan, -, hn⟩ := Option.bind_eq_some_iff.mp hprovider
    exact isCount_safeInt _ n hn
  | none =>
    rw [Option.getD_none]
    split
    · exact (sound_estimate host _ _ _).total
    · exact Int.natCast_nonneg _

/-- Where the counts of a record come from. -/
def IsSource (source : String) : Prop := source = "api" ∨ source = "estimate"

theorem promptCount_spec (host : Host F) (call : Call F) :
    0 ≤ (promptCount host call).1 ∧ IsSource (promptCount host call).2.1 := by
  have hfallback := fallbackPromptEstimate_nonneg host call
  unfold promptCount
  dsimp only
  split
  · exact ⟨hfallback, .inr rfl⟩
  rename_i reported hreported
  split
  · exact ⟨hfallback, .inr rfl⟩
  · refine ⟨isCount_safeCount _ reported hreported, ?_⟩
    split
    · exact .inr rfl
    · exact .inl rfl

theorem completionCount_spec (host : Host F) (call : Call F) {source : String}
    (corrected : List String) (hsource : IsSource source) :
    0 ≤ (completionCount host call source corrected).1 ∧
      IsSource (completionCount host call source corrected).2.1 := by
  have hestimate : (0 : Int) ≤
      estimateCompletionTokens host call.responseContent call.responseToolCalls :=
    Int.natCast_nonneg _
  unfold completionCount
  dsimp only
  split
  · exact ⟨hestimate, .inr rfl⟩
  rename_i reported hreported
  split
  · exact ⟨hestimate, .inr rfl⟩
  · exact ⟨isCount_safeCount _ reported hreported, hsource⟩

theorem resolveTotalTokens_nonneg {total promptTokens completionTokens : Int}
    (htotal : 0 ≤ total) (hprompt : 0 ≤ promptTokens) (hcompletion : 0 ≤ completionTokens)
    (characters : Int) :
    0 ≤ (resolveTotalTokens total promptTokens completionTokens characters).1 := by
  unfold resolveTotalTokens
  dsimp only
  split
  · exact Int.add_nonneg hprompt hcompletion
  split
  · exact Int.add_nonneg hprompt hcompletion
  · exact htotal

structure Counts.Sound (counts : Counts) : Prop where
  promptTokens : 0 ≤ counts.promptTokens
  completionTokens : 0 ≤ counts.completionTokens
  totalTokens : 0 ≤ counts.totalTokens
  usageSource : IsSource counts.usageSource

theorem sound_counts (host : Host F) (call : Call F) : (resolveCounts host call).Sound := by
  obtain ⟨hprompt, hsource⟩ := promptCount_spec host call
  obtain ⟨hcompletion, hsource'⟩ := completionCount_spec host call
    (promptCount host call).2.2 hsource
  have hsum := Int.add_nonneg hprompt hcompletion
  unfold resolveCounts
  dsimp only
  split
  · exact ⟨hprompt, hcompletion, hsum, hsource'⟩
  rename_i reported hreported
  have htotal := isCount_safeCount _ reported hreported
  split
  · exact ⟨hprompt, hcompletion, hsum, hsource'⟩
  split
  · exact ⟨hprompt, hcompletion, htotal, hsource'⟩
  · exact ⟨hprompt, hcompletion, resolveTotalTokens_nonneg htotal hprompt hcompletion _, hsource'⟩

theorem IsSource.ne_empty {source : String} (h : IsSource source) : source ≠ "" := by
  obtain rfl | rfl := h <;> decide

omit [Json.Floats F] in
theorem sourceDetail_ne_empty (call : Call F) (source : String) :
    sourceDetail call source ≠ "" := by
  unfold sourceDetail
  split
  · split <;> decide
  split
  · decide
  · assumption

omit [Json.Floats F] in
theorem usageConfidence_ne_empty (call : Call F) (source : String) :
    usageConfidence call source ≠ "" := by
  unfold usageConfidence
  split
  · decide
  split
  · decide
  dsimp only
  split
  · rename_i hmem
    intro hempty
    rw [hempty] at hmem
    exact absurd hmem (by decide)
  · decide

end Estimates

/-! ### Caches -/

structure CacheCounts.Sound (caches : CacheCounts) : Prop where
  cacheRead : IsCount caches.cacheRead
  cacheCreation : IsCount caches.cacheCreation
  cacheCreation5m : IsCount caches.cacheCreation5m
  cacheCreation1h : IsCount caches.cacheCreation1h
  uncached : IsCount caches.uncached

theorem sound_cacheCounts (call : Call F) (counts : Counts) : (cacheCounts call counts).Sound := by
  unfold cacheCounts
  split
  · exact ⟨isCount_none, isCount_none, isCount_none, isCount_none, isCount_none⟩
  · have h5m := isCount_safeCount call.apiCacheCreation5mInputTokens
    have h1h := isCount_safeCount call.apiCacheCreation1hInputTokens
    refine ⟨(isCount_safeCount _).or (isCount_safeCount _), (isCount_safeCount _).or ?_, h5m, h1h,
      isCount_safeCount _⟩
    refine IsCount.ite isCount_none (isCount_some ?_)
    have hsum (value other : Option Int) (h : IsCount value) (h' : IsCount other) :
        0 ≤ ([value, other].filterMap id).sum := by
      have hvalue := h.getD
      have hother := h'.getD
      cases value <;> cases other <;> (simp_all; try omega)
    exact hsum _ _ h5m h1h

theorem CacheCounts.Sound.uncachedPrompt {caches : CacheCounts} (h : caches.Sound)
    (promptTokens : Int) : IsCount (caches.uncachedPrompt promptTokens) := by
  unfold CacheCounts.uncachedPrompt
  split
  · exact isCount_some (le_max_left _ _)
  · exact h.uncached

theorem CacheCounts.Sound.derive {caches : CacheCounts} (h : caches.Sound) (promptTokens : Int) :
    IsCount (caches.derive promptTokens).uncached := by
  unfold CacheCounts.derive
  dsimp only
  split
  · exact isCount_some (le_max_left _ _)
  · exact h.uncached

/-! ### Records -/

variable [Arith F]

theorem safeBillingMode_ne_empty (billingMode : String) : safeBillingMode billingMode ≠ "" := by
  unfold safeBillingMode
  dsimp only
  split
  · rename_i hmem
    intro hempty
    rw [hempty] at hmem
    exact absurd hmem (by decide)
  · decide

theorem usageCostUsd_source_ne_empty (python : Python F) (promptTokens completionTokens : Int)
    (caches : CacheCounts) (reasoningTokens : Option Int) (rates : Rates F) :
    (usageCostUsd python promptTokens completionTokens caches reasoningTokens rates).costSource ≠
      "" := by
  unfold usageCostUsd
  split
  · dsimp only
    split <;> simp
  · simp

theorem costOf_source_ne_empty (host : Host F) (call : Call F) (counts : Counts)
    (caches : CacheCounts) : (costOf host call counts caches).costSource ≠ "" := by
  unfold costOf
  dsimp only
  split
  · simp
  split
  · simp
  split
  · simp
  split
  · simp
  · exact usageCostUsd_source_ne_empty _ _ _ _ _ _

theorem safeText_or {value other : Option String} (hvalue : safeText value = value)
    (hother : safeText other = other) : safeText (value.or other) = value.or other := by
  cases value with
  | none => exact hother
  | some s => exact hvalue

/-- **What the builder makes is sound.** -/
theorem sound_buildRecord (host : Host F) (call : Call F) : (buildRecord host call).Sound := by
  have hcounts := sound_counts host call
  have hcaches := sound_cacheCounts call (resolveCounts host call)
  unfold buildRecord
  exact {
    usageSchemaVersion := by simp
    promptTokens := hcounts.promptTokens
    completionTokens := hcounts.completionTokens
    totalTokens := hcounts.totalTokens
    billingMode := by
      dsimp only
      exact safeBillingMode_ne_empty call.billingMode
    costSource := by
      dsimp only
      exact costOf_source_ne_empty _ _ _ _
    usageSource := hcounts.usageSource.ne_empty
    usageSourceDetail := sourceDetail_ne_empty _ _
    usageConfidence := usageConfidence_ne_empty _ _
    providerKey := safeText_safeText _
    protocol := safeText_safeText _
    baseUrlHost := safeText_safeText _
    operation := safeText_safeText _
    requestMode := safeText_or (safeText_safeText _) (safeText_planText _ (by decide))
    cacheStrategy := safeText_or (safeText_safeText _) (safeText_planText _ (by decide))
    cachedPromptTokens := hcaches.cacheRead
    uncachedPromptTokens := hcaches.uncachedPrompt _
    inputTokensUncached := hcaches.derive _
    cacheRead := rfl
    cacheCreationInputTokens := hcaches.cacheCreation
    cacheCreation5mInputTokens := hcaches.cacheCreation5m
    cacheCreation1hInputTokens := hcaches.cacheCreation1h
    reasoningTokens := isCount_safeCount _
    requestTokenEstimate := by
      intro b hb
      rw [← Option.some.inj hb]
      exact sound_estimate host _ _ _
    promptEstimateTokens := isCount_some (fallbackPromptEstimate_nonneg host call)
    rawApiPromptTokens := (isCount_safeCount _).ite isCount_none
    rawApiCompletionTokens := (isCount_safeCount _).ite isCount_none
    rawApiTotalTokens := (isCount_safeCount _).ite isCount_none
    requestPlan := distinct_safeRequestPlan _
    rawProviderUsage := by
      intro usage husage
      obtain ⟨dict, -, rfl⟩ := Option.map_eq_some_iff.mp husage
      exact dict.2 }

end AlysisCode.Usage
