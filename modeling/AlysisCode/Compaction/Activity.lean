/-
What a chunk may be in an execution: activity behind one message of the user, before the next.

The first message of the user behind the protected prefix is kept.  What follows it falls into
bundles: a call of tools with its results and the answer to them, or a single message.  From
the bundles before the recent tail a window is taken that is worth removing, and only if the
messages without it are a valid transcript.
-/
import AlysisCode.Compaction.Round

namespace AlysisCode.Compaction

variable {F S : Type}

/-- `_ExecutionBundle`: the messages from `start` up to `stop`. -/
structure Bundle where
  start : Nat
  stop : Nat

section Bundles

variable (python : Python F)

/-- The first message of the user among the messages from `index` on. -/
def firstUserFrom (index : Nat) : List (Message F) → Option Nat
  | [] => none
  | msg :: rest =>
    if isContext python msg then firstUserFrom (index + 1) rest
    else if role python msg = "user" then some index
    else firstUserFrom (index + 1) rest

def firstExecutionUserIdx (protectedPrefixLen : Nat) (messages : List (Message F)) : Option Nat :=
  let scanStart := min protectedPrefixLen messages.length
  firstUserFrom python scanStart (messages.drop scanStart)

def executionSequenceEnd (scanStart : Nat) (messages : List (Message F)) : Nat :=
  (firstUserFrom python scanStart (messages.drop scanStart)).getD messages.length

/-- The results among the messages from `cursor` on, up to where the bundle ends. -/
def toolResults (expected seen : List String) (cursor : Nat) : List (Message F) → Option Nat
  | [] => if seen ⊆ expected ∧ expected ⊆ seen then some cursor else none
  | msg :: rest =>
    if isContext python msg then none
    else if role python msg = "tool" then
      let callId := toolCallId python msg
      if callId = "" ∨ callId ∉ expected ∨ callId ∈ seen then none
      else toolResults expected (callId :: seen) (cursor + 1) rest
    else if ¬(seen ⊆ expected ∧ expected ⊆ seen) then none
    else if role python msg = "assistant" ∧ assistantHasToolCalls msg = false then some (cursor + 1)
    else some cursor

/-- `_build_execution_tool_bundle`, of the call `msg` before `cursor`: where it ends. -/
def buildExecutionToolBundle (msg : Message F) (cursor : Nat) (rest : List (Message F)) :
    Option Nat :=
  let expected := assistantToolCallIds python msg
  if expected = [] then none else toolResults python expected [] cursor rest

/-- The bundles of the messages from `index` on, the first `skip` of which are in a bundle
already, and where they cannot be told any further. -/
def bundlesFrom : Nat → Nat → List (Message F) → List Bundle × Option Nat
  | _, _, [] => ([], none)
  | skip + 1, index, _ :: rest => bundlesFrom skip (index + 1) rest
  | 0, index, msg :: rest =>
    if isContext python msg then bundlesFrom 0 (index + 1) rest
    else if role python msg = "tool" then ([], some index)
    else if role python msg = "assistant" ∧ assistantHasToolCalls msg = true then
      match buildExecutionToolBundle python msg (index + 1) rest with
      | none => ([], some index)
      | some stop =>
        let later := bundlesFrom (stop - (index + 1)) (index + 1) rest
        ({ start := index, stop := stop } :: later.1, later.2)
    else
      let later := bundlesFrom 0 (index + 1) rest
      ({ start := index, stop := index + 1 } :: later.1, later.2)

/-- What `_build_execution_bundles` returns. -/
structure Bundles where
  bundles : List Bundle
  safeBoundary : Nat
  sequenceEnd : Nat

def buildExecutionBundles (protectedPrefixLen : Nat) (messages : List (Message F)) : Bundles :=
  match firstExecutionUserIdx python protectedPrefixLen messages with
  | none => { bundles := [], safeBoundary := messages.length, sequenceEnd := messages.length }
  | some firstUserIdx =>
    let scanStart := firstUserIdx + 1
    let sequenceEnd := executionSequenceEnd python scanStart messages
    let found := bundlesFrom python 0 scanStart (slice messages scanStart sequenceEnd)
    { bundles := found.1, safeBoundary := found.2.getD sequenceEnd, sequenceEnd := sequenceEnd }

end Bundles

/-! ### The window -/

def Settings.recentRawTailMessages (settings : Settings S) : Nat :=
  min (max 8 (settings.maxChunkMessages / 3)) 24

def tailIndexFrom (keepMessages kept : Nat) : List Bundle → Nat
  | [] => 0
  | bundle :: earlier =>
    if keepMessages ≤ kept + (bundle.stop - bundle.start) then earlier.length
    else tailIndexFrom keepMessages (kept + (bundle.stop - bundle.start)) earlier

def executionTailBundleIndex (settings : Settings S) (bundles : List Bundle) : Nat :=
  tailIndexFrom settings.recentRawTailMessages 0 bundles.reverse

/-- The bundles from `start` to `stop`, `stop` included. -/
def windowOf {α : Type} (items : List α) (start stop : Nat) : List α :=
  (items.take (stop + 1)).drop start

section Window

variable (settings : Settings S) (bundles : List Bundle) (scored : List (ScoredTurn S))

def executionCandidateStats (start stop : Nat) : Nat × Nat :=
  (((windowOf bundles start stop).map fun bundle => bundle.stop - bundle.start).sum,
    ((windowOf scored start stop).map (·.tokenEstimate)).sum)

/-- `_execution_meets_minimum_removal_thresholds`, of a window. -/
def meetsMinimums (start stop : Nat) : Bool :=
  let stats := executionCandidateStats bundles scored start stop
  settings.executionMinRemovableMessages ≤ stats.1 && settings.executionMinRemovableTokens ≤ stats.2

def widenRight (right : Nat) : Nat → Option Nat
  | 0 => none
  | room + 1 =>
    if meetsMinimums settings bundles scored 0 (right + 1) then some (right + 1)
    else widenRight (right + 1) room

def widenLeft (right : Nat) : Nat → Option (Nat × Nat)
  | 0 =>
    if meetsMinimums settings bundles scored 0 right then some (0, right)
    else (widenRight settings bundles scored right (bundles.length - (right + 1))).map (0, ·)
  | left + 1 =>
    if meetsMinimums settings bundles scored (left + 1) right then some (left + 1, right)
    else widenLeft right left

def expandExecutionWindowToMinimums (index : Nat) : Option (Nat × Nat) :=
  widenLeft settings bundles scored index index

/-- Further bundles are taken while there is room for them. -/
def extendRight (right : Nat) : Nat → Nat
  | 0 => right
  | room + 1 =>
    if settings.maxChunkMessages < (executionCandidateStats bundles scored 0 (right + 1)).1 then right
    else extendRight (right + 1) room

def oldestExecutionWindow : Option (Nat × Nat) :=
  if bundles = [] then none
  else
    let enough :=
      if meetsMinimums settings bundles scored 0 0 then some 0
      else widenRight settings bundles scored 0 (bundles.length - 1)
    enough.map fun right =>
      (0, extendRight settings bundles scored right (bundles.length - (right + 1)))

/-- The windows that are tried, the preferred one first. -/
def candidateWindows [LinearOrder S] : List (Nat × Nat) :=
  let oldest := oldestExecutionWindow settings bundles scored
  if settings.importanceEnabled ∧ settings.importanceStrategy = .lowestDensity ∧ scored ≠ [] then
    -- the index of the best ranked one
    let anchor := (scored.zipIdx.argmin fun turn => turn.1.rank).map (·.2)
    let selected := anchor.bind (expandExecutionWindowToMinimums settings bundles scored)
    selected.toList ++ if oldest = selected then [] else oldest.toList
  else oldest.toList

end Window

/-! ### The chunks of an execution -/

section Plans

variable (host : Host F S) (settings : Settings S) (overrides : Overrides S)

def buildExecutionChunkPlanForWindow (messages : List (Message F)) (bundles : List Bundle)
    (scored : List (ScoredTurn S)) (window : Nat × Nat) : Option (ChunkPlan S) :=
  let selected := windowOf bundles window.1 window.2
  match selected.head?, selected.getLast? with
  | some first, some last =>
    if hasValidToolTranscript host.python (without messages first.start last.stop) then
      some
        { start := first.start
          stop := last.stop
          scoredTurns := windowOf scored window.1 window.2 }
    else none
  | _, _ => none

def buildExecutionChunkPlans [LinearOrder S] (protectedPrefixLen : Nat)
    (messages : List (Message F)) : List (ChunkPlan S) :=
  let found := buildExecutionBundles host.python protectedPrefixLen messages
  let tailIndex := executionTailBundleIndex settings found.bundles
  let tailBoundary := (found.bundles[tailIndex]?.map (·.start)).getD found.safeBoundary
  let removableBoundary := min found.safeBoundary tailBoundary
  let eligible := found.bundles.filter (·.stop ≤ removableBoundary)
  let scored := scoreRanges host overrides messages (eligible.map fun b => (b.start, b.stop))
  let scoredBundles := eligible.filterMap fun b =>
    scored.find? fun turn => turn.start == b.start && turn.stop == b.stop
  (candidateWindows settings eligible scoredBundles).filterMap
    (buildExecutionChunkPlanForWindow host messages eligible scoredBundles)

end Plans

/-! ### Bundles follow one another -/

/-- The bundles stand between `low` and `high`, one behind the other. -/
inductive Spaced (high : Nat) : Nat → List Bundle → Prop
  | nil {low : Nat} : Spaced high low []
  | cons {low : Nat} {bundle : Bundle} {rest : List Bundle} (hlow : low ≤ bundle.start)
      (hlt : bundle.start < bundle.stop) (hhigh : bundle.stop ≤ high)
      (hrest : Spaced high bundle.stop rest) : Spaced high low (bundle :: rest)

variable {bundles : List Bundle} {high low index : Nat} {rest messages : List (Message F)}

theorem Spaced.mono {low' : Nat} (h : Spaced high low bundles) (hle : low' ≤ low) :
    Spaced high low' bundles := by
  cases h with
  | nil => exact .nil
  | cons hlow hlt hhigh hrest => exact .cons (by omega) hlt hhigh hrest

theorem Spaced.filter (h : Spaced high low bundles) (p : Bundle → Bool) :
    Spaced high low (bundles.filter p) := by
  induction h with
  | nil => exact .nil
  | @cons low bundle rest hlow hlt hhigh _ ih =>
    by_cases hp : p bundle = true
    · rw [List.filter_cons_of_pos hp]
      exact .cons hlow hlt hhigh ih
    · rw [List.filter_cons_of_neg hp]
      exact ih.mono (by omega)

theorem Spaced.of_mem (h : Spaced high low bundles) {bundle : Bundle} (hmem : bundle ∈ bundles) :
    low ≤ bundle.start ∧ bundle.start < bundle.stop ∧ bundle.stop ≤ high := by
  induction h with
  | nil => cases hmem
  | @cons low first rest hlow hlt hhigh _ ih =>
    rcases List.mem_cons.mp hmem with rfl | hmem
    · exact ⟨hlow, hlt, hhigh⟩
    · have := ih hmem
      omega

theorem Spaced.drop (h : Spaced high low bundles) (n : Nat) : Spaced high low (bundles.drop n) := by
  induction h generalizing n with
  | nil =>
    rw [List.drop_nil]
    exact .nil
  | @cons low bundle rest hlow hlt hhigh hrest ih =>
    cases n with
    | zero => exact .cons hlow hlt hhigh hrest
    | succ n =>
      rw [List.drop_succ_cons]
      exact (ih n).mono (by omega)

theorem Spaced.take (h : Spaced high low bundles) (n : Nat) : Spaced high low (bundles.take n) := by
  induction h generalizing n with
  | nil =>
    rw [List.take_nil]
    exact .nil
  | cons hlow hlt hhigh _ ih =>
    cases n with
    | zero => exact .nil
    | succ n =>
      rw [List.take_succ_cons]
      exact .cons hlow hlt hhigh (ih n)

theorem Spaced.ends (h : Spaced high low bundles) {first last : Bundle}
    (hfirst : bundles.head? = some first) (hlast : bundles.getLast? = some last) :
    low ≤ first.start ∧ first.start < last.stop ∧ last.stop ≤ high := by
  cases h with
  | nil => cases hfirst
  | @cons _ bundle rest hlow hlt hhigh hrest =>
    cases hfirst
    rcases List.mem_cons.mp (List.mem_of_getLast? hlast) with rfl | hmem
    · exact ⟨hlow, hlt, hhigh⟩
    · have := hrest.of_mem hmem
      omega

variable {python : Python F}

theorem toolResults_bounds {expected seen : List String} {cursor stop : Nat}
    (h : toolResults python expected seen cursor rest = some stop) :
    cursor ≤ stop ∧ stop ≤ cursor + rest.length := by
  induction rest generalizing seen cursor with
  | nil =>
    rw [toolResults] at h
    split at h
    · cases h
      exact ⟨le_refl _, Nat.le_add_right _ _⟩
    · cases h
  | cons msg rest ih =>
    rw [toolResults] at h
    rw [List.length_cons]
    split at h
    · cases h
    · split at h
      · dsimp only at h
        split at h
        · cases h
        · have := ih h
          omega
      · split at h
        · cases h
        · split at h
          · cases h
            omega
          · cases h
            omega

theorem spaced_bundlesFrom (python : Python F) (skip index : Nat) (messages : List (Message F)) :
    Spaced (index + messages.length) (index + skip) (bundlesFrom python skip index messages).1 := by
  induction messages generalizing skip index with
  | nil =>
    cases skip with
    | zero | succ skip => exact .nil
  | cons msg rest ih =>
    have hlength : index + (msg :: rest).length = index + 1 + rest.length := by
      rw [List.length_cons]
      omega
    rw [hlength]
    cases skip with
    | succ skip =>
      rw [bundlesFrom]
      exact (ih skip (index + 1)).mono (by omega)
    | zero =>
      rw [bundlesFrom]
      split
      · exact (ih 0 (index + 1)).mono (by omega)
      · split
        · exact .nil
        · split
          · cases htool : buildExecutionToolBundle python msg (index + 1) rest with
            | none => exact .nil
            | some stop =>
              unfold buildExecutionToolBundle at htool
              dsimp only at htool
              split at htool
              · cases htool
              · obtain ⟨hle, hge⟩ := toolResults_bounds htool
                refine .cons (by simp) (by simp only; omega) (by simpa using hge) ?_
                exact (ih (stop - (index + 1)) (index + 1)).mono (by simp only; omega)
          · refine .cons (by simp) (by simp) (by simp only; omega) ?_
            exact ih 0 (index + 1)

theorem bundlesFrom_opens (python : Python F) (skip index : Nat) (messages : List (Message F))
    {bundle : Bundle} (h : bundle ∈ (bundlesFrom python skip index messages).1) :
    index ≤ bundle.start ∧
      ∃ msg, messages[bundle.start - index]? = some msg ∧ isContext python msg = false := by
  induction messages generalizing skip index with
  | nil =>
    cases skip with
    | zero | succ skip => cases h
  | cons msg rest ih =>
    have hlater {skip : Nat} (h : bundle ∈ (bundlesFrom python skip (index + 1) rest).1) :
        index ≤ bundle.start ∧ ∃ msg', (msg :: rest)[bundle.start - index]? = some msg' ∧
          isContext python msg' = false := by
      obtain ⟨hle, msg', hget, hcontext⟩ := ih skip (index + 1) h
      have hindex : bundle.start - index = bundle.start - (index + 1) + 1 := by omega
      refine ⟨by omega, msg', ?_, hcontext⟩
      rw [hindex, List.getElem?_cons_succ]
      exact hget
    cases skip with
    | succ skip => exact hlater h
    | zero =>
      rw [bundlesFrom] at h
      by_cases hcontext : isContext python msg = true
      · rw [if_pos hcontext] at h
        exact hlater h
      · rw [if_neg hcontext] at h
        have hself {stop : Nat} (hbundle : bundle = { start := index, stop := stop }) :
            index ≤ bundle.start ∧ ∃ msg', (msg :: rest)[bundle.start - index]? = some msg' ∧
              isContext python msg' = false := by
          rw [hbundle]
          exact ⟨le_refl _, msg, by simp, by simpa using hcontext⟩
        split at h
        · cases h
        split at h
        on_goal 1 =>
          split at h
          · cases h
        all_goals
          rcases List.mem_cons.mp h with hbundle | h
          · exact hself hbundle
          · exact hlater h

/-! ### Between two messages of the user -/

theorem not_userAt_of_drop {msg : Message F} (hrest : messages.drop index = msg :: rest)
    (hmsg : isContext python msg = true ∨ role python msg ≠ "user") :
    ¬UserAt python messages index := by
  rintro ⟨msg', hget, huser⟩
  have hmsg' : messages[index]? = some msg := by
    rw [← List.head?_drop, hrest]
    rfl
  obtain rfl := Option.some.inj (hmsg'.symm.trans hget)
  obtain ⟨hcontext, hrole⟩ := Bool.and_eq_true_iff.mp huser
  rcases hmsg with h | h
  · rw [h] at hcontext
    cases hcontext
  · exact h (by simpa using hrole)

theorem firstUserFrom_some {found : Nat} (hrest : messages.drop index = rest)
    (h : firstUserFrom python index rest = some found) :
    index ≤ found ∧ UserAt python messages found ∧
      ∀ i, index ≤ i → i < found → ¬UserAt python messages i := by
  induction rest generalizing index with
  | nil => cases h
  | cons msg rest ih =>
    obtain ⟨hdrop, -⟩ := drop_succ_of_drop hrest
    have hlater (hmsg : isContext python msg = true ∨ role python msg ≠ "user")
        (h : firstUserFrom python (index + 1) rest = some found) :
        index ≤ found ∧ UserAt python messages found ∧
          ∀ i, index ≤ i → i < found → ¬UserAt python messages i := by
      obtain ⟨hle, huser, hquiet⟩ := ih hdrop h
      refine ⟨by omega, huser, fun i hi hlt => ?_⟩
      by_cases heq : i = index
      · rw [heq]
        exact not_userAt_of_drop hrest hmsg
      · exact hquiet i (by omega) hlt
    rw [firstUserFrom] at h
    by_cases hcontext : isContext python msg = true
    · rw [if_pos hcontext] at h
      exact hlater (Or.inl hcontext) h
    · rw [if_neg hcontext] at h
      by_cases hrole : role python msg = "user"
      · rw [if_pos hrole] at h
        cases h
        exact ⟨le_refl _, userAt_of_drop hrest hcontext (by simpa using hrole),
          fun i hi hlt => by omega⟩
      · rw [if_neg hrole] at h
        exact hlater (Or.inr hrole) h

theorem firstUserFrom_none (hrest : messages.drop index = rest)
    (h : firstUserFrom python index rest = none) :
    ∀ i, index ≤ i → ¬UserAt python messages i := by
  induction rest generalizing index with
  | nil =>
    rintro i hi ⟨msg, hget, -⟩
    have hlt := (List.getElem?_eq_some_iff.mp hget).1
    have := List.drop_eq_nil_iff.mp hrest
    omega
  | cons msg rest ih =>
    obtain ⟨hdrop, -⟩ := drop_succ_of_drop hrest
    have hlater (hmsg : isContext python msg = true ∨ role python msg ≠ "user")
        (h : firstUserFrom python (index + 1) rest = none) :
        ∀ i, index ≤ i → ¬UserAt python messages i := by
      intro i hi
      by_cases heq : i = index
      · rw [heq]
        exact not_userAt_of_drop hrest hmsg
      · exact ih hdrop h i (by omega)
    rw [firstUserFrom] at h
    by_cases hcontext : isContext python msg = true
    · rw [if_pos hcontext] at h
      exact hlater (Or.inl hcontext) h
    · rw [if_neg hcontext] at h
      by_cases hrole : role python msg = "user"
      · rw [if_pos hrole] at h
        cases h
      · rw [if_neg hrole] at h
        exact hlater (Or.inr hrole) h

theorem UserAt.lt (h : UserAt python messages index) : index < messages.length := by
  obtain ⟨msg, hget, -⟩ := h
  exact (List.getElem?_eq_some_iff.mp hget).1

theorem sequenceEnd_spec (python : Python F) (messages : List (Message F)) (scanStart : Nat)
    (hstart : scanStart ≤ messages.length) :
    scanStart ≤ executionSequenceEnd python scanStart messages ∧
      executionSequenceEnd python scanStart messages ≤ messages.length ∧
      ∀ i, scanStart ≤ i → i < executionSequenceEnd python scanStart messages →
        ¬UserAt python messages i := by
  unfold executionSequenceEnd
  cases hfound : firstUserFrom python scanStart (messages.drop scanStart) with
  | none => exact ⟨hstart, le_refl _, fun i hi _ => firstUserFrom_none rfl hfound i hi⟩
  | some found =>
    obtain ⟨hle, huser, hquiet⟩ := firstUserFrom_some rfl hfound
    exact ⟨hle, huser.lt.le, hquiet⟩

/-- The messages from `start` up to `stop` are activity behind the first message of the user
behind the protected prefix, and before the next one. -/
structure Activity (python : Python F) (protectedPrefixLen : Nat) (messages : List (Message F))
    (start stop : Nat) : Prop where
  user : ∃ user, min protectedPrefixLen messages.length ≤ user ∧ user < start ∧
    UserAt python messages user ∧
    (∀ i, min protectedPrefixLen messages.length ≤ i → i < user → ¬UserAt python messages i) ∧
    ∀ i, user < i → i < stop → ¬UserAt python messages i
  opens : ∃ msg, messages[start]? = some msg ∧ isContext python msg = false
  lt : start < stop
  inside : stop ≤ messages.length
  valid : hasValidToolTranscript python (without messages start stop) = true

theorem spaced_executionBundles (protectedPrefixLen : Nat) (messages : List (Message F)) :
    (buildExecutionBundles python protectedPrefixLen messages).bundles = [] ∨
      ∃ user, firstExecutionUserIdx python protectedPrefixLen messages = some user ∧
        Spaced (executionSequenceEnd python (user + 1) messages) (user + 1)
          (buildExecutionBundles python protectedPrefixLen messages).bundles ∧
        ∀ bundle ∈ (buildExecutionBundles python protectedPrefixLen messages).bundles,
          ∃ msg, messages[bundle.start]? = some msg ∧ isContext python msg = false := by
  unfold buildExecutionBundles
  cases hfound : firstExecutionUserIdx python protectedPrefixLen messages with
  | none => exact Or.inl rfl
  | some user =>
    refine Or.inr ⟨user, rfl, ?_⟩
    have huser := (firstUserFrom_some rfl hfound).2.1.lt
    obtain ⟨hle, hinside, -⟩ := sequenceEnd_spec python messages (user + 1) huser
    have hlength : user + 1 + (slice messages (user + 1)
        (executionSequenceEnd python (user + 1) messages)).length =
          executionSequenceEnd python (user + 1) messages := by
      rw [slice, List.length_drop, List.length_take]
      omega
    have hspaced := spaced_bundlesFrom python 0 (user + 1)
      (slice messages (user + 1) (executionSequenceEnd python (user + 1) messages))
    rw [hlength] at hspaced
    refine ⟨hspaced, fun bundle hbundle => ?_⟩
    obtain ⟨hle', msg, hget, hcontext⟩ := bundlesFrom_opens python 0 (user + 1) _ hbundle
    refine ⟨msg, ?_, hcontext⟩
    rw [slice, List.getElem?_drop, List.getElem?_take] at hget
    split at hget
    · have hindex : user + 1 + (bundle.start - (user + 1)) = bundle.start := by omega
      rwa [hindex] at hget
    · cases hget

/-- **The chunk of an execution is activity behind one message of the user.** -/
theorem activity_of_executionChunkPlans [LinearOrder S] {host : Host F S} {settings : Settings S}
    {overrides : Overrides S} {protectedPrefixLen : Nat} {plan : ChunkPlan S}
    (h : plan ∈ buildExecutionChunkPlans host settings overrides protectedPrefixLen messages) :
    Activity host.python protectedPrefixLen messages plan.start plan.stop := by
  unfold buildExecutionChunkPlans at h
  obtain ⟨window, -, hwindow⟩ := List.mem_filterMap.mp h
  unfold buildExecutionChunkPlanForWindow at hwindow
  dsimp only at hwindow
  split at hwindow
  · rename_i first last hfirst hlast
    by_cases hvalid : hasValidToolTranscript host.python
        (without messages first.start last.stop) = true
    · rw [if_pos hvalid] at hwindow
      cases hwindow
      rcases spaced_executionBundles protectedPrefixLen messages with hnone |
          ⟨user, huser, hspaced, hopens⟩
      · rw [hnone] at hfirst
        simp [windowOf] at hfirst
      · obtain ⟨hlow, hlt, hhigh⟩ :=
          (((hspaced.filter _).take (window.2 + 1)).drop window.1).ends hfirst hlast
        obtain ⟨hle, hat, hbefore⟩ := firstUserFrom_some rfl huser
        obtain ⟨-, hinside, hquiet⟩ := sequenceEnd_spec host.python messages (user + 1) hat.lt
        have hmem := List.mem_of_mem_take (List.mem_of_mem_drop (List.mem_of_mem_head? hfirst))
        exact
          { user := ⟨user, hle, hlow, hat, hbefore,
              fun i hi hlt => hquiet i hi (lt_of_lt_of_le hlt hhigh)⟩
            opens := hopens first (List.mem_filter.mp hmem).1
            lt := hlt
            inside := hhigh.trans hinside
            valid := hvalid }
    · rw [if_neg hvalid] at hwindow
      cases hwindow
  · cases hwindow

end AlysisCode.Compaction
