/-
Which states a payload is read back as.

`Valid` is what the strict reader asks of a state.  A valid state is read back from its own
payload, and only valid states are ever read.
-/
import Mathlib.Data.List.TakeWhile
import AlysisCode.Task.Basic

namespace AlysisCode.Task

open Runs

variable {F : Type}

/-! ### Blank texts -/

variable {key t reason : String} {out : List String}

theorem isBlank_iff : isBlank t = true ↔ ∀ c ∈ t.toList, isSpace c = true := by
  have hstrip : (strip t).toList = Text.stripWhere isSpace t.toList := String.toList_ofList
  rw [isBlank, beq_iff_eq]
  constructor
  · intro h c hc
    rw [h] at hstrip
    have hdrop : t.toList.dropWhile isSpace = [] := by
      by_contra hne
      have hhead := List.head_dropWhile_not isSpace hne
      have hback : (t.toList.dropWhile isSpace).reverse.dropWhile isSpace = [] :=
        List.reverse_eq_nil_iff.mp hstrip.symm
      rw [List.dropWhile_eq_nil_iff] at hback
      rw [hback _ (List.mem_reverse.mpr (List.head_mem hne))] at hhead
      cases hhead
    exact List.dropWhile_eq_nil_iff.mp hdrop c hc
  · intro h
    have hdrop : t.toList.dropWhile isSpace = [] := List.dropWhile_eq_nil_iff.mpr h
    unfold strip
    rw [hdrop]
    rfl

theorem isBlank_false_of_mem {c : Char} (hc : c ∈ t.toList) (hspace : isSpace c = false) :
    isBlank t = false := by
  by_contra h
  rw [Bool.not_eq_false, isBlank_iff] at h
  rw [h c hc] at hspace
  cases hspace

theorem isBlank_makeTaskId (sessionId : String) (sequence : Nat) :
    isBlank (makeTaskId sessionId sequence) = false := by
  refine isBlank_false_of_mem (c := ':') ?_ (by decide)
  simp [makeTaskId]

theorem isBlank_of_stripped {value s : String} (h : stripped value = some s) :
    isBlank s = false := by
  simpa [isBlank] using strip_ne_empty_of_stripped h

/-! ### Valid states -/

structure Valid (s : SessionTaskState) : Prop where
  taskId : s.taskId = makeTaskId s.sessionId s.sequence
  objective : isBlank s.objective = false
  sessionId : isBlank s.sessionId = false
  sequence : 1 ≤ s.sequence
  origin : s.origin ∈ taskOrigins
  originEventId : ∀ id ∈ s.originEventId, isBlank id = false
  resumedFromSessionId : ∀ id ∈ s.resumedFromSessionId, isBlank id = false
  requestId : ∀ id ∈ s.requestId, isBlank id = false
  parentSessionId : ∀ id ∈ s.parentSessionId, isBlank id = false
  amendments : ∀ t ∈ s.amendments, isBlank t = false
  priorObjectives : ∀ t ∈ s.priorObjectives, isBlank t = false
  priorLength : s.priorObjectives.length ≤ taskPriorObjectivesMax

variable {members : List (String × Json F)} {s : SessionTaskState}

theorem requiredText_ok {s : String} :
    requiredText members key reason = .ok s ↔ Json.get members key = .str s ∧ isBlank s = false := by
  unfold requiredText
  cases Json.get members key with
  | str t =>
    by_cases hblank : isBlank t = true
    · simp only [if_pos hblank, Json.str.injEq, reduceCtorEq, false_iff, not_and,
        Bool.not_eq_false]
      rintro rfl
      exact hblank
    · simp only [if_neg hblank, Except.ok.injEq, Json.str.injEq]
      refine ⟨?_, And.left⟩
      rintro rfl
      exact ⟨rfl, by simpa using hblank⟩
  | _ => simp

theorem optionalStr_ok {value : Option String} :
    optionalStr members key reason = .ok value ↔
      Json.get members key = optionalText value ∧ ∀ s ∈ value, isBlank s = false := by
  unfold optionalStr
  cases Json.get members key with
  | null => cases value <;> simp [optionalText]
  | str t =>
    by_cases hblank : isBlank t = true
    · cases value with
      | none => simp [if_pos hblank, optionalText]
      | some s =>
        simp only [if_pos hblank, optionalText, Json.str.injEq, reduceCtorEq, false_iff,
          not_and]
        rintro rfl h
        rw [h t rfl] at hblank
        cases hblank
    · cases value with
      | none => simp [if_neg hblank, optionalText]
      | some s =>
        simp only [if_neg hblank, optionalText, Json.str.injEq, Except.ok.injEq,
          Option.some.injEq]
        refine ⟨?_, And.left⟩
        rintro rfl
        exact ⟨rfl, fun s hs => Option.some.inj hs ▸ by simpa using hblank⟩
  | _ => cases value <;> simp [optionalText]

theorem listText_eq_some {v : Json F} :
    listText v = some t ↔ v = .str t ∧ isBlank t = false := by
  cases v with
  | str s =>
    by_cases hblank : isBlank s = true
    · simp only [listText, if_pos hblank, reduceCtorEq, Json.str.injEq, false_iff, not_and]
      rintro rfl
      simp [hblank]
    · simp only [listText, if_neg hblank, Option.some.injEq, Json.str.injEq]
      refine ⟨?_, And.left⟩
      rintro rfl
      exact ⟨rfl, by simpa using hblank⟩
  | _ => simp [listText]

theorem mapM_listText {items : List (Json F)} :
    items.mapM listText = some out ↔ items = out.map .str ∧ ∀ t ∈ out, isBlank t = false := by
  induction items generalizing out with
  | nil => cases out <;> simp
  | cons v rest ih =>
    rw [List.mapM_cons]
    cases out with
    | nil => simp [Option.bind_eq_some_iff]
    | cons t out =>
      simp only [Option.bind_eq_bind, Option.bind_eq_some_iff, listText_eq_some, ih,
        List.map_cons, List.cons.injEq, List.forall_mem_cons]
      constructor
      · rintro ⟨t', ⟨rfl, ht'⟩, out', ⟨rfl, hout'⟩, heq⟩
        cases heq
        exact ⟨⟨rfl, rfl⟩, ht', hout'⟩
      · rintro ⟨⟨rfl, rfl⟩, ht, hout⟩
        exact ⟨t, ⟨rfl, ht⟩, out, ⟨rfl, hout⟩, rfl⟩

theorem stringList_ok {limit : Option Nat} :
    stringList members key reason limit = .ok out ↔
      getD members key (.arr []) = texts out ∧ (∀ n ∈ limit, out.length ≤ n) ∧
        ∀ t ∈ out, isBlank t = false := by
  unfold stringList texts
  cases getD members key (.arr []) with
  | arr items =>
    rw [guard_eq_ok, Json.arr.injEq]
    have hmap : (items.mapM listText).elim (.error reason) Except.ok = .ok out ↔
        items = out.map .str ∧ ∀ t ∈ out, isBlank t = false := by
      rw [← mapM_listText]
      cases items.mapM listText <;> simp
    rw [hmap]
    constructor
    · rintro ⟨hlimit, rfl, hblank⟩
      refine ⟨rfl, ?_, hblank⟩
      rintro n rfl
      simpa using hlimit
    · rintro ⟨rfl, hlimit, hblank⟩
      refine ⟨?_, rfl, hblank⟩
      cases limit with
      | none => simp
      | some n => simpa using hlimit n rfl
  | _ => simp

theorem readSequence_ok {n : Nat} :
    readSequence members = .ok n ↔ Json.get members "sequence" = .int n ∧ 1 ≤ n := by
  unfold readSequence
  cases Json.get members "sequence" with
  | int m =>
    simp only [guard_eq_ok, Except.ok.injEq, Json.int.injEq]
    omega
  | _ => simp

theorem readOrigin_ok {s : String} :
    readOrigin members = .ok s ↔
      getD members "origin" (.str "user_instruction") = .str s ∧ s ∈ taskOrigins := by
  unfold readOrigin
  cases getD members "origin" (.str "user_instruction") with
  | str t =>
    by_cases hmem : taskOrigins.contains t = true
    · simp only [if_pos hmem, Except.ok.injEq, Json.str.injEq]
      refine ⟨?_, And.left⟩
      rintro rfl
      exact ⟨rfl, by simpa using hmem⟩
    · simp only [if_neg hmem, reduceCtorEq, Json.str.injEq, false_iff, not_and]
      rintro rfl
      simpa using hmem
  | _ => simp

/-- **A valid state is read back from its payload.** -/
theorem validate_toPayload (h : Valid s) :
    validateTaskStatePayload (.obj s.toPayload : Json F) = .ok s := by
  have hid : checkTaskId s.taskId s.sessionId s.sequence = .ok () := if_pos h.taskId
  have hblank : isBlank s.taskId = false := h.taskId ▸ isBlank_makeTaskId _ _
  refine bind_eq_ok.mpr ⟨(), rfl, ?_⟩
  refine bind_eq_ok.mpr ⟨_, requiredText_ok.mpr ⟨rfl, hblank⟩, ?_⟩
  refine bind_eq_ok.mpr ⟨_, requiredText_ok.mpr ⟨rfl, h.objective⟩, ?_⟩
  refine bind_eq_ok.mpr ⟨_, requiredText_ok.mpr ⟨rfl, h.sessionId⟩, ?_⟩
  refine bind_eq_ok.mpr ⟨_, readSequence_ok.mpr ⟨rfl, h.sequence⟩, ?_⟩
  refine bind_eq_ok.mpr ⟨(), hid, ?_⟩
  refine bind_eq_ok.mpr ⟨_, readOrigin_ok.mpr ⟨rfl, h.origin⟩, ?_⟩
  refine bind_eq_ok.mpr ⟨s.acceptedAt, rfl, ?_⟩
  refine bind_eq_ok.mpr ⟨_, optionalStr_ok.mpr ⟨rfl, h.originEventId⟩, ?_⟩
  refine bind_eq_ok.mpr ⟨_, optionalStr_ok.mpr ⟨rfl, h.resumedFromSessionId⟩, ?_⟩
  refine bind_eq_ok.mpr ⟨_, optionalStr_ok.mpr ⟨rfl, h.requestId⟩, ?_⟩
  refine bind_eq_ok.mpr ⟨_, optionalStr_ok.mpr ⟨rfl, h.parentSessionId⟩, ?_⟩
  refine bind_eq_ok.mpr ⟨_, stringList_ok.mpr ⟨rfl, by simp, h.amendments⟩, ?_⟩
  refine bind_eq_ok.mpr ⟨_, stringList_ok.mpr ⟨rfl, by simpa using h.priorLength,
    h.priorObjectives⟩, ?_⟩
  exact bind_eq_ok.mpr ⟨s.objectiveTruncated, rfl, rfl⟩

theorem validate_of_blank (hid : s.taskId = makeTaskId s.sessionId s.sequence)
    (hblank : isBlank s.objective = true) :
    validateTaskStatePayload (.obj s.toPayload : Json F) = .error "state_objective_invalid" := by
  have htask : isBlank s.taskId = false := hid ▸ isBlank_makeTaskId _ _
  have hobjective : requiredText (s.toPayload (F := F)) "objective" "state_objective_invalid" =
      .error "state_objective_invalid" := if_pos hblank
  refine bind_eq_error.mpr (Or.inr ⟨(), rfl, ?_⟩)
  refine bind_eq_error.mpr (Or.inr ⟨_, requiredText_ok.mpr ⟨rfl, htask⟩, ?_⟩)
  exact bind_eq_error.mpr (Or.inl hobjective)

/-- **Only valid states are read.** -/
theorem valid_of_validate {payload : Json F} (h : validateTaskStatePayload payload = .ok s) :
    Valid s := by
  unfold validateTaskStatePayload at h
  cases payload with
  | obj members =>
    simp only [bind_eq_ok] at h
    obtain ⟨_, -, taskId, -, objective, hobjective, sessionId, hsessionId, sequence, hsequence, _,
      hid, origin, horigin, acceptedAt, -, originEventId, horiginEventId, resumed, hresumed,
      requestId, hrequestId, parent, hparent, amendments, hamendments, prior, hprior, truncated, -,
      h⟩ := h
    cases h
    have htask : taskId = makeTaskId sessionId sequence := by
      unfold checkTaskId at hid
      by_contra hne
      rw [if_neg hne] at hid
      cases hid
    exact
      { taskId := htask
        objective := (requiredText_ok.mp hobjective).2
        sessionId := (requiredText_ok.mp hsessionId).2
        sequence := (readSequence_ok.mp hsequence).2
        origin := (readOrigin_ok.mp horigin).2
        originEventId := (optionalStr_ok.mp horiginEventId).2
        resumedFromSessionId := (optionalStr_ok.mp hresumed).2
        requestId := (optionalStr_ok.mp hrequestId).2
        parentSessionId := (optionalStr_ok.mp hparent).2
        amendments := (stringList_ok.mp hamendments).2.2
        priorObjectives := (stringList_ok.mp hprior).2.2
        priorLength := (stringList_ok.mp hprior).2.1 _ rfl }
  | _ => cases h

end AlysisCode.Task
