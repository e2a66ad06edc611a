/-
The tables of requests keep their bounds.

Three facts are needed of them.  A request whose late responses are discarded is in the
list of retired ones, which is never longer than its limit; a pending request awaits
something; and, as long as the pending requests have not been dropped all at once, only
pending requests do.  The count of what is remembered follows from these.
-/
import AlysisCode.Mcp.StdioRequests

namespace AlysisCode.Mcp.Stdio.Requests

variable {r r' : Requests} {id i : JsonRpcId} {state : RequestState}

/-- The state of a request is one that a response may still end. -/
def Awaits (r : Requests) (id : JsonRpcId) : Prop :=
  r.states.lookup id = some .awaitingResponse ∨ r.states.lookup id = some .awaitingFollowUp

theorem discards_iff : r.discards id = true ↔
    ∃ st, r.states.lookup id = some st ∧ st.discardsLateResponses = true := by
  unfold discards
  rw [Option.any_eq_true]

theorem Awaits.not_discards (h : r.Awaits id) : r.discards id = false := by
  unfold discards
  rcases h with h | h
  · rw [h]
    rfl
  · rw [h]
    rfl

/-! ### Forgetting -/

/-- Some of the retired requests are forgotten, and nothing else. -/
def Forgets (states states' : Dict JsonRpcId RequestState) : Prop :=
  ∀ i, states'.lookup i = states.lookup i ∨
    (states'.lookup i = none ∧ (states.lookup i).any RequestState.discardsLateResponses = true)

theorem Forgets.refl (states : Dict JsonRpcId RequestState) : Forgets states states :=
  fun _ => .inl rfl

theorem forgets_erase {states : Dict JsonRpcId RequestState}
    (h : (states.lookup id).any RequestState.discardsLateResponses = true) :
    Forgets states (states.erase id) := by
  intro i
  by_cases hi : i = id
  · subst hi
    exact .inr ⟨AList.lookup_erase i states, h⟩
  · exact .inl (AList.lookup_erase_ne hi)

theorem Forgets.trans {a b c : Dict JsonRpcId RequestState} (hab : Forgets a b)
    (hbc : Forgets b c) : Forgets a c := by
  intro i
  rcases hbc i with hc | ⟨hc, hdis⟩
  · rw [hc]
    exact hab i
  · rcases hab i with hb | ⟨hb, -⟩
    · exact .inr ⟨hc, hb ▸ hdis⟩
    · rw [hb] at hdis
      cases hdis

theorem Forgets.lookup {a b : Dict JsonRpcId RequestState} (h : Forgets a b)
    (hb : b.lookup i = some state) : a.lookup i = some state := by
  rcases h i with heq | ⟨hnone, -⟩
  · rw [← heq]
    exact hb
  · rw [hnone] at hb
    cases hb

theorem Forgets.kept {a b : Dict JsonRpcId RequestState} (h : Forgets a b)
    (ha : a.lookup i = some state) (hstate : state.discardsLateResponses = false) :
    b.lookup i = some state := by
  rcases h i with heq | ⟨-, hdis⟩
  · rw [heq]
    exact ha
  · rw [ha, Option.any_some, hstate] at hdis
    cases hdis

theorem trim_spec (retired : List JsonRpcId) (states : Dict JsonRpcId RequestState) :
    (trim retired states).1.length ≤ retentionLimit ∧ Forgets states (trim retired states).2 ∧
      ∀ i ∈ retired, ((trim retired states).2.lookup i).any
        RequestState.discardsLateResponses = true → i ∈ (trim retired states).1 := by
  induction retired generalizing states with
  | nil => exact ⟨Nat.zero_le _, Forgets.refl _, fun i hi => by cases hi⟩
  | cons id rest ih =>
    unfold trim
    by_cases hlong : retentionLimit < (id :: rest).length
    · rw [if_pos hlong]
      by_cases hid : (states.lookup id).any RequestState.discardsLateResponses = true
      · rw [if_pos hid]
        obtain ⟨hlength, hforgets, hmem⟩ := ih (states.erase id)
        refine ⟨hlength, (forgets_erase hid).trans hforgets, fun i hi hdis => ?_⟩
        rcases List.mem_cons.mp hi with rfl | hi
        · obtain ⟨st, hst, -⟩ := Option.any_eq_true _ _ |>.mp hdis
          have hst := hforgets.lookup hst
          rw [AList.lookup_erase] at hst
          cases hst
        · exact hmem i hi hdis
      · rw [if_neg hid]
        obtain ⟨hlength, hforgets, hmem⟩ := ih states
        refine ⟨hlength, hforgets, fun i hi hdis => ?_⟩
        rcases List.mem_cons.mp hi with rfl | hi
        · obtain ⟨st, hst, hdisc⟩ := Option.any_eq_true _ _ |>.mp hdis
          exact absurd (by rw [hforgets.lookup hst]; exact hdisc) hid
        · exact hmem i hi hdis
    · rw [if_neg hlong]
      exact ⟨Nat.le_of_not_lt hlong, Forgets.refl _, fun i hi _ => hi⟩

/-! ### The invariant -/

/-- What holds of the tables at all times. -/
structure Kept (r : Requests) : Prop where
  short : r.retired.length ≤ retentionLimit
  retained : ∀ i, r.discards i = true → i ∈ r.retired
  stored : ∀ i, r.states.lookup i ≠ some .completed
  awaits : ∀ i ∈ r.pending, r.Awaits i

/-- Only pending requests await a response. -/
def Covered (r : Requests) : Prop := ∀ i, r.Awaits i → i ∈ r.pending

theorem Kept.cases (h : r.Kept) {st : RequestState} (hst : r.states.lookup i = some st) :
    r.Awaits i ∨ r.discards i = true := by
  cases st with
  | awaitingResponse => exact .inl (.inl hst)
  | awaitingFollowUp => exact .inl (.inr hst)
  | completed => exact absurd hst (h.stored i)
  | responseTimedOut | followUpTimedOut | cancelled =>
    exact .inr (discards_iff.mpr ⟨_, hst, rfl⟩)

theorem kept_empty : Kept ⟨∅, ∅, []⟩ where
  short := Nat.zero_le _
  retained := fun i h => by
    obtain ⟨st, hst, -⟩ := discards_iff.mp h
    rw [AList.lookup_empty] at hst
    cases hst
  stored := fun i h => by
    rw [AList.lookup_empty] at h
    cases h
  awaits := fun i h => absurd h (AList.notMem_empty i)

/-- **What is remembered stays within the pending requests and the limit.** -/
theorem Kept.bounded (h : r.Kept) (hcov : r.Covered) :
    r.states.keys.length ≤ r.pending.keys.length + retentionLimit := by
  have hsub : r.states.keys ⊆ r.pending.keys ++ r.retired := by
    intro i hi
    obtain ⟨st, hst⟩ := Option.isSome_iff_exists.mp (AList.lookup_isSome.mpr (AList.mem_keys.mpr hi))
    rcases h.cases hst with hawaits | hdis
    · exact List.mem_append_left _ (AList.mem_keys.mp (hcov i hawaits))
    · exact List.mem_append_right _ (h.retained i hdis)
  have hle := (List.subperm_of_subset r.states.keys_nodup hsub).length_le
  rw [List.length_append] at hle
  have := h.short
  omega

/-! ### What a step does to the tables -/

theorem setRequestState_awaiting (hstate : state = .awaitingResponse ∨ state = .awaitingFollowUp) :
    r.setRequestState id state = { r with states := r.states.insert id state } := by
  unfold setRequestState
  rcases hstate with rfl | rfl
  · rfl
  · rfl

theorem lookup_ended (hstate : state = .completed ∨ state.discardsLateResponses = true) :
    ∃ states : Dict JsonRpcId RequestState, Forgets states (r.setRequestState id state).states ∧
      (∀ i, i ≠ id → states.lookup i = r.states.lookup i) ∧
      ∀ st, states.lookup id = some st → st = state ∧ state.discardsLateResponses = true := by
  unfold setRequestState
  by_cases hc : state = .completed
  · rw [if_pos hc]
    refine ⟨_, Forgets.refl _, fun i hi => AList.lookup_erase_ne hi, fun st hst => ?_⟩
    rw [AList.lookup_erase] at hst
    cases hst
  · have hdis := hstate.resolve_left hc
    rw [if_neg hc, if_pos hdis]
    refine ⟨_, (trim_spec _ _).2.1, fun i hi => AList.lookup_insert_ne hi, fun st hst => ?_⟩
    rw [AList.lookup_insert] at hst
    exact ⟨(Option.some.inj hst).symm, hdis⟩

theorem pending_setRequestState : (r.setRequestState id state).pending = r.pending := by
  unfold setRequestState
  split
  · rfl
  · split
    · rfl
    · rfl

theorem lookup_of_ended (hstate : state = .completed ∨ state.discardsLateResponses = true)
    {st : RequestState} (h : (r.setRequestState id state).states.lookup i = some st) :
    (i ≠ id ∧ r.states.lookup i = some st) ∨ (i = id ∧ st.discardsLateResponses = true) := by
  obtain ⟨states, hforgets, hother, hself⟩ := @lookup_ended r id state hstate
  have hst := hforgets.lookup h
  by_cases hi : i = id
  · subst hi
    obtain ⟨rfl, hdis⟩ := hself st hst
    exact .inr ⟨rfl, hdis⟩
  · exact .inl ⟨hi, (hother i hi) ▸ hst⟩

theorem awaits_ended (hstate : state = .completed ∨ state.discardsLateResponses = true) :
    (r.setRequestState id state).Awaits i ↔ i ≠ id ∧ r.Awaits i := by
  obtain ⟨states, hforgets, hother, -⟩ := @lookup_ended r id state hstate
  constructor
  · rintro (h | h)
    · rcases lookup_of_ended hstate h with ⟨hi, hr⟩ | ⟨-, hdis⟩
      · exact ⟨hi, .inl hr⟩
      · cases hdis
    · rcases lookup_of_ended hstate h with ⟨hi, hr⟩ | ⟨-, hdis⟩
      · exact ⟨hi, .inr hr⟩
      · cases hdis
  · rintro ⟨hi, h | h⟩
    · exact .inl (hforgets.kept ((hother i hi).trans h) rfl)
    · exact .inr (hforgets.kept ((hother i hi).trans h) rfl)

theorem retained_ended (h : r.Kept) (hstate : state = .completed ∨
      state.discardsLateResponses = true) :
    (r.setRequestState id state).retired.length ≤ retentionLimit ∧
      ∀ i, (r.setRequestState id state).discards i = true →
        i ∈ (r.setRequestState id state).retired := by
  unfold discards setRequestState
  by_cases hc : state = .completed
  · rw [if_pos hc]
    refine ⟨h.short, fun i hi => h.retained i ?_⟩
    obtain ⟨st, hst, hdis⟩ := Option.any_eq_true _ _ |>.mp hi
    by_cases heq : i = id
    · subst heq
      rw [AList.lookup_erase] at hst
      cases hst
    · rw [AList.lookup_erase_ne heq] at hst
      exact discards_iff.mpr ⟨st, hst, hdis⟩
  · rw [if_neg hc, if_pos (hstate.resolve_left hc)]
    obtain ⟨hlength, hforgets, hmem⟩ := trim_spec (r.retired ++ [id]) (r.states.insert id state)
    refine ⟨hlength, fun i hi => hmem i ?_ hi⟩
    obtain ⟨st, hst, hdis⟩ := Option.any_eq_true _ _ |>.mp hi
    by_cases heq : i = id
    · exact List.mem_append_right _ (List.mem_singleton.mpr heq)
    · have hold := hforgets.lookup hst
      rw [AList.lookup_insert_ne heq] at hold
      exact List.mem_append_left _ (h.retained i (discards_iff.mpr ⟨st, hold, hdis⟩))

/-- A request ends: it is no longer pending, and remembered as ended or not at all. -/
def withdraw (r : Requests) (id : JsonRpcId) (state : RequestState) : Requests :=
  (r.popPending id).setRequestState id state

theorem pending_withdraw : (r.withdraw id state).pending = r.pending.erase id :=
  pending_setRequestState

theorem Kept.withdraw (h : r.Kept)
    (hstate : state = .completed ∨ state.discardsLateResponses = true) :
    (r.withdraw id state).Kept := by
  have hpop : (r.popPending id).Kept :=
    ⟨h.short, h.retained, h.stored, fun i hi => h.awaits i (AList.mem_erase.mp hi).2⟩
  obtain ⟨hshort, hretained⟩ := @retained_ended _ id state hpop hstate
  refine ⟨hshort, hretained, fun i hi => ?_, fun i hi => ?_⟩
  · rcases lookup_of_ended hstate hi with ⟨-, hold⟩ | ⟨-, hdis⟩
    · exact h.stored i hold
    · cases hdis
  · rw [pending_withdraw, AList.mem_erase] at hi
    exact (awaits_ended hstate).mpr ⟨hi.1, h.awaits i hi.2⟩

theorem Covered.withdraw (h : r.Covered)
    (hstate : state = .completed ∨ state.discardsLateResponses = true) :
    (r.withdraw id state).Covered := by
  intro i hi
  obtain ⟨hne, hold⟩ := (awaits_ended hstate).mp hi
  rw [pending_withdraw, AList.mem_erase]
  exact ⟨hne, h i hold⟩

theorem Kept.retireOnTimeout (h : r.Kept) (observed : Bool) :
    ∃ state, state.discardsLateResponses = true ∧
      r.retireOnTimeout id observed = r.withdraw id state := by
  unfold Requests.retireOnTimeout
  rw [if_neg fun hdone => h.stored id hdone.2]
  split
  · exact ⟨_, rfl, rfl⟩
  · exact ⟨_, rfl, rfl⟩

theorem lookup_insert_cases {ν : Type} {d : Dict JsonRpcId ν} {v w : ν}
    (h : (d.insert id v).lookup i = some w) : (i = id ∧ w = v) ∨ (i ≠ id ∧ d.lookup i = some w) := by
  by_cases hi : i = id
  · subst hi
    rw [AList.lookup_insert] at h
    exact .inl ⟨rfl, (Option.some.inj h).symm⟩
  · rw [AList.lookup_insert_ne hi] at h
    exact .inr ⟨hi, h⟩

theorem Kept.setAwaiting (h : r.Kept) (pending : Dict JsonRpcId Nat)
    (hpending : ∀ i ∈ pending, i = id ∨ i ∈ r.pending)
    (hstate : state = .awaitingResponse ∨ state = .awaitingFollowUp) :
    Kept { r with pending := pending, states := r.states.insert id state } where
  short := h.short
  retained := fun i hi => by
    obtain ⟨st, hst, hdis⟩ := discards_iff.mp hi
    rcases lookup_insert_cases hst with ⟨-, rfl⟩ | ⟨-, hold⟩
    · rcases hstate with rfl | rfl
      · cases hdis
      · cases hdis
    · exact h.retained i (discards_iff.mpr ⟨st, hold, hdis⟩)
  stored := fun i hi => by
    rcases lookup_insert_cases hi with ⟨-, rfl⟩ | ⟨-, hold⟩
    · rcases hstate with heq | heq
      · cases heq
      · cases heq
    · exact h.stored i hold
  awaits := fun i hi => by
    unfold Awaits
    by_cases heq : i = id
    · subst heq
      rw [AList.lookup_insert, Option.some.injEq, Option.some.injEq]
      exact hstate
    · rw [AList.lookup_insert_ne heq]
      exact h.awaits i ((hpending i hi).resolve_left heq)

theorem Covered.setAwaiting (h : r.Covered) (pending : Dict JsonRpcId Nat) (hid : id ∈ pending)
    (hpending : ∀ i ∈ r.pending, i ∈ pending) :
    Covered { r with pending := pending, states := r.states.insert id state } := by
  intro i hi
  by_cases heq : i = id
  · subst heq
    exact hid
  · refine hpending i (h i ?_)
    unfold Awaits at hi ⊢
    rwa [AList.lookup_insert_ne heq] at hi

end AlysisCode.Mcp.Stdio.Requests
