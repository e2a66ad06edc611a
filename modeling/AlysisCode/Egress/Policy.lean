/-
Which destinations the egress proxy lets through.

There are three policies, each meant to be wider than the one before: public addresses only, public
and loopback, anything local.  A policy judges the whole set of addresses that a name resolves to,
and an owned preview origin lowers the first of them for its own set.

The policies are nested but for one address: loopback of version 6 also lies in a reserved block,
which the widest policy turns away.
-/
import AlysisCode.Egress.Request
import AlysisCode.Library.Runs

namespace AlysisCode.Egress

open Ip Runs

/-! ### Addresses -/

def nat64Networks : List (Network 128) := [net6 [0x64, 0xff9b] 96, net6 [0x64, 0xff9b, 1] 48]

def isTransitionAddress : Address → Bool
  | .v4 _ => false
  | .v6 ip _ =>
    (Address.ipv4Mapped ip).isSome || (Address.sixtofour ip).isSome ||
      (Address.teredo ip).isSome || nat64Networks.any (·.contains ip)

variable (p : Address → Bool) (address : Address) {ownedPreviewAllowed : Bool}

/-- `_is_public_address`, of the address that the value is read as -/
def isPublicAddress : Bool :=
  if isTransitionAddress address then false
  else
    address.isGlobal && !(address.isPrivate || address.isLoopback || address.isLinkLocal ||
      address.isMulticast || address.isReserved || address.isUnspecified)

def isAllowedLocalAddress : Bool :=
  if isTransitionAddress address then false
  else !(address.isMulticast || address.isReserved || address.isUnspecified)

def isPublicOrLoopbackAddress : Bool :=
  if isTransitionAddress address then false
  else address.isLoopback || isPublicAddress address

/-- Each predicate reads its value as an address first. -/
def judge (p : Address → Bool) (value : List Char) : Except Failure Bool :=
  match ipAddress value with
  | some address => return p address
  | none => throw .exception

/-! ### The decision -/

/-- The policy a proxy is made with. -/
structure Policy where
  allowLocalDestinations : Bool
  localDestinationsLoopbackOnly : Bool
  explicit : localDestinationsLoopbackOnly = true → allowLocalDestinations = true
  deriving DecidableEq

/-- The condition at the end of `_resolve_public`. -/
def checkDestination (policy : Policy) (ownedPreviewAllowed denied : Bool)
    (values : List (List Char)) : Except Failure Unit := do
  let ownedPreviewAddressesSafe ←
    if values = [] then pure false else values.allM (judge isAllowedLocalAddress)
  if values = [] ∨ denied then throw (.request 403)
  if ¬ policy.allowLocalDestinations ∧ ¬ (ownedPreviewAllowed ∧ ownedPreviewAddressesSafe) then
    if ← values.anyM (judge (!isPublicAddress ·)) then throw (.request 403)
  if policy.allowLocalDestinations ∧ policy.localDestinationsLoopbackOnly then
    if ← values.anyM (judge (!isPublicOrLoopbackAddress ·)) then throw (.request 403)
  if policy.allowLocalDestinations ∧ ¬ policy.localDestinationsLoopbackOnly then
    if ← values.anyM (judge (!isAllowedLocalAddress ·)) then throw (.request 403)

/-- What a policy asks of the set of addresses of a destination. -/
def Policy.Admits (policy : Policy) (ownedPreviewAllowed : Bool) (addresses : List Address) : Prop :=
  if policy.allowLocalDestinations then
    if policy.localDestinationsLoopbackOnly then
      ∀ a ∈ addresses, isPublicOrLoopbackAddress a = true
    else ∀ a ∈ addresses, isAllowedLocalAddress a = true
  else
    (ownedPreviewAllowed = true ∧ ∀ a ∈ addresses, isAllowedLocalAddress a = true) ∨
      ∀ a ∈ addresses, isPublicAddress a = true

/-- The second policy is the first or a wider one. -/
def Policy.Widens (narrow wide : Policy) : Prop :=
  (narrow.allowLocalDestinations = true → wide.allowLocalDestinations = true) ∧
    (wide.localDestinationsLoopbackOnly = true →
      narrow.allowLocalDestinations = true → narrow.localDestinationsLoopbackOnly = true)

theorem judge_text : judge p address.text = .ok (p address) := by
  rw [judge, ipAddress_text]
  rfl

theorem allM_judge (addresses : List Address) :
    (addresses.map Address.text).allM (judge p) = .ok (addresses.all p) := by
  induction addresses with
  | nil => rfl
  | cons a rest ih =>
    rw [List.map_cons, List.allM, judge_text, List.all_cons]
    cases h : p a with
    | true => exact ih
    | false => rfl

theorem anyM_judge (addresses : List Address) :
    (addresses.map Address.text).anyM (judge p) = .ok (addresses.any p) := by
  induction addresses with
  | nil => rfl
  | cons a rest ih =>
    rw [List.map_cons, List.anyM, judge_text, List.any_cons]
    cases h : p a with
    | true => rfl
    | false => exact ih

variable {addresses : List Address} {a : Address}

theorem any_not_eq_false {p : Address → Bool} :
    addresses.any (!p ·) = false ↔ ∀ a ∈ addresses, p a = true := by
  simp

theorem rejectIf_ok_iff {p : Address → Bool} :
    (do if ← (addresses.map Address.text).anyM (judge (!p ·)) then throw (.request 403) :
      Except Failure Unit) = .ok () ↔ ∀ a ∈ addresses, p a = true := by
  rw [anyM_judge]
  cases h : addresses.any (!p ·) with
  | true =>
    refine iff_of_false (fun hc => by cases hc) fun hall => ?_
    rw [any_not_eq_false.mpr hall] at h
    cases h
  | false => exact iff_of_true rfl (any_not_eq_false.mp h)

/-- **What `_resolve_public` lets through**: a set that is not empty, holds no denied endpoint and
satisfies the policy as a whole. -/
theorem checkDestination_ok_iff {policy : Policy} {denied : Bool} :
    checkDestination policy ownedPreviewAllowed denied (addresses.map Address.text) = .ok () ↔
      addresses ≠ [] ∧ denied = false ∧ policy.Admits ownedPreviewAllowed addresses := by
  by_cases hnil : addresses = []
  · subst hnil
    exact iff_of_false (fun hc => by cases hc) fun hc => hc.1 rfl
  have hvalues : addresses.map Address.text ≠ [] := by simpa using hnil
  unfold checkDestination Policy.Admits
  rw [if_neg hvalues, allM_judge, ok_bind]
  cases denied with
  | true => exact iff_of_false (fun hc => by simp [bind, Except.bind, throw, throwThe,
      MonadExceptOf.throw] at hc) fun hc => by cases hc.2.1
  | false =>
    cases hlocal : policy.allowLocalDestinations with
    | true =>
      cases honly : policy.localDestinationsLoopbackOnly with
      | true | false => simpa [hlocal, honly, hvalues, hnil] using rejectIf_ok_iff
    | false =>
      have honly : policy.localDestinationsLoopbackOnly = false := by
        by_contra hc
        have := policy.explicit (by simpa using hc)
        rw [hlocal] at this
        cases this
      by_cases hpreview : ownedPreviewAllowed = true ∧
          ∀ a ∈ addresses, isAllowedLocalAddress a = true
      · have hsafe : addresses.all isAllowedLocalAddress = true :=
          List.all_eq_true.mpr hpreview.2
        rw [hsafe]
        simp only [honly, hvalues, hpreview.1, Bool.false_eq_true, not_false_eq_true, false_or,
          and_self, not_true_eq_false, and_false, false_and, if_false]
        exact iff_of_true rfl ⟨hnil, trivial, .inl ⟨trivial, hpreview.2⟩⟩
      · have hreject : ¬ (ownedPreviewAllowed = true ∧
            addresses.all isAllowedLocalAddress = true) := by
          rwa [List.all_eq_true]
        simpa [honly, hvalues, hnil, hpreview, hreject] using rejectIf_ok_iff

/-! ### Nesting -/

/-- The three policies. -/
def Policy.publicOnly : Policy := ⟨false, false, fun h => h⟩

def Policy.loopbackOnly : Policy := ⟨true, true, fun h => h⟩

def Policy.anyLocal : Policy := ⟨true, false, fun _ => rfl⟩

/-- The loopback address of version 6, in whatever zone. -/
def IsLoopback6 : Address → Prop
  | .v4 _ => False
  | .v6 ip _ => ip.toNat = 1

instance (address : Address) : Decidable (IsLoopback6 address) := by
  cases address <;> unfold IsLoopback6 <;> infer_instance

/-- Each policy lets through what the narrower ones do. -/
def Nested : Prop :=
  (isPublicAddress address = true → isPublicOrLoopbackAddress address = true) ∧
    (isPublicOrLoopbackAddress address = true → isAllowedLocalAddress address = true)

theorem not_transition_of_publicOrLoopback (h : isPublicOrLoopbackAddress a = true) :
    isTransitionAddress a = false := by
  cases htrans : isTransitionAddress a with
  | false => rfl
  | true =>
    rw [isPublicOrLoopbackAddress, if_pos htrans] at h
    cases h

theorem publicOrLoopback_of_public (h : isPublicAddress a = true) :
    isPublicOrLoopbackAddress a = true := by
  have htrans : isTransitionAddress a = false := by
    cases htrans : isTransitionAddress a with
    | false => rfl
    | true =>
      rw [isPublicAddress, if_pos htrans] at h
      cases h
  rw [isPublicOrLoopbackAddress, htrans, h]
  simp

theorem allowedLocal_of_public (h : isPublicAddress a = true) : isAllowedLocalAddress a = true := by
  unfold isPublicAddress at h
  unfold isAllowedLocalAddress
  split at h
  · cases h
  · next htrans =>
    rw [if_neg htrans]
    simp only [Bool.and_eq_true, Bool.not_eq_true', Bool.or_eq_false_iff] at h ⊢
    exact ⟨⟨h.2.1.1.2, h.2.1.2⟩, h.2.2⟩

theorem allowedLocal_iff_of_loopback (htrans : isTransitionAddress a = false)
    (h : a.isLoopback = true) : isAllowedLocalAddress a = true ↔ ¬ IsLoopback6 a := by
  unfold isAllowedLocalAddress
  rw [htrans]
  cases a with
  | v4 ip =>
    obtain ⟨hmulticast, hreserved, hunspecified⟩ := Address.loopback4 h
    rw [hmulticast, hreserved, hunspecified]
    exact iff_of_true rfl id
  | v6 ip scopeId =>
    rw [Address.reserved_of_loopback6 h]
    refine iff_of_false (by simp) fun hne => hne ?_
    simpa [Address.isLoopback, IsLoopback6] using h

theorem publicOrLoopback_of_loopback6 (h : IsLoopback6 a) :
    isPublicOrLoopbackAddress a = true ∧ a.isLoopback = true := by
  cases a with
  | v4 ip => exact h.elim
  | v6 ip scopeId =>
    have hone : ip.toNat = 1 := h
    have hip : ip = 1#128 := BitVec.eq_of_toNat_eq hone
    subst hip
    have hzone : isPublicOrLoopbackAddress (.v6 1#128 scopeId) =
        isPublicOrLoopbackAddress (.v6 1#128 none) := rfl
    rw [hzone]
    exact ⟨by decide +kernel, rfl⟩

theorem allowedLocal_iff_of_publicOrLoopback (h : isPublicOrLoopbackAddress a = true) :
    isAllowedLocalAddress a = true ↔ ¬ IsLoopback6 a := by
  have htrans := not_transition_of_publicOrLoopback h
  rw [isPublicOrLoopbackAddress, htrans, if_neg (by decide), Bool.or_eq_true] at h
  rcases h with h | h
  · exact allowedLocal_iff_of_loopback htrans h
  · refine iff_of_true (allowedLocal_of_public h) fun hloop => ?_
    have hnot := (allowedLocal_iff_of_loopback htrans
      (publicOrLoopback_of_loopback6 hloop).2).mp (allowedLocal_of_public h)
    exact hnot hloop

theorem nested_iff_not_loopback6 (a : Address) : Nested a ↔ ¬ IsLoopback6 a := by
  constructor
  · intro h hloop
    have hlocal := h.2 (publicOrLoopback_of_loopback6 hloop).1
    exact (allowedLocal_iff_of_publicOrLoopback (publicOrLoopback_of_loopback6 hloop).1).mp
      hlocal hloop
  · intro hne
    exact ⟨publicOrLoopback_of_public, fun h => (allowedLocal_iff_of_publicOrLoopback h).mpr hne⟩

/-- Widening the policy blocks no destination with these addresses. -/
def NeverBlocks (ownedPreviewAllowed : Bool) (addresses : List Address) : Prop :=
  ∀ narrow wide : Policy, narrow.Widens wide → narrow.Admits ownedPreviewAllowed addresses →
    wide.Admits ownedPreviewAllowed addresses

def HoldsLoopback6 (addresses : List Address) : Prop :=
  (∀ a ∈ addresses, isPublicOrLoopbackAddress a = true) ∧ ∃ a ∈ addresses, IsLoopback6 a

/-- The addresses are let in for an owned preview only: one is neither public nor loopback. -/
def OwedToPreview (ownedPreviewAllowed : Bool) (addresses : List Address) : Prop :=
  ownedPreviewAllowed = true ∧ (∀ a ∈ addresses, isAllowedLocalAddress a = true) ∧
    ¬ ∀ a ∈ addresses, isPublicOrLoopbackAddress a = true

theorem Policy.cases (policy : Policy) :
    policy = publicOnly ∨ policy = loopbackOnly ∨ policy = anyLocal := by
  obtain ⟨allow, only, explicit⟩ := policy
  cases allow with
  | true =>
    cases only with
    | true => exact .inr (.inl rfl)
    | false => exact .inr (.inr rfl)
  | false =>
    cases only with
    | true => cases explicit rfl
    | false => exact .inl rfl

/-- A wider policy blocks a destination in two cases only. -/
theorem neverBlocks_iff : NeverBlocks ownedPreviewAllowed addresses ↔
      ¬ HoldsLoopback6 addresses ∧ ¬ OwedToPreview ownedPreviewAllowed addresses := by
  constructor
  · intro h
    refine ⟨?_, ?_⟩
    · rintro ⟨hall, a, ha, hloop⟩
      have hlocal := h .loopbackOnly .anyLocal ⟨id, fun hc => by cases hc⟩ hall a ha
      exact (allowedLocal_iff_of_publicOrLoopback (hall a ha)).mp hlocal hloop
    · rintro ⟨hpreview, hlocal, hnot⟩
      exact hnot (h .publicOnly .loopbackOnly ⟨fun _ => rfl, fun _ hc => hc⟩
        (.inl ⟨hpreview, hlocal⟩))
  · rintro ⟨hloop, howed⟩ narrow wide hwide hadmits
    have hlocal : (∀ a ∈ addresses, isPublicOrLoopbackAddress a = true) →
        ∀ a ∈ addresses, isAllowedLocalAddress a = true := by
      intro hall a ha
      exact (allowedLocal_iff_of_publicOrLoopback (hall a ha)).mpr fun hc => hloop ⟨hall, a, ha, hc⟩
    rcases narrow.cases with rfl | rfl | rfl
    · rcases wide.cases with rfl | rfl | rfl
      · exact hadmits
      · show ∀ a ∈ addresses, isPublicOrLoopbackAddress a = true
        rcases hadmits with ⟨hpreview, hallowed⟩ | hpublic
        · by_contra hnot
          exact howed ⟨hpreview, hallowed, hnot⟩
        · exact fun a ha => publicOrLoopback_of_public (hpublic a ha)
      · show ∀ a ∈ addresses, isAllowedLocalAddress a = true
        rcases hadmits with ⟨-, hallowed⟩ | hpublic
        · exact hallowed
        · exact fun a ha => allowedLocal_of_public (hpublic a ha)
    · rcases wide.cases with rfl | rfl | rfl
      · cases hwide.1 rfl
      · exact hadmits
      · exact hlocal hadmits
    · rcases wide.cases with rfl | rfl | rfl
      · cases hwide.1 rfl
      · cases hwide.2 rfl rfl
      · exact hadmits

end AlysisCode.Egress
