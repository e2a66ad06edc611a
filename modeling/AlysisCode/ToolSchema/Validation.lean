/-
Whether an instance is valid does not change when a tracked schema is compacted.

Schemas that follow have following schemas at the same places, so the parts of an object of
keywords come to the same, references included; the induction is on the fuel.
-/
import AlysisCode.ToolSchema.Follow

namespace AlysisCode.ToolSchema

open JsonSchema

variable {F R : Type}

/-! ### Members -/

variable {α : Type} {root : Json F} {β γ : Type} {root' : Json F} {keyword : String}
  {r : α → β → Prop} {xs : List α} {ys : List β}

theorem filterMap_members {s s' : Json F} (h : Follows s s') {g g' : String × Json F → Option γ}
    (hremark : ∀ m, role m.1 = .remark → g m = none ∧ g' m = none)
    (hvalue : ∀ keyword v v', ValueFollows keyword v v' → g' (keyword, v') = g (keyword, v)) :
    ((members? s').getD []).filterMap g' = ((members? s).getD []).filterMap g := by
  rcases h with rfl | ⟨b, htracked, rfl⟩
  · exact List.filterMap_congr fun m _ => hvalue _ _ _ (ValueFollows.refl m.1 m.2)
  · cases s with
    | obj members =>
      rw [tracked, trackedMembers_iff] at htracked
      show (compactMembers b members).filterMap g' = members.filterMap g
      rw [compactMembers_eq, List.filterMap_map, List.filterMap_filter]
      apply List.filterMap_congr
      intro m hm
      by_cases hdrops : drops b m.1 = true
      · rw [if_neg (by simp [hdrops]), (hremark m (role_of_drops hdrops)).1]
      · rw [if_pos (by simpa using hdrops)]
        exact hvalue _ _ _ (valueFollows_compactValue (htracked m hm))
    | null | bool | int | float | str | arr => rfl

theorem lookup_members {s s' : Json F} (h : Follows s s') (hrole : role keyword ≠ .remark) :
    Option.Rel (ValueFollows keyword) ((members? s).bind (·.lookup keyword))
      ((members? s').bind (·.lookup keyword)) := by
  rcases h with rfl | ⟨b, htracked, rfl⟩
  · exact option_rel_refl (ValueFollows.refl keyword) _
  · cases s with
    | obj members =>
      rw [tracked, trackedMembers_iff] at htracked
      show Option.Rel _ (members.lookup keyword) ((compactMembers b members).lookup keyword)
      have hdrops : ¬drops b keyword = true := fun h => hrole (role_of_drops h)
      rw [lookup_compactMembers, if_neg hdrops]
      cases hv : members.lookup keyword with
      | none => exact .none
      | some v =>
        have hmem : (keyword, v) ∈ members := by
          obtain ⟨l, l', rfl, _⟩ := List.lookup_eq_some_iff.mp hv
          simp
        exact .some (valueFollows_compactValue (htracked _ hmem))
    | null | bool | int | float | str | arr => exact .none

theorem lookup_forall₂ {r : Json F → Json F → Prop} {members members' : List (String × Json F)}
    (h : List.Forall₂ (fun m m' => m'.1 = m.1 ∧ r m.2 m'.2) members members') (name : String) :
    Option.Rel r (members.lookup name) (members'.lookup name) := by
  induction h with
  | nil => exact .none
  | @cons m m' rest rest' hm _ ih =>
    obtain ⟨key, v⟩ := m
    obtain ⟨key', v'⟩ := m'
    obtain rfl : key' = key := hm.1
    rw [List.lookup_cons, List.lookup_cons]
    cases name == key' with
    | true => exact .some hm.2
    | false => exact ih

theorem getElem?_forall₂ {items items' : List (Json F)} (h : List.Forall₂ Follows items items') :
    ∀ i : Nat, Option.Rel Follows items[i]? items'[i]? := by
  induction h with
  | nil => exact fun _ => .none
  | cons hs _ ih =>
    intro i
    cases i with
    | zero => exact .some hs
    | succ i => exact ih i

theorem rel_bind {r : α → α → Prop} {q : β → β → Prop} {o o' : Option α} {f f' : α → Option β}
    (h : Option.Rel r o o') (hf : ∀ a a', r a a' → Option.Rel q (f a) (f' a')) :
    Option.Rel q (o.bind f) (o'.bind f') := by
  cases h with
  | none => exact .none
  | some h => exact hf _ _ h

/-! ### Places -/

theorem lookupUnder_follows {path : Path} {v v' : Json F}
    (ih : ∀ path' : Path, path'.length ≤ path.length → ∀ s s' : Json F, Follows s s' →
      Option.Rel Follows (lookup s path') (lookup s' path')) (h : ValueFollows keyword v v') :
    Option.Rel Follows (lookupUnder (role keyword) v path)
      (lookupUnder (role keyword) v' path) := by
  unfold ValueFollows at h
  cases hrole : role keyword with
  | schema =>
    rw [hrole] at h
    exact ih path le_rfl v v' h
  | schemas =>
    rw [hrole] at h
    match path with
    | [] | .key _ :: _ => exact .none
    | .index i :: path =>
      apply rel_bind (rel_bind h fun items items' hitems => getElem?_forall₂ hitems i)
      exact fun s s' hs => ih path (Nat.le_succ _) s s' hs
  | either =>
    rw [hrole] at h
    obtain ⟨hitems, hfollows⟩ := h
    unfold ItemsFollow at hitems
    unfold lookupUnder
    dsimp only
    cases hv : items? v with
    | none =>
      rw [hv] at hitems
      cases hv' : items? v' with
      | none => exact ih path le_rfl v v' hfollows
      | some items' =>
        rw [hv'] at hitems
        exact absurd hitems Option.not_rel_none_some
    | some items =>
      rw [hv] at hitems
      cases hv' : items? v' with
      | none =>
        rw [hv'] at hitems
        exact absurd hitems Option.not_rel_some_none
      | some items' =>
        rw [hv', Option.rel_some_some] at hitems
        match path with
        | [] | .key _ :: _ => exact .none
        | .index i :: path =>
          apply rel_bind (getElem?_forall₂ hitems i)
          exact fun s s' hs => ih path (Nat.le_succ _) s s' hs
  | map =>
    rw [hrole] at h
    match path with
    | [] | .index _ :: _ => exact .none
    | .key name :: path =>
      apply rel_bind (rel_bind h fun members members' hm => lookup_forall₂ hm name)
      exact fun s s' hs => ih path (Nat.le_succ _) s s' hs
  | dependencies =>
    rw [hrole] at h
    match path with
    | [] | .index _ :: _ => exact .none
    | .key name :: path =>
      apply rel_bind (rel_bind h fun members members' hm => lookup_forall₂ hm name)
      intro t t' ht
      unfold DependencyFollows at ht
      by_cases hitems : (items? t).isSome = true
      · rw [if_pos hitems] at ht
        subst ht
        rw [if_pos hitems]
        exact .none
      · rw [if_neg hitems] at ht
        rw [if_neg hitems, if_neg (by simpa using ht.1)]
        exact ih path (Nat.le_succ _) t t' ht.2
  | reference | data | remark => exact .none

theorem lookup_follows (path : Path) : ∀ s s' : Json F, Follows s s' →
    Option.Rel Follows (lookup s path) (lookup s' path) := by
  induction hn : path.length using Nat.strong_induction_on generalizing path with
  | _ n ih =>
    intro s s' h
    match path with
    | [] =>
      rw [lookup, lookup]
      exact .some h
    | .index _ :: _ =>
      rw [lookup, lookup]
      exact .none
    | .key keyword :: path =>
      rw [lookup_key, lookup_key]
      by_cases hremark : role keyword = .remark
      · have hnone : ∀ v : Json F, lookupUnder (role keyword) v path = none := by
          intro v
          rw [hremark]
          rfl
        have hbind : ∀ o : Option (Json F), o.bind (lookupUnder (role keyword) · path) = none := by
          intro o
          cases o with
          | none => rfl
          | some v => exact hnone v
        rw [hbind, hbind]
        exact .none
      · apply rel_bind (lookup_members h hremark)
        intro v v' hv
        refine lookupUnder_follows ?_ hv
        intro path' hpath'
        have hlt : path'.length < n := by
          rw [← hn, List.length_cons]
          omega
        exact ih path'.length hlt path' rfl

/-- The references and the data at a place are the same. -/
theorem see_follows (h : Follows root root') : see root' = see root := by
  funext path keyword
  have hread : role keyword = .reference ∨ role keyword = .data →
      ((lookup root' path).bind members?).bind (·.lookup keyword) =
        ((lookup root path).bind members?).bind (·.lookup keyword) := by
    intro hrole
    rw [Option.bind_assoc, Option.bind_assoc]
    have hremark : role keyword ≠ .remark := by
      rcases hrole with h | h <;> rw [h] <;> decide
    have hrel := rel_bind (lookup_follows path root root' h) fun s s' hs =>
      lookup_members hs hremark
    have heq : ∀ v v' : Json F, ValueFollows keyword v v' → v' = v := by
      intro v v' hv
      unfold ValueFollows at hv
      rcases hrole with h | h <;> rw [h] at hv <;> exact hv
    generalize ((lookup root path).bind fun s => (members? s).bind (·.lookup keyword)) = o at hrel ⊢
    generalize ((lookup root' path).bind fun s => (members? s).bind (·.lookup keyword)) = o'
      at hrel ⊢
    cases hrel with
    | none => rfl
    | some hv => rw [heq _ _ hv]
  unfold see
  cases hrole : role keyword with
  | reference => exact hread (.inl hrole)
  | data => exact hread (.inr hrole)
  | schema | schemas | either | map | dependencies | remark => rfl

/-! ### Evaluation -/

theorem mapIdx_forall₂ (h : List.Forall₂ r xs ys) : ∀ {f : Nat → α → γ} {g : Nat → β → γ},
    (∀ i x y, r x y → g i y = f i x) → ys.mapIdx g = xs.mapIdx f := by
  induction h with
  | nil => exact fun _ => rfl
  | cons hxy _ ih =>
    intro f g hfg
    rw [List.mapIdx_cons, List.mapIdx_cons, hfg 0 _ _ hxy]
    congr 1
    exact ih fun i => hfg (i + 1)

theorem map_forall₂ (h : List.Forall₂ r xs ys) {f : α → γ} {g : β → γ}
    (hfg : ∀ x y, r x y → g y = f x) :
    ys.map g = xs.map f := by
  induction h with
  | nil => rfl
  | cons hxy _ ih => rw [List.map_cons, List.map_cons, hfg _ _ hxy, ih]

theorem part_follows {M : Type} {mean mean' : Path → Json F → M}
    (hmean : ∀ place s s', Follows s s' → mean' place s' = mean place s) (place : Path)
    {v v' : Json F} (h : ValueFollows keyword v v') :
    part mean' place keyword v' = part mean place keyword v := by
  unfold ValueFollows at h
  unfold part
  cases hrole : role keyword with
  | schema =>
    rw [hrole] at h
    dsimp only
    rw [hmean _ _ _ h]
  | schemas =>
    rw [hrole] at h
    unfold ItemsFollow at h
    generalize items? v = items at h ⊢
    generalize items? v' = items' at h ⊢
    cases h with
    | none => rfl
    | some h =>
      dsimp only
      congr 2
      exact mapIdx_forall₂ h fun i s s' hs => hmean _ s s' hs
  | either =>
    rw [hrole] at h
    obtain ⟨hitems, hfollows⟩ := h
    unfold ItemsFollow at hitems
    generalize items? v = items at hitems ⊢
    generalize items? v' = items' at hitems ⊢
    cases hitems with
    | none =>
      dsimp only
      rw [hmean _ _ _ hfollows]
    | some hitems =>
      dsimp only
      congr 2
      exact mapIdx_forall₂ hitems fun i s s' hs => hmean _ s s' hs
  | map =>
    rw [hrole] at h
    unfold NamesFollow at h
    generalize members? v = members at h ⊢
    generalize members? v' = members' at h ⊢
    cases h with
    | none => rfl
    | some h =>
      dsimp only
      rw [map_forall₂ h fun m m' hm => by rw [hm.1, hmean _ _ _ hm.2]]
  | dependencies =>
    rw [hrole] at h
    unfold DependenciesFollow at h
    dsimp only at h ⊢
    generalize members? v = members at h ⊢
    generalize members? v' = members' at h ⊢
    cases h with
    | none => rfl
    | some h =>
      dsimp only
      congr 2
      apply map_forall₂ h
      intro m m' hm
      obtain ⟨hname, hm⟩ := hm
      unfold DependencyFollows at hm
      by_cases hitems : (items? m.2).isSome = true
      · rw [if_pos hitems] at hm
        rw [hname, hm, if_pos hitems, if_pos hitems]
      · rw [if_neg hitems] at hm
        rw [hname, if_neg (by simp [hm.1]), if_neg hitems, hmean _ _ _ hm.2]
  | reference | data =>
    rw [hrole] at h
    rw [show v' = v from h]
  | remark => rfl

/-- **Schemas that follow, in documents that follow, mean the same.** -/
theorem evaluate_follows (D : Dialect F R) (hroot : Follows root root') (n : Nat) :
    ∀ place s s', Follows s s' →
    evaluate D root' n place s' = evaluate D root n place s := by
  induction n with
  | zero =>
    intro place s s' _
    rw [evaluate, evaluate]
  | succ n ih =>
    intro place s s' h
    have hmean : (fun path => (lookup root' path).map (evaluate D root' n path)) =
        fun path => (lookup root path).map (evaluate D root n path) := by
      funext path
      have hrel := lookup_follows path root root' hroot
      generalize lookup root path = o at hrel ⊢
      generalize lookup root' path = o' at hrel ⊢
      cases hrel with
      | none => rfl
      | some hrel => rw [Option.map_some, Option.map_some, ih path _ _ hrel]
    have hparts : ∀ m : String × Json F, role m.1 = .remark →
        (part (evaluate D root n) place m.1 m.2).map (fun p => (m.1, p)) = none ∧
          (part (evaluate D root' n) place m.1 m.2).map (fun p => (m.1, p)) = none := by
      intro m hm
      unfold part
      rw [hm]
      exact ⟨rfl, rfl⟩
    have hmembers := filterMap_members h hparts fun keyword v v' hv => by
      rw [part_follows ih place hv]
    cases s with
    | obj members =>
      cases s' with
      | obj members' =>
        rw [evaluate, evaluate, see_follows hroot, hmean]
        exact congrArg _ hmembers
      | null | bool | int | float | str | arr =>
        rcases h with h | ⟨b, _, h⟩ <;> cases h
    | null | bool | int | float | str | arr =>
      rcases h with rfl | ⟨b, _, rfl⟩
      · rfl
      · rfl

end AlysisCode.ToolSchema
