/-
Compacting a schema that is tracked keeps every place of a schema and what the schemas there say.

Below a place the schemas are left as they are or compacted with one flag or the other.  Either
way the references, the data and the names stay, and the schemas below follow again.
-/
import AlysisCode.ToolSchema.Compact

namespace AlysisCode.ToolSchema

open JsonSchema

variable {F : Type}

/-- The second schema is the first one, or the first one compacted with a flag that does it no
harm. -/
def Follows (s s' : Json F) : Prop :=
  s' = s ∨ ∃ b, tracked b s = true ∧ s' = compactCustomMcpToolParameters b s

theorem Follows.refl (s : Json F) : Follows s s := Or.inl rfl

variable {b : Bool} {keyword : String} {v : Json F}

theorem Follows.compact {s : Json F} (h : tracked b s = true) :
    Follows s (compactCustomMcpToolParameters b s) :=
  Or.inr ⟨b, h, rfl⟩

/-- Lists of schemas follow one by one. -/
def ItemsFollow (v v' : Json F) : Prop :=
  Option.Rel (List.Forall₂ Follows) (items? v) (items? v')

def NamesFollow (v v' : Json F) : Prop :=
  Option.Rel (List.Forall₂ fun m m' => m'.1 = m.1 ∧ Follows m.2 m'.2) (members? v) (members? v')

/-- An array of names stays, a schema follows. -/
def DependencyFollows (t t' : Json F) : Prop :=
  if (items? t).isSome then t' = t else (items? t').isSome = false ∧ Follows t t'

def DependenciesFollow (v v' : Json F) : Prop :=
  Option.Rel (List.Forall₂ fun m m' => m'.1 = m.1 ∧ DependencyFollows m.2 m'.2)
    (members? v) (members? v')

/-- What a keyword says is kept, but for the schemas below it, which follow. -/
def ValueFollows (keyword : String) (v v' : Json F) : Prop :=
  match role keyword with
  | .schema => Follows v v'
  | .schemas => ItemsFollow v v'
  | .either => ItemsFollow v v' ∧ Follows v v'
  | .map => NamesFollow v v'
  | .dependencies => DependenciesFollow v v'
  | .reference | .data => v' = v
  | .remark => True

/-! ### Nothing changed -/

theorem option_rel_refl {α : Type} {r : α → α → Prop} (h : ∀ a, r a a) :
    ∀ o : Option α, Option.Rel r o o
  | none => .none
  | some a => .some (h a)

theorem DependencyFollows.refl (t : Json F) : DependencyFollows t t := by
  unfold DependencyFollows
  by_cases h : (items? t).isSome = true
  · rw [if_pos h]
  · rw [if_neg h]
    exact ⟨by simpa using h, Follows.refl t⟩

theorem ValueFollows.refl (keyword : String) (v : Json F) : ValueFollows keyword v v := by
  have hitems : ItemsFollow v v :=
    option_rel_refl (fun l => List.forall₂_same.mpr fun s _ => Follows.refl s) _
  unfold ValueFollows
  cases role keyword with
  | schema => exact Follows.refl v
  | schemas => exact hitems
  | either => exact ⟨hitems, Follows.refl v⟩
  | map =>
    exact option_rel_refl (fun l => List.forall₂_same.mpr fun m _ => ⟨rfl, Follows.refl m.2⟩) _
  | dependencies =>
    exact option_rel_refl
      (fun l => List.forall₂_same.mpr fun m _ => ⟨rfl, DependencyFollows.refl m.2⟩) _
  | reference | data => rfl
  | remark => trivial

/-! ### The keys of the code and the keywords -/

theorem mapKeys_iff (keyword : String) :
    jsonSchemaNamedSchemaMapKeys.contains keyword = true ↔ role keyword = .map := by
  have hlist : jsonSchemaNamedSchemaMapKeys = mapKeywords := rfl
  rw [hlist, List.contains_iff_mem]
  unfold role
  constructor
  · intro h
    rw [if_pos h]
  · intro h
    by_contra hmem
    rw [if_neg hmem] at h
    split_ifs at h

theorem role_of_drops (h : drops b keyword = true) : role keyword = .remark := by
  unfold drops at h
  rw [Bool.and_eq_true, List.contains_iff_mem] at h
  have hmem := h.2
  simp only [modelFacingSchemaAnnotationKeys, List.mem_cons, List.not_mem_nil, or_false] at hmem
  rcases hmem with rfl | rfl | rfl | rfl | rfl | rfl | rfl <;> decide

theorem role_of_opaque (h : jsonSchemaOpaqueDataKeys.contains keyword = true) :
    role keyword = .data ∨ role keyword = .remark := by
  rw [List.contains_iff_mem] at h
  simp only [jsonSchemaOpaqueDataKeys, List.mem_cons, List.not_mem_nil, or_false] at h
  rcases h with rfl | rfl | rfl <;> decide

theorem compactValue_of_role (b : Bool) (v : Json F) (hdata : role keyword ≠ .data)
    (hremark : role keyword ≠ .remark) :
    compactValue b keyword v = compactCustomMcpToolParameters (decide (role keyword = .map)) v := by
  have hopaque : ¬(!b && jsonSchemaOpaqueDataKeys.contains keyword) = true := by
    intro h
    rw [Bool.and_eq_true] at h
    rcases role_of_opaque h.2 with h | h
    · exact hdata h
    · exact hremark h
  have hmap : jsonSchemaNamedSchemaMapKeys.contains keyword = decide (role keyword = .map) := by
    rw [Bool.eq_iff_iff, mapKeys_iff, decide_eq_true_iff]
  rw [compactValue, if_neg hopaque, hmap]

/-! ### One value -/

theorem trackedList_iff (items : List (Json F)) :
    trackedList items = true ↔ ∀ s ∈ items, tracked false s = true := by
  induction items with
  | nil => simp [trackedList]
  | cons s rest ih => simp [trackedList, ih]

theorem trackedMap_iff (members : List (String × Json F)) : trackedMap members = true ↔
      ∀ m ∈ members, tracked (jsonSchemaNamedSchemaMapKeys.contains m.1) m.2 = true := by
  induction members with
  | nil => simp [trackedMap]
  | cons m rest ih => rw [trackedMap, Bool.and_eq_true, ih, List.forall_mem_cons]

theorem trackedDependencyMap_iff (members : List (String × Json F)) :
    trackedDependencyMap members = true ↔ ∀ m ∈ members, drops false m.1 = false ∧
      (jsonSchemaOpaqueDataKeys.contains m.1 = true ∨ trackedDependency m.1 m.2 = true) := by
  induction members with
  | nil => simp [trackedDependencyMap]
  | cons m rest ih =>
    rw [trackedDependencyMap, Bool.and_eq_true, Bool.and_eq_true, ih, List.forall_mem_cons,
      Bool.or_eq_true]
    simp [drops]

theorem trackedMembers_iff (b : Bool) (members : List (String × Json F)) :
    trackedMembers b members = true ↔ ∀ m ∈ members, trackedMember b m.1 m.2 = true := by
  induction members with
  | nil => simp [trackedMembers]
  | cons m rest ih => rw [trackedMembers, Bool.and_eq_true, ih, List.forall_mem_cons]

theorem itemsFollow_compact (h : trackedItems v = true) :
    ItemsFollow v (compactCustomMcpToolParameters b v) := by
  unfold ItemsFollow
  cases v with
  | arr items =>
    rw [trackedItems, trackedList_iff] at h
    rw [compactCustomMcpToolParameters, compactItems_eq]
    refine .some (List.forall₂_map_right_iff.mpr (List.forall₂_same.mpr ?_))
    intro s hs
    exact Follows.compact (h s hs)
  | null | bool | int | float | str | obj => exact .none

theorem namesFollow_compact (h : trackedNames v = true) :
    NamesFollow v (compactCustomMcpToolParameters true v) := by
  unfold NamesFollow
  cases v with
  | obj members =>
    rw [trackedNames, trackedMap_iff] at h
    rw [compactCustomMcpToolParameters, compactMembers_eq]
    have hfilter : (members.filter fun m => !drops true m.1) = members := by simp [drops]
    rw [hfilter]
    refine .some (List.forall₂_map_right_iff.mpr (List.forall₂_same.mpr ?_))
    intro m hm
    exact ⟨rfl, Follows.compact (h m hm)⟩
  | null | bool | int | float | str | arr => exact .none

theorem trackedDependency_of_none {t : Json F} (h : items? t = none) (name : String) :
    trackedDependency name t = tracked (jsonSchemaNamedSchemaMapKeys.contains name) t := by
  rw [trackedDependency]
  intro items ht
  rw [ht] at h
  cases h

theorem dependencyFollows_compact {name : String} {t : Json F}
    (h : jsonSchemaOpaqueDataKeys.contains name = true ∨ trackedDependency name t = true) :
    DependencyFollows t (compactValue false name t) := by
  by_cases hopaque : jsonSchemaOpaqueDataKeys.contains name = true
  · rw [compactValue, if_pos (by simpa using hopaque)]
    exact DependencyFollows.refl t
  · rw [compactValue, if_neg (by simpa using hopaque)]
    have htracked := h.resolve_left hopaque
    unfold DependencyFollows
    cases t with
    | arr items =>
      rw [trackedDependency] at htracked
      exact (compact_eq_self_iff _ _).mpr htracked
    | null | bool | int | float | str | obj =>
      rw [trackedDependency_of_none rfl] at htracked
      exact ⟨rfl, Follows.compact htracked⟩

theorem dependenciesFollow_compact (h : trackedDependencies v = true) :
    DependenciesFollow v (compactCustomMcpToolParameters false v) := by
  unfold DependenciesFollow
  cases v with
  | obj members =>
    rw [trackedDependencies, trackedDependencyMap_iff] at h
    rw [compactCustomMcpToolParameters, compactMembers_eq]
    have hfilter : (members.filter fun m => !drops false m.1) = members :=
      List.filter_eq_self.mpr fun m hm => by simp [(h m hm).1]
    rw [hfilter]
    refine .some (List.forall₂_map_right_iff.mpr (List.forall₂_same.mpr ?_))
    intro m hm
    exact ⟨rfl, dependencyFollows_compact (h m hm).2⟩
  | null | bool | int | float | str | arr => exact .none

theorem valueFollows_compactValue (h : trackedMember b keyword v = true) :
    ValueFollows keyword v (compactValue b keyword v) := by
  have hvalue : role keyword ≠ .data → role keyword ≠ .remark → compactValue b keyword v =
      compactCustomMcpToolParameters (decide (role keyword = .map)) v := compactValue_of_role b v
  unfold trackedMember at h
  unfold ValueFollows
  cases hrole : role keyword with
  | remark => trivial
  | schema =>
    rw [hrole] at h hvalue
    rw [hvalue (by decide) (by decide)]
    exact Follows.compact h
  | schemas =>
    rw [hrole] at h hvalue
    rw [hvalue (by decide) (by decide)]
    exact itemsFollow_compact h
  | either =>
    rw [hrole] at h hvalue
    rw [hvalue (by decide) (by decide)]
    rw [Bool.and_eq_true] at h
    exact ⟨itemsFollow_compact h.1, Follows.compact h.2⟩
  | map =>
    rw [hrole] at h hvalue
    rw [hvalue (by decide) (by decide)]
    exact namesFollow_compact h
  | dependencies =>
    rw [hrole] at h hvalue
    rw [hvalue (by decide) (by decide)]
    exact dependenciesFollow_compact h
  | reference | data =>
    rw [hrole, Bool.or_eq_true] at h
    have hmap : jsonSchemaNamedSchemaMapKeys.contains keyword = false := by
      rw [← Bool.not_eq_true, mapKeys_iff, hrole]
      decide
    unfold compactValue
    by_cases hopaque : (!b && jsonSchemaOpaqueDataKeys.contains keyword) = true
    · rw [if_pos hopaque]
    · rw [if_neg hopaque, hmap]
      exact (compact_eq_self_iff _ _).mpr (h.resolve_left hopaque)

end AlysisCode.ToolSchema
