/-
Which schemas compacting keeps valid for the same instances.

Tracked schemas are kept by what follows them.  The other way round, a dialect that only looks
up data at a place tells of every datum that changed, and the declarations tell of every name;
the induction takes the schemas below a schema along the paths that lead to them.
-/
import AlysisCode.ToolSchema.Validation

namespace AlysisCode.ToolSchema

open JsonSchema

variable {F : Type}

/-! ### Tracked schemas are kept -/

variable {v : Json F} {n : Nat} {s s' : Json F} {keyword : String}

theorem ownPart_follows {v' : Json F} (h : ValueFollows keyword v v') :
    ownPart keyword v' = ownPart keyword v := by
  unfold ValueFollows at h
  unfold ownPart
  cases hrole : role keyword with
  | data =>
    rw [hrole] at h
    rw [show v' = v from h]
  | map =>
    rw [hrole] at h
    unfold NamesFollow at h
    generalize members? v = members at h ⊢
    generalize members? v' = members' at h ⊢
    cases h with
    | none => rfl
    | some h =>
      rw [Option.getD_some, Option.getD_some, map_forall₂ h]
      intro m m' hm
      rw [hm.1]
  | dependencies =>
    rw [hrole] at h
    unfold DependenciesFollow at h
    dsimp only at h ⊢
    generalize members? v = members at h ⊢
    generalize members? v' = members' at h ⊢
    cases h with
    | none => rfl
    | some h =>
      rw [Option.getD_some, Option.getD_some, map_forall₂ h]
      intro m m' hm
      obtain ⟨hname, hm⟩ := hm
      unfold DependencyFollows at hm
      by_cases hitems : (items? m.2).isSome = true
      · rw [if_pos hitems] at hm
        rw [hname, hm]
      · rw [if_neg hitems] at hm
        rw [hname, if_neg hitems, if_neg (by simp [hm.1])]
  | schema | schemas | either | reference | remark => rfl

theorem own_follows (h : Follows s s') : own s' = own s := by
  unfold own
  apply filterMap_members h
  · intro m hm
    unfold ownPart
    rw [hm]
    exact ⟨rfl, rfl⟩
  · intro keyword v v' hv
    rw [ownPart_follows hv]

theorem keeps_follows {root root' : Json F} (h : Follows root root') : Keeps root root' := by
  intro path s hs
  have hrel := lookup_follows path root root' h
  rw [hs] at hrel
  cases hs' : lookup root' path with
  | none =>
    rw [hs'] at hrel
    exact absurd hrel Option.not_rel_some_none
  | some s' =>
    rw [hs', Option.rel_some_some] at hrel
    exact ⟨s', rfl, own_follows hrel⟩

/-! ### What is kept is tracked -/

theorem filterMap_eq {α β : Type} {l : List α} {f g : α → Option β}
    (hsome : ∀ a ∈ l, (f a).isSome = (g a).isSome) (h : l.filterMap f = l.filterMap g) :
    ∀ a ∈ l, f a = g a := by
  induction l with
  | nil => simp
  | cons a rest ih =>
    rw [List.forall_mem_cons] at hsome ⊢
    cases hf : f a with
    | none =>
      have hg : g a = none := by simpa [hf] using hsome.1.symm
      rw [List.filterMap_cons_none hf, List.filterMap_cons_none hg] at h
      exact ⟨hg.symm, ih hsome.2 h⟩
    | some x =>
      obtain ⟨y, hy⟩ := Option.isSome_iff_exists.mp (by rw [← hsome.1, hf]; rfl)
      rw [List.filterMap_cons_some hf, List.filterMap_cons_some hy, List.cons.injEq] at h
      exact ⟨by rw [hy, h.1], ih hsome.2 h.2⟩

theorem isSome_ownPart (keyword : String) (v v' : Json F) :
    (ownPart keyword v').isSome = (ownPart keyword v).isSome := by
  unfold ownPart
  cases role keyword with
  | data =>
    dsimp only
    split <;> rfl
  | schema | schemas | either | map | dependencies | reference | remark => rfl

/-- If an object of keywords declares the same once compacted, so does each keyword. -/
theorem ownPart_compactValue {b : Bool} {members : List (String × Json F)}
    (h : own (compactCustomMcpToolParameters b (.obj members)) = own (.obj members)) :
    ∀ m ∈ members, ownPart m.1 (compactValue b m.1 m.2) = ownPart m.1 m.2 := by
  have heq : own (compactCustomMcpToolParameters b (.obj members)) = members.filterMap fun m =>
      (ownPart m.1 (compactValue b m.1 m.2)).map fun p => (m.1, p) := by
    show (compactMembers b members).filterMap _ = _
    rw [compactMembers_eq, List.filterMap_map, List.filterMap_filter]
    apply List.filterMap_congr
    intro m _
    by_cases hdrops : drops b m.1 = true
    · rw [if_neg (by simp [hdrops])]
      unfold ownPart
      rw [role_of_drops hdrops]
      rfl
    · rw [if_pos (by simpa using hdrops)]
      rfl
  rw [heq] at h
  intro m hm
  have hm := filterMap_eq (fun m _ => by
    rw [Option.isSome_map, Option.isSome_map]
    exact isSome_ownPart m.1 m.2 _) h m hm
  have hinj : Function.Injective fun p : Option (Json F) × List (String × Json F) => (m.1, p) :=
    fun p q hpq => congrArg Prod.snd hpq
  exact Option.map_injective hinj hm

section Object

variable {b : Bool} {members : List (String × Json F)} (hkeys : (members.map (·.1)).Nodup)
  {m : String × Json F} (hm : m ∈ members)

include hkeys hm

theorem lookup_member (path : Path) :
    lookup (.obj members) (.key m.1 :: path) = lookupUnder (role m.1) m.2 path := by
  have hlookup : members.lookup m.1 = some m.2 := (Json.lookup_eq_some_iff hkeys).mpr hm
  rw [lookup_key]
  show (members.lookup m.1).bind _ = _
  rw [hlookup, Option.bind_some]

theorem lookup_compact_member (hremark : role m.1 ≠ .remark) (path : Path) :
    lookup (compactCustomMcpToolParameters b (.obj members)) (.key m.1 :: path) =
      lookupUnder (role m.1) (compactValue b m.1 m.2) path := by
  have hlookup : members.lookup m.1 = some m.2 := (Json.lookup_eq_some_iff hkeys).mpr hm
  have hdrops : ¬drops b m.1 = true := fun h => hremark (role_of_drops h)
  rw [lookup_key]
  show ((compactMembers b members).lookup m.1).bind _ = _
  rw [lookup_compactMembers, if_neg hdrops, hlookup, Option.map_some, Option.bind_some]

theorem untouched_of_agree
    (h : Agree (.obj members) (compactCustomMcpToolParameters b (.obj members)))
    (hrole : role m.1 = .data ∨ role m.1 = .reference) :
    (!b && jsonSchemaOpaqueDataKeys.contains m.1) = true ∨ untouched false m.2 = true := by
  have hlookup : members.lookup m.1 = some m.2 := (Json.lookup_eq_some_iff hkeys).mpr hm
  have hremark : role m.1 ≠ .remark := by rcases hrole with h | h <;> rw [h] <;> decide
  have hmap : jsonSchemaNamedSchemaMapKeys.contains m.1 = false := by
    rw [← Bool.not_eq_true, mapKeys_iff]
    rcases hrole with h | h <;> rw [h] <;> decide
  have hdrops : ¬drops b m.1 = true := fun h => hremark (role_of_drops h)
  have hsee := congrFun (congrFun h.sees []) m.1
  have hread : ∀ s : Json F, see s [] m.1 = (members? s).bind (·.lookup m.1) := by
    intro s
    unfold see
    rcases hrole with h | h <;> rw [h] <;> rfl
  rw [hread, hread] at hsee
  have hvalue : compactValue b m.1 m.2 = m.2 := by
    change (compactMembers b members).lookup m.1 = members.lookup m.1 at hsee
    rw [lookup_compactMembers, if_neg hdrops, hlookup, Option.map_some] at hsee
    exact Option.some.inj hsee
  by_cases hopaque : (!b && jsonSchemaOpaqueDataKeys.contains m.1) = true
  · exact .inl hopaque
  · rw [compactValue, if_neg hopaque, hmap] at hvalue
    exact .inr ((compact_eq_self_iff _ _).mp hvalue)

end Object

/-- What the induction gives of the schemas below a schema. -/
def Below (n : Nat) : Prop :=
  ∀ s : Json F, sizeOf s < n → s.Distinct → ∀ b, Agree s (compactCustomMcpToolParameters b s) →
    tracked b s = true

theorem items?_compact (b : Bool) (v : Json F) :
    items? (compactCustomMcpToolParameters b v) = (items? v).map compactItems := by
  cases v <;> rfl

theorem trackedItems_of_agree (ih : Below (F := F) n) (hn : sizeOf v ≤ n) (hdistinct : v.Distinct)
    (h : Agree s s') (front : Path)
    (hs : ∀ items, items? v = some items → ∀ i path, lookup s (front ++ .index i :: path) =
      items[i]?.bind (lookup · path))
    (hs' : ∀ items, items? v = some items → ∀ i path, lookup s' (front ++ .index i :: path) =
      (compactItems items)[i]?.bind (lookup · path)) : trackedItems v = true := by
  cases hdistinct with
  | @arr items hitems =>
    rw [trackedItems, trackedList_iff]
    intro t ht
    obtain ⟨i, hi, rfl⟩ := List.getElem_of_mem ht
    apply ih _ (lt_of_lt_of_le (Json.sizeOf_item ht) hn) (hitems _ ht)
    apply h.below (front ++ [.index i])
    · intro path
      rw [List.append_assoc, List.singleton_append, hs items rfl, List.getElem?_eq_getElem hi,
        Option.bind_some]
    · intro path
      rw [List.append_assoc, List.singleton_append, hs' items rfl, compactItems_eq,
        List.getElem?_map, List.getElem?_eq_getElem hi, Option.map_some, Option.bind_some]
  | null | bool | int | float | str | obj => simp [trackedItems]

theorem trackedNames_of_agree (ih : Below (F := F) n) (hn : sizeOf v ≤ n) (hdistinct : v.Distinct)
    (h : Agree s s') (front : Path)
    (hs : ∀ path, lookup s (front ++ path) = lookupUnder .map v path)
    (hs' : ∀ path, lookup s' (front ++ path) =
      lookupUnder .map (compactCustomMcpToolParameters true v) path) : trackedNames v = true := by
  cases hdistinct with
  | @obj members hkeys hmembers =>
    rw [trackedNames, trackedMap_iff]
    intro m hm
    have hlookup : members.lookup m.1 = some m.2 := (Json.lookup_eq_some_iff hkeys).mpr hm
    apply ih _ (lt_of_lt_of_le (Json.sizeOf_member hm) hn) (hmembers _ hm)
    apply h.below (front ++ [.key m.1])
    · intro path
      rw [List.append_assoc, List.singleton_append, hs]
      show (members.lookup m.1).bind _ = _
      rw [hlookup, Option.bind_some]
    · intro path
      rw [List.append_assoc, List.singleton_append, hs']
      show ((compactMembers true members).lookup m.1).bind _ = _
      rw [lookup_compactMembers, if_neg (by simp [drops]), hlookup, Option.map_some,
        Option.bind_some]
      rfl
  | null | bool | int | float | str | arr => simp [trackedNames]

/-- The names of dependencies stay, and so do the arrays and the schemas under them. -/
theorem trackedDependencies_of_agree (ih : Below (F := F) n) (hn : sizeOf v ≤ n)
    (hdistinct : v.Distinct) (h : Agree s s') (front : Path)
    (hs : ∀ path, lookup s (front ++ path) = lookupUnder .dependencies v path)
    (hs' : ∀ path, lookup s' (front ++ path) =
      lookupUnder .dependencies (compactCustomMcpToolParameters false v) path)
    (hrole : role keyword = .dependencies)
    (hown : ownPart keyword (compactCustomMcpToolParameters false v) = ownPart keyword v) :
    trackedDependencies v = true := by
  cases hdistinct with
  | @obj members hkeys hmembers =>
    unfold ownPart at hown
    rw [hrole] at hown
    have hnames : (compactMembers false members).map
        (fun m => (m.1, if (items? m.2).isSome then m.2 else .null)) =
        members.map fun m => (m.1, if (items? m.2).isSome then m.2 else .null) :=
      congrArg Prod.snd (Option.some.inj hown)
    have hlength : (members.filter fun m => !drops false m.1).length = members.length := by
      have hlen := congrArg List.length hnames
      rwa [compactMembers_eq, List.length_map, List.length_map, List.length_map] at hlen
    have hdrops := List.length_filter_eq_length_iff.mp hlength
    rw [compactMembers_eq, List.filter_eq_self.mpr hdrops, List.map_map,
      List.map_inj_left] at hnames
    rw [trackedDependencies, trackedDependencyMap_iff]
    intro m hm
    refine ⟨by simpa using hdrops m hm, ?_⟩
    by_cases hopaque : jsonSchemaOpaqueDataKeys.contains m.1 = true
    · exact .inl hopaque
    · right
      have hvalue : compactValue false m.1 m.2 = compactCustomMcpToolParameters
          (jsonSchemaNamedSchemaMapKeys.contains m.1) m.2 := by
        rw [compactValue, if_neg (by simpa using hopaque)]
      have hname := hnames m hm
      dsimp only [Function.comp_apply] at hname
      rw [hvalue] at hname
      have hlookup : members.lookup m.1 = some m.2 := (Json.lookup_eq_some_iff hkeys).mpr hm
      cases ht : m.2 with
      | arr items =>
        rw [ht] at hname
        rw [trackedDependency]
        have harr : compactCustomMcpToolParameters false (.arr items) = .arr items :=
          congrArg Prod.snd hname
        exact (compact_eq_self_iff _ _).mp harr
      | null | bool | int | float | str | obj =>
        rw [← ht, trackedDependency_of_none (by rw [ht]; rfl)]
        apply ih _ (lt_of_lt_of_le (Json.sizeOf_member hm) hn) (hmembers _ hm)
        apply h.below (front ++ [.key m.1])
        · intro path
          rw [List.append_assoc, List.singleton_append, hs]
          show ((members.lookup m.1).bind fun t => _) = _
          rw [hlookup, Option.bind_some, ht]
          rfl
        · intro path
          rw [List.append_assoc, List.singleton_append, hs']
          show (((compactMembers false members).lookup m.1).bind fun t => _) = _
          rw [lookup_compactMembers, if_neg (by simpa using hdrops m hm), hlookup,
            Option.map_some, Option.bind_some, hvalue, ht]
          rfl
  | null | bool | int | float | str | arr => simp [trackedDependencies]

/-- **What agrees with its compacted form is tracked.** -/
theorem tracked_of_agree : ∀ n, Below (F := F) n := by
  intro n
  induction n with
  | zero =>
    intro s hs
    exact absurd hs (Nat.not_lt_zero _)
  | succ n ih =>
    intro s hs hdistinct b h
    cases hdistinct with
    | @obj members hkeys hmembers =>
      rw [tracked, trackedMembers_iff]
      intro m hm
      have hn : sizeOf m.2 < n := by
        have hlt := Json.sizeOf_member hm
        omega
      have hplace := lookup_member hkeys hm
      have hplace' := lookup_compact_member (b := b) hkeys hm
      have hvalue : role m.1 ≠ .data → role m.1 ≠ .remark → compactValue b m.1 m.2 =
          compactCustomMcpToolParameters (decide (role m.1 = .map)) m.2 :=
        compactValue_of_role b m.2
      obtain ⟨s', hs', hown⟩ := h.keeps [] _ rfl
      cases hs'
      have hown := ownPart_compactValue hown m hm
      have htracked : (∀ path, lookup (.obj members) ([.key m.1] ++ path) = lookup m.2 path) →
          (∀ path, lookup (compactCustomMcpToolParameters b (.obj members))
            ([.key m.1] ++ path) = lookup (compactCustomMcpToolParameters false m.2) path) →
          tracked false m.2 = true := fun ht ht' =>
        ih m.2 hn (hmembers m hm) false (h.below [.key m.1] ht ht')
      unfold trackedMember
      cases hrole : role m.1 with
      | remark => rfl
      | data =>
        rw [Bool.or_eq_true]
        exact untouched_of_agree hkeys hm h (.inl hrole)
      | reference =>
        rw [Bool.or_eq_true]
        exact untouched_of_agree hkeys hm h (.inr hrole)
      | schema =>
        rw [hrole] at hplace hplace' hvalue
        rw [hvalue (by decide) (by decide)] at hplace'
        exact htracked hplace (hplace' (by decide))
      | schemas =>
        rw [hrole] at hplace hplace' hvalue
        rw [hvalue (by decide) (by decide)] at hplace'
        apply trackedItems_of_agree ih hn.le (hmembers m hm) h [.key m.1]
        · intro items hitems i path
          rw [List.singleton_append, hplace, lookupUnder, hitems, Option.bind_some]
        · intro items hitems i path
          rw [List.singleton_append, hplace' (by decide), lookupUnder, items?_compact,
            hitems, Option.map_some, Option.bind_some]
      | either =>
        rw [hrole] at hplace hplace' hvalue
        rw [hvalue (by decide) (by decide)] at hplace'
        rw [Bool.and_eq_true]
        constructor
        · apply trackedItems_of_agree ih hn.le (hmembers m hm) h [.key m.1]
          · intro items hitems i path
            rw [List.singleton_append, hplace, lookupUnder_either_of_some hitems]
          · intro items hitems i path
            rw [List.singleton_append, hplace' (by decide), lookupUnder_either_of_some]
            rw [items?_compact, hitems, Option.map_some]
        · cases hitems : items? m.2 with
          | none =>
            apply htracked
            · intro path
              rw [List.singleton_append, hplace, lookupUnder_either_of_none hitems]
            · intro path
              have hnone : items? (compactCustomMcpToolParameters false m.2) = none := by
                rw [items?_compact, hitems, Option.map_none]
              rw [List.singleton_append, hplace' (by decide)]
              exact lookupUnder_either_of_none hnone path
          | some items =>
            cases hv : m.2 with
            | arr items => simp [tracked]
            | null | bool | int | float | str | obj =>
              rw [hv] at hitems
              cases hitems
      | map =>
        rw [hrole] at hplace hplace' hvalue
        rw [hvalue (by decide) (by decide)] at hplace'
        exact trackedNames_of_agree ih hn.le (hmembers m hm) h [.key m.1] hplace
          (hplace' (by decide))
      | dependencies =>
        rw [hrole] at hplace hplace' hvalue
        rw [hvalue (by decide) (by decide)] at hplace' hown
        exact trackedDependencies_of_agree ih hn.le (hmembers m hm) h [.key m.1] hplace
          (hplace' (by decide)) hrole hown
    | null | bool | int | float | str | arr => simp [tracked]

/-! ### Which schemas are kept -/

/-- Asks what can be read under a keyword at a place, whatever the instance. -/
def reader (path : Path) (keyword : String) : Dialect F (Option (Json F)) where
  exhausted _ := none
  boolean _ _ := none
  malformed _ := none
  object read _ _ _ _ _ := read path keyword

/-- Compacting the schema keeps which instances are valid in every dialect, the declared names
and constants, and compacting again changes nothing more. -/
structure Preserved (root : Json F) : Prop where
  valid : ∀ (R : Type) (D : Dialect F R) (fuel : Nat) (inst : Json F),
    verdict D (compactCustomMcpToolParameters false root) fuel inst = verdict D root fuel inst
  keeps : Keeps root (compactCustomMcpToolParameters false root)
  idempotent : compactCustomMcpToolParameters false (compactCustomMcpToolParameters false root) =
    compactCustomMcpToolParameters false root

/-- **Compacting preserves a schema exactly when the flag is right wherever it matters.** -/
theorem preserved_iff_tracked {root : Json F} (hdistinct : root.Distinct) :
    Preserved root ↔ tracked false root = true := by
  constructor
  · intro h
    cases root with
    | obj members =>
      apply tracked_of_agree _ _ (Nat.lt_succ_self _) hdistinct false
      refine ⟨h.keeps, ?_⟩
      funext path keyword
      exact h.valid _ (reader path keyword) 1 .null
    | null | bool | int | float | str | arr => simp [tracked]
  · intro h
    have hfollows := Follows.compact h
    refine ⟨?_, keeps_follows hfollows, compact_compact root false⟩
    intro R D fuel inst
    unfold verdict
    rw [evaluate_follows D hfollows fuel [] _ _ hfollows]

/-- A property is called like an annotation, and so is a member of a constant. -/
def titled : Json Unit :=
  .obj [("title", .str "a form"), ("required", .arr [.str "title"]),
    ("properties", .obj [("title", .obj [("description", .str "a name"), ("type", .str "string")]),
      ("kind", .obj [("const", .obj [("title", .int 1)])])])]

theorem distinct_titled : titled.Distinct := by
  simp [titled, Json.distinct_obj_iff, Json.distinct_arr_iff, Json.Distinct.str, Json.Distinct.int]

theorem tracked_titled : tracked false titled = true := by
  have hroles : role "title" = .remark ∧ role "description" = .remark ∧ role "type" = .data ∧
      role "required" = .data ∧ role "properties" = .map ∧ role "const" = .data := by
    decide
  obtain ⟨htitle, hdescription, htype, hrequired, hproperties, hconst⟩ := hroles
  simp [titled, tracked, trackedMembers, trackedMember, htitle, hdescription, htype, hrequired,
    hproperties, hconst, trackedNames, trackedMap, untouched, untouchedItems,
    jsonSchemaOpaqueDataKeys, jsonSchemaNamedSchemaMapKeys]

theorem preserved_titled : Preserved titled :=
  (preserved_iff_tracked distinct_titled).mpr tracked_titled

/-- `dependentRequired`, with every other keyword left aside. -/
def dependents : Dialect Unit Bool where
  exhausted _ := true
  boolean b _ := b
  malformed _ := false
  object _ _ _ parts _ inst := parts.all fun m =>
    match m with
    | ("dependentRequired", .data (.obj dependencies)) => dependencies.all fun d =>
      !(((members? inst).getD []).lookup d.1).isSome ||
        ((items? d.2).getD []).all fun name => match name with
          | .str name => (((members? inst).getD []).lookup name).isSome
          | _ => true
    | _ => true

/-- Who gives a title must give a name; compacted, nobody must. -/
theorem dropped_dependency :
    verdict dependents (.obj [("dependentRequired", .obj [("title", .arr [.str "name"])])]) 1
        (.obj [("title", .str "Dr")]) = false ∧
      verdict dependents (compactCustomMcpToolParameters false
        (.obj [("dependentRequired", .obj [("title", .arr [.str "name"])])])) 1
        (.obj [("title", .str "Dr")]) = true := by
  decide +kernel

end AlysisCode.ToolSchema
