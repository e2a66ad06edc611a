/-
Compacting the schemas of custom and MCP tools.

Annotations are dropped from a schema, data is kept as it is, and one flag is passed down to tell
the keywords of a schema from the names in a map of schemas.  Whether the flag is right where it
is looked at decides what the compacted schema still says.
-/
import AlysisCode.Library.JsonSchema

namespace AlysisCode.ToolSchema

variable {F : Type}

def modelFacingSchemaAnnotationKeys : List String :=
  ["$comment", "default", "description", "example", "examples", "markdownDescription", "title"]

def jsonSchemaNamedSchemaMapKeys : List String :=
  ["$defs", "definitions", "dependentSchemas", "patternProperties", "properties"]

def jsonSchemaOpaqueDataKeys : List String := ["const", "default", "enum"]

mutual

def compactCustomMcpToolParameters (insideNamedSchemaMap : Bool) : Json F → Json F
  | .obj members => .obj (compactMembers insideNamedSchemaMap members)
  | .arr items => .arr (compactItems items)
  | value => value

def compactMembers (insideNamedSchemaMap : Bool) : List (String × Json F) → List (String × Json F)
  | [] => []
  | (key, item) :: rest =>
    if !insideNamedSchemaMap && modelFacingSchemaAnnotationKeys.contains key then
      compactMembers insideNamedSchemaMap rest
    else if !insideNamedSchemaMap && jsonSchemaOpaqueDataKeys.contains key then
      (key, item) :: compactMembers insideNamedSchemaMap rest
    else
      (key, compactCustomMcpToolParameters (jsonSchemaNamedSchemaMapKeys.contains key) item) ::
        compactMembers insideNamedSchemaMap rest

def compactItems : List (Json F) → List (Json F)
  | [] => []
  | item :: rest => compactCustomMcpToolParameters false item :: compactItems rest

end

/-! ### Where the flag does no harm -/

mutual

/-- Nothing in the value is dropped: it is data that compacting leaves as it is. -/
def untouched (insideNamedSchemaMap : Bool) : Json F → Bool
  | .obj members => untouchedMembers insideNamedSchemaMap members
  | .arr items => untouchedItems items
  | _ => true

def untouchedMembers (insideNamedSchemaMap : Bool) : List (String × Json F) → Bool
  | [] => true
  | (key, item) :: rest =>
    (insideNamedSchemaMap || !modelFacingSchemaAnnotationKeys.contains key) &&
      ((!insideNamedSchemaMap && jsonSchemaOpaqueDataKeys.contains key) ||
        untouched (jsonSchemaNamedSchemaMapKeys.contains key) item) &&
      untouchedMembers insideNamedSchemaMap rest

def untouchedItems : List (Json F) → Bool
  | [] => true
  | item :: rest => untouched false item && untouchedItems rest

end

mutual

def tracked (insideNamedSchemaMap : Bool) : Json F → Bool
  | .obj members => trackedMembers insideNamedSchemaMap members
  | _ => true

/-- So for the keywords of a schema: data is not reached, or not touched; no dependency has the
name of an annotation; and the schemas below keep what they say. -/
def trackedMembers (insideNamedSchemaMap : Bool) : List (String × Json F) → Bool
  | [] => true
  | (keyword, v) :: rest => trackedMember insideNamedSchemaMap keyword v &&
      trackedMembers insideNamedSchemaMap rest

def trackedMember (insideNamedSchemaMap : Bool) (keyword : String) (v : Json F) : Bool :=
  match JsonSchema.role keyword with
  | .remark => true
  | .reference | .data =>
    (!insideNamedSchemaMap && jsonSchemaOpaqueDataKeys.contains keyword) || untouched false v
  | .schema => tracked false v
  | .schemas => trackedItems v
  | .either => trackedItems v && tracked false v
  | .map => trackedNames v
  | .dependencies => trackedDependencies v

def trackedItems : Json F → Bool
  | .arr items => trackedList items
  | _ => true

def trackedList : List (Json F) → Bool
  | [] => true
  | s :: rest => tracked false s && trackedList rest

def trackedNames : Json F → Bool
  | .obj members => trackedMap members
  | _ => true

def trackedMap : List (String × Json F) → Bool
  | [] => true
  | (name, s) :: rest =>
    tracked (jsonSchemaNamedSchemaMapKeys.contains name) s && trackedMap rest

def trackedDependencies : Json F → Bool
  | .obj members => trackedDependencyMap members
  | _ => true

def trackedDependencyMap : List (String × Json F) → Bool
  | [] => true
  | (name, t) :: rest =>
    !modelFacingSchemaAnnotationKeys.contains name &&
      (jsonSchemaOpaqueDataKeys.contains name || trackedDependency name t) &&
      trackedDependencyMap rest

def trackedDependency (name : String) (t : Json F) : Bool :=
  match t with
  | .arr items => untouchedItems items
  | t => tracked (jsonSchemaNamedSchemaMapKeys.contains name) t

end

end AlysisCode.ToolSchema

/-! ### Compacting twice

Compacting twice is compacting once, and what compacting leaves alone is what nothing is
dropped from.
-/

namespace AlysisCode.ToolSchema

variable {F : Type}

/-! ### Lists and dicts -/

def compactValue (insideNamedSchemaMap : Bool) (key : String) (item : Json F) : Json F :=
  if !insideNamedSchemaMap && jsonSchemaOpaqueDataKeys.contains key then item
  else compactCustomMcpToolParameters (jsonSchemaNamedSchemaMapKeys.contains key) item

def drops (insideNamedSchemaMap : Bool) (key : String) : Bool :=
  !insideNamedSchemaMap && modelFacingSchemaAnnotationKeys.contains key

variable (b : Bool) (members : List (String × Json F))

theorem compactMembers_cons (m : String × Json F) (rest : List (String × Json F)) :
    compactMembers b (m :: rest) =
      if drops b m.1 then compactMembers b rest
      else (m.1, compactValue b m.1 m.2) :: compactMembers b rest := by
  obtain ⟨key, item⟩ := m
  rw [compactMembers]
  unfold drops compactValue
  split
  · rfl
  · split <;> rfl

theorem compactItems_eq (items : List (Json F)) :
    compactItems items = items.map (compactCustomMcpToolParameters false) := by
  induction items with
  | nil => rfl
  | cons item rest ih => rw [compactItems, ih, List.map_cons]

theorem compactMembers_eq : compactMembers b members =
      (members.filter fun m => !drops b m.1).map fun m => (m.1, compactValue b m.1 m.2) := by
  induction members with
  | nil => rfl
  | cons m rest ih =>
    rw [compactMembers_cons, ih]
    by_cases h : drops b m.1 = true
    · rw [if_pos h, List.filter_cons_of_neg (by simp [h])]
    · rw [if_neg h, List.filter_cons_of_pos (by simpa using h), List.map_cons]

theorem lookup_compactMembers (key : String) : (compactMembers b members).lookup key =
      if drops b key then none else (members.lookup key).map (compactValue b key) := by
  induction members with
  | nil => simp [compactMembers]
  | cons m rest ih =>
    rw [compactMembers_cons]
    by_cases hkey : key = m.1
    · subst hkey
      by_cases h : drops b m.1 = true
      · rw [if_pos h, ih]
        simp [h]
      · rw [if_neg h, if_neg h]
        rw [List.lookup_cons_self]
        show some _ = Option.map _ (List.lookup m.1 ((m.1, m.2) :: rest))
        rw [List.lookup_cons_self]
        rfl
    · have hne : (key == m.1) = false := by simpa using hkey
      by_cases h : drops b m.1 = true
      · rw [if_pos h, ih, List.lookup_cons, hne]
      · rw [if_neg h, List.lookup_cons, hne, List.lookup_cons, hne]
        exact ih

theorem untouchedItems_iff (items : List (Json F)) :
    untouchedItems items = true ↔ ∀ v ∈ items, untouched false v = true := by
  induction items with
  | nil => simp [untouchedItems]
  | cons v rest ih => simp [untouchedItems, ih]

theorem untouchedMembers_iff :
    untouchedMembers b members = true ↔ ∀ m ∈ members, drops b m.1 = false ∧
      ((!b && jsonSchemaOpaqueDataKeys.contains m.1) = true ∨
        untouched (jsonSchemaNamedSchemaMapKeys.contains m.1) m.2 = true) := by
  induction members with
  | nil => simp [untouchedMembers]
  | cons m rest ih =>
    obtain ⟨key, item⟩ := m
    rw [untouchedMembers, Bool.and_eq_true, Bool.and_eq_true, ih, List.forall_mem_cons,
      Bool.or_eq_true]
    unfold drops
    cases b <;> simp

/-! ### What is left alone -/

theorem map_eq_self_iff {α : Type} {f : α → α} {l : List α} : l.map f = l ↔ ∀ a ∈ l, f a = a := by
  have h := List.map_inj_left (l := l) (f := f) (g := id)
  rwa [List.map_id] at h

theorem compactMembers_eq_self_iff : compactMembers b members = members ↔
      ∀ m ∈ members, drops b m.1 = false ∧ compactValue b m.1 m.2 = m.2 := by
  rw [compactMembers_eq]
  constructor
  · intro h
    have hlength : (members.filter fun m => !drops b m.1).length = members.length := by
      rw [← List.length_map, h]
    have hall := List.length_filter_eq_length_iff.mp hlength
    have hfilter : (members.filter fun m => !drops b m.1) = members :=
      List.filter_eq_self.mpr hall
    rw [hfilter] at h
    intro m hm
    have hfix := map_eq_self_iff.mp h m hm
    exact ⟨by simpa using hall m hm, congrArg Prod.snd hfix⟩
  · intro h
    have hfilter : (members.filter fun m => !drops b m.1) = members :=
      List.filter_eq_self.mpr fun m hm => by simp [(h m hm).1]
    rw [hfilter]
    exact map_eq_self_iff.mpr fun m hm => by rw [(h m hm).2]

theorem compact_eq_self_iff (v : Json F) :
    ∀ b, compactCustomMcpToolParameters b v = v ↔ untouched b v = true := by
  induction v using Json.induct with
  | null | bool | int | float | str => simp [compactCustomMcpToolParameters, untouched]
  | arr items ih =>
    intro b
    rw [compactCustomMcpToolParameters, untouched, untouchedItems_iff, compactItems_eq,
      Json.arr.injEq, map_eq_self_iff]
    exact forall₂_congr fun v hv => ih v hv false
  | obj members ih =>
    intro b
    rw [compactCustomMcpToolParameters, untouched, untouchedMembers_iff, Json.obj.injEq,
      compactMembers_eq_self_iff]
    refine forall₂_congr fun m hm => and_congr_right fun _ => ?_
    unfold compactValue
    by_cases h : (!b && jsonSchemaOpaqueDataKeys.contains m.1) = true
    · rw [if_pos h]
      exact iff_of_true rfl (.inl h)
    · rw [if_neg h, ih m hm]
      exact (or_iff_right h).symm

/-! ### Compacting twice -/

theorem compact_compact (v : Json F) : ∀ b,
    compactCustomMcpToolParameters b (compactCustomMcpToolParameters b v) =
      compactCustomMcpToolParameters b v := by
  induction v using Json.induct with
  | null | bool | int | float | str => simp [compactCustomMcpToolParameters]
  | arr items ih =>
    intro b
    simp only [compactCustomMcpToolParameters, compactItems_eq, List.map_map, Json.arr.injEq]
    exact List.map_congr_left fun v hv => ih v hv false
  | obj members ih =>
    intro b
    rw [compactCustomMcpToolParameters, compactCustomMcpToolParameters, Json.obj.injEq,
      compactMembers_eq_self_iff, compactMembers_eq]
    intro m hm
    obtain ⟨m', hm', rfl⟩ := List.mem_map.mp hm
    rw [List.mem_filter] at hm'
    refine ⟨by simpa using hm'.2, ?_⟩
    show compactValue b m'.1 (compactValue b m'.1 m'.2) = compactValue b m'.1 m'.2
    unfold compactValue
    split
    · rfl
    · exact ih m' hm'.1 _

end AlysisCode.ToolSchema
