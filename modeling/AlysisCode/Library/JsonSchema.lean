/-
JSON Schema, drafts 7 to 2020-12, as far as the place of a keyword decides what its value is.

A schema is a boolean or an object of keywords.  What stands under a keyword is a schema, a list
or a map of schemas, a map of dependencies, a reference or data; any other keyword is an
annotation and has no part in validation.  A dialect says what the keywords mean, given the
meaning of the schemas below them; a schema is evaluated with fuel, since references may loop.
-/
import AlysisCode.Library.Json

namespace JsonSchema

variable {F R : Type}

/-! ### Keywords -/

/-- What the value of a keyword is. -/
inductive Role where
  | schema
  | schemas
  /-- A schema or a list of them. -/
  | either
  | map
  | dependencies
  | reference
  | data
  | remark
  deriving DecidableEq

def schemaKeywords : List String :=
  ["additionalItems", "additionalProperties", "contains", "contentSchema", "else", "if", "not",
    "propertyNames", "then", "unevaluatedItems", "unevaluatedProperties"]

def schemasKeywords : List String := ["allOf", "anyOf", "oneOf", "prefixItems"]

def mapKeywords : List String :=
  ["$defs", "definitions", "dependentSchemas", "patternProperties", "properties"]

def referenceKeywords : List String := ["$dynamicRef", "$recursiveRef", "$ref"]

def dataKeywords : List String :=
  ["$anchor", "$dynamicAnchor", "$id", "$recursiveAnchor", "$schema", "const",
    "contentEncoding", "contentMediaType", "dependentRequired", "enum", "exclusiveMaximum",
    "exclusiveMinimum", "format", "maxContains", "maxItems", "maxLength", "maxProperties",
    "maximum", "minContains", "minItems", "minLength", "minProperties", "minimum", "multipleOf",
    "pattern", "required", "type", "uniqueItems"]

def role (keyword : String) : Role :=
  if keyword ∈ mapKeywords then .map
  else if keyword ∈ schemaKeywords then .schema
  else if keyword ∈ schemasKeywords then .schemas
  else if keyword = "items" then .either
  else if keyword = "dependencies" then .dependencies
  else if keyword ∈ referenceKeywords then .reference
  else if keyword ∈ dataKeywords then .data
  else .remark

/-! ### Places of schemas -/

/-- A step into a value. -/
inductive Token where
  | key (name : String)
  | index (i : Nat)
  deriving DecidableEq

abbrev Path := List Token

def items? : Json F → Option (List (Json F))
  | .arr items => some items
  | _ => none

def members? : Json F → Option (List (String × Json F))
  | .obj members => some members
  | _ => none

def lookup : Json F → Path → Option (Json F)
  | s, [] => some s
  | _, .index _ :: _ => none
  | s, .key keyword :: path =>
    match (members? s).bind (·.lookup keyword) with
    | none => none
    | some v =>
      match role keyword, path with
      | .schema, path => lookup v path
      | .schemas, .index i :: path => ((items? v).bind (·[i]?)).bind (lookup · path)
      | .either, path =>
        match items? v, path with
        | some items, .index i :: path => items[i]?.bind (lookup · path)
        | some _, _ => none
        | none, path => lookup v path
      | .map, .key name :: path => ((members? v).bind (·.lookup name)).bind (lookup · path)
      | .dependencies, .key name :: path =>
        match (members? v).bind (·.lookup name) with
        | none => none
        | some t => if (items? t).isSome then none else lookup t path
      | _, _ => none

/-- The schema at a path below the value of a keyword. -/
def lookupUnder : Role → Json F → Path → Option (Json F)
  | .schema, v, path => lookup v path
  | .schemas, v, .index i :: path => ((items? v).bind (·[i]?)).bind (lookup · path)
  | .either, v, path =>
    match items? v, path with
    | some items, .index i :: path => items[i]?.bind (lookup · path)
    | some _, _ => none
    | none, path => lookup v path
  | .map, v, .key name :: path => ((members? v).bind (·.lookup name)).bind (lookup · path)
  | .dependencies, v, .key name :: path =>
    ((members? v).bind (·.lookup name)).bind fun t =>
      if (items? t).isSome then none else lookup t path
  | _, _, _ => none

theorem lookup_key (s : Json F) (keyword : String) (path : Path) : lookup s (.key keyword :: path) =
      ((members? s).bind (·.lookup keyword)).bind (lookupUnder (role keyword) · path) := by
  rw [lookup]
  cases (members? s).bind (·.lookup keyword) with
  | none => rfl
  | some v =>
    dsimp only [Option.bind_some]
    unfold lookupUnder
    cases role keyword with
    | schemas | map => rcases path with _ | ⟨_ | _, path⟩ <;> rfl
    | dependencies =>
      rcases path with _ | ⟨name | _, path⟩
      · rfl
      · dsimp only
        cases (members? v).bind (·.lookup name) <;> rfl
      · rfl
    | either =>
      dsimp only
      cases items? v with
      | none => rfl
      | some items => rcases path with _ | ⟨_ | _, path⟩ <;> rfl
    | schema | reference | data | remark => rfl

theorem lookupUnder_either_of_some {v : Json F} {items : List (Json F)}
    (h : items? v = some items) (i : Nat) (path : Path) :
    lookupUnder .either v (.index i :: path) = items[i]?.bind (lookup · path) := by
  simp only [lookupUnder, h]

theorem lookupUnder_either_of_none {v : Json F} (h : items? v = none) (path : Path) :
    lookupUnder .either v path = lookup v path := by
  simp only [lookupUnder, h]

/-! ### Evaluation -/

/-- What a keyword's value comes to, where `M` is the meaning of a schema. -/
inductive Part (F M : Type) where
  | schema (m : M)
  | schemas (ms : List M)
  | map (ms : List (String × M))
  /-- A dependency is a schema, or else an array of names. -/
  | dependencies (ds : List (String × (Json F ⊕ M)))
  | reference (v : Json F)
  | data (v : Json F)
  | malformed

/-- A schema is asked about an instance, in the dynamic scope that led to it. -/
abbrev Meaning (F R : Type) := List Path → Json F → R

/-- What a dialect makes of schemas.  An object of keywords is given what can be read at any
place of a schema in the document, the meaning of the schema at a place, and its own place. -/
structure Dialect (F R : Type) where
  exhausted : Json F → R
  boolean : Bool → Json F → R
  malformed : Json F → R
  object : (Path → String → Option (Json F)) → (Path → Option (Meaning F R)) → Path →
    List (String × Part F (Meaning F R)) → Meaning F R

/-- The part of one keyword, given the meaning of the schemas below it; annotations have none. -/
def part {M : Type} (mean : Path → Json F → M) (place : Path) (keyword : String) (v : Json F) :
    Option (Part F M) :=
  let below := place ++ [.key keyword]
  match role keyword with
  | .schema => some (.schema (mean below v))
  | .schemas =>
    some (match items? v with
      | some items => .schemas (items.mapIdx fun i t => mean (below ++ [.index i]) t)
      | none => .malformed)
  | .either =>
    some (match items? v with
      | some items => .schemas (items.mapIdx fun i t => mean (below ++ [.index i]) t)
      | none => .schema (mean below v))
  | .map =>
    some (match members? v with
      | some members => .map (members.map fun m => (m.1, mean (below ++ [.key m.1]) m.2))
      | none => .malformed)
  | .dependencies =>
    some (match members? v with
      | some members =>
        .dependencies (members.map fun m =>
          (m.1, if (items? m.2).isSome then .inl m.2 else .inr (mean (below ++ [.key m.1]) m.2)))
      | none => .malformed)
  | .reference => some (.reference v)
  | .data => some (.data v)
  | .remark => none

/-- The reference or datum under a keyword of the schema at a path. -/
def see (root : Json F) (path : Path) (keyword : String) : Option (Json F) :=
  match role keyword with
  | .reference | .data =>
    ((lookup root path).bind members?).bind (·.lookup keyword)
  | _ => none

/-- A schema of the document, at its place. -/
def evaluate (D : Dialect F R) (root : Json F) : Nat → Path → Json F → Meaning F R
  | 0, _, _ => fun _ inst => D.exhausted inst
  | _ + 1, _, .bool b => fun _ inst => D.boolean b inst
  | n + 1, place, .obj members =>
    D.object (see root) (fun path => (lookup root path).map (evaluate D root n path)) place
      (members.filterMap fun m =>
        (part (evaluate D root n) place m.1 m.2).map fun p => (m.1, p))
  | _ + 1, _, _ => fun _ inst => D.malformed inst

/-- What the document as a whole makes of an instance. -/
def verdict (D : Dialect F R) (root : Json F) (fuel : Nat) (inst : Json F) : R :=
  evaluate D root fuel [] root [] inst

/-! ### Names and constants -/

/-- What a schema itself declares, apart from the schemas below it: its constants and
enumerations, and the names in its maps and dependencies. -/
def ownPart (keyword : String) (v : Json F) : Option (Option (Json F) × List (String × Json F)) :=
  match role keyword with
  | .data => if keyword = "const" ∨ keyword = "enum" then some (some v, []) else none
  | .map => some (none, ((members? v).getD []).map fun m => (m.1, .null))
  | .dependencies =>
    some (none, ((members? v).getD []).map fun m =>
      (m.1, if (items? m.2).isSome then m.2 else .null))
  | _ => none

def own (s : Json F) : List (String × Option (Json F) × List (String × Json F)) :=
  ((members? s).getD []).filterMap fun m => (ownPart m.1 m.2).map fun p => (m.1, p)

/-- Wherever the first document has a schema the second one has one, which declares the same. -/
def Keeps (root root' : Json F) : Prop :=
  ∀ path s, lookup root path = some s → ∃ s', lookup root' path = some s' ∧ own s' = own s

/-- The second document has the first one's names, constants and references at every place. -/
structure Agree (root root' : Json F) : Prop where
  keeps : Keeps root root'
  sees : see root' = see root

/-- Documents agree from a place on. -/
theorem Agree.below {s s' t t' : Json F} (h : Agree s s') (front : Path)
    (ht : ∀ path, lookup s (front ++ path) = lookup t path)
    (ht' : ∀ path, lookup s' (front ++ path) = lookup t' path) : Agree t t' := by
  constructor
  · intro path r hr
    rw [← ht] at hr
    obtain ⟨r', hr', hown⟩ := h.keeps _ r hr
    exact ⟨r', by rw [← ht', hr'], hown⟩
  · funext path keyword
    have hsee := congrFun (congrFun h.sees (front ++ path)) keyword
    unfold see at hsee ⊢
    rw [← ht, ← ht']
    exact hsee

end JsonSchema
