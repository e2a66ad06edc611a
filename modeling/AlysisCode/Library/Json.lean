/-
JSON values, as Python's `json` module reads and writes them.

An object is the list of its members in order; a dict keeps one member a key, in the order
the keys came first.  Floats are abstract: nothing here does arithmetic with them.
-/
import Mathlib.Data.List.Sort
import Mathlib.Data.String.Basic

/-- A JSON value with floats in `F`. -/
inductive Json (F : Type) where
  | null
  | bool (b : Bool)
  | int (n : Int)
  | float (x : F)
  | str (s : String)
  | arr (items : List (Json F))
  | obj (members : List (String × Json F))

namespace Json

variable {F : Type}

/-- `d[key]`; a missing key reads as `null`. -/
def get (members : List (String × Json F)) (key : String) : Json F :=
  (members.lookup key).getD .null

/-- `set(d) == {…}`. -/
def hasKeys (members : List (String × Json F)) (keys : List String) : Bool :=
  members.all (fun m => keys.contains m.1) && keys.all fun key => members.any (·.1 == key)

/-- Induction with a hypothesis for every item and every member. -/
@[elab_as_elim] theorem induct {motive : Json F → Prop} (null : motive .null)
    (bool : ∀ b, motive (.bool b)) (int : ∀ n, motive (.int n)) (float : ∀ x, motive (.float x))
    (str : ∀ s, motive (.str s))
    (arr : ∀ items, (∀ v ∈ items, motive v) → motive (.arr items))
    (obj : ∀ members, (∀ m ∈ members, motive m.2) → motive (.obj members)) :
    ∀ v, motive v := by
  intro v
  refine Json.rec (motive_1 := motive) (motive_2 := fun items => ∀ v ∈ items, motive v)
    (motive_3 := fun members => ∀ m ∈ members, motive m.2) (motive_4 := fun m => motive m.2)
    null bool int float str arr obj ?_ ?_ ?_ ?_ ?_ v
  · intro v hv
    cases hv
  · intro v rest hv hrest w hw
    rcases List.mem_cons.mp hw with rfl | hw
    · exact hv
    · exact hrest w hw
  · intro m hm
    cases hm
  · intro m rest hm hrest m' hm'
    rcases List.mem_cons.mp hm' with rfl | hm'
    · exact hm
    · exact hrest m' hm'
  · intro _ v hv
    exact hv

variable {items : List (Json F)} {v : Json F} {members : List (String × Json F)} {key : String}

theorem sizeOf_item (h : v ∈ items) : sizeOf v < sizeOf (Json.arr items) := by
  have hlt := List.sizeOf_lt_of_mem h
  simp only [arr.sizeOf_spec]
  omega

variable {m : String × Json F} {other : String}

theorem sizeOf_member (h : m ∈ members) : sizeOf m.2 < sizeOf (Json.obj members) := by
  have hlt := List.sizeOf_lt_of_mem h
  have hsnd : sizeOf m.2 < sizeOf m := by
    obtain ⟨key, v⟩ := m
    simp only [Prod.mk.sizeOf_spec]
    omega
  simp only [obj.sizeOf_spec]
  omega

/-! ### Dicts -/

/-- `d[key] = v` -/
def assign : List (String × Json F) → String → Json F → List (String × Json F)
  | [], key, v => [(key, v)]
  | m :: rest, key, v => if m.1 = key then (key, v) :: rest else m :: assign rest key v

theorem assign_of_notMem (h : key ∉ members.map (·.1)) :
    assign members key v = members ++ [(key, v)] := by
  induction members with
  | nil => rfl
  | cons m rest ih =>
    simp only [List.map_cons, List.mem_cons, not_or] at h
    rw [assign, if_neg (Ne.symm h.1), ih h.2]
    rfl

theorem mem_assign (h : m ∈ assign members key v) : m ∈ members ∨ m = (key, v) := by
  induction members with
  | nil => exact .inr (List.mem_singleton.mp h)
  | cons m' rest ih =>
    unfold assign at h
    split at h
    · rcases List.mem_cons.mp h with rfl | h
      · exact .inr rfl
      · exact .inl (List.mem_cons_of_mem _ h)
    · rcases List.mem_cons.mp h with rfl | h
      · exact .inl List.mem_cons_self
      · rcases ih h with h | h
        · exact .inl (List.mem_cons_of_mem _ h)
        · exact .inr h

theorem keys_assign_subset {k : String} (h : k ∈ (assign members key v).map (·.1)) :
    k = key ∨ k ∈ members.map (·.1) := by
  obtain ⟨m, hm, rfl⟩ := List.mem_map.mp h
  rcases mem_assign hm with hm | rfl
  · exact .inr (List.mem_map_of_mem hm)
  · exact .inl rfl

theorem nodup_assign (h : (members.map (·.1)).Nodup) :
    ((assign members key v).map (·.1)).Nodup := by
  induction members with
  | nil => simp [assign]
  | cons m rest ih =>
    rw [List.map_cons, List.nodup_cons] at h
    unfold assign
    split
    · rename_i hkey
      rw [List.map_cons, List.nodup_cons]
      exact ⟨hkey ▸ h.1, h.2⟩
    · rename_i hkey
      rw [List.map_cons, List.nodup_cons]
      refine ⟨?_, ih h.2⟩
      intro hmem
      rcases keys_assign_subset hmem with heq | hmem
      · exact hkey heq
      · exact h.1 hmem

theorem lookup_assign_self (members : List (String × Json F)) (key : String) (v : Json F) :
    (assign members key v).lookup key = some v := by
  induction members with
  | nil => simp [assign]
  | cons m rest ih =>
    obtain ⟨key', v'⟩ := m
    rw [assign]
    by_cases h : key' = key
    · rw [if_pos h, List.lookup_cons_self]
    · have hne : (key == key') = false := by simpa using Ne.symm h
      rw [if_neg h, List.lookup_cons, hne]
      exact ih

theorem lookup_assign_of_ne (members : List (String × Json F)) (v : Json F) (h : other ≠ key) :
    (assign members key v).lookup other = members.lookup other := by
  have hne : (other == key) = false := by simpa using h
  induction members with
  | nil => simpa [assign] using h
  | cons m rest ih =>
    obtain ⟨key', v'⟩ := m
    rw [assign]
    by_cases hkey : key' = key
    · rw [if_pos hkey, hkey, List.lookup_cons, List.lookup_cons, hne]
    · rw [if_neg hkey, List.lookup_cons, List.lookup_cons, ih]

/-- `del d[key]` -/
def remove (members : List (String × Json F)) (key : String) : List (String × Json F) :=
  members.filter fun m => m.1 ≠ key

theorem lookup_remove_self (members : List (String × Json F)) (key : String) :
    (remove members key).lookup key = none := by
  rw [List.lookup_eq_none_iff]
  intro m hm
  have hne : m.1 ≠ key := by simpa using (List.mem_filter.mp hm).2
  simpa using Ne.symm hne

theorem lookup_remove_of_ne (members : List (String × Json F)) (h : other ≠ key) :
    (remove members key).lookup other = members.lookup other := by
  induction members with
  | nil => rfl
  | cons m rest ih =>
    obtain ⟨key', v'⟩ := m
    by_cases hkey : key' = key
    · have hne : (other == key') = false := by simpa [hkey] using h
      rw [remove, List.filter_cons_of_neg (by simp [hkey]), List.lookup_cons, hne]
      exact ih
    · rw [remove, List.filter_cons_of_pos (by simp [hkey]), List.lookup_cons, List.lookup_cons]
      cases other == key' with
      | true => rfl
      | false => exact ih

/-- In a dict, a member is what its key is looked up as. -/
theorem lookup_eq_some_iff (hkeys : (members.map (·.1)).Nodup) :
    members.lookup key = some v ↔ (key, v) ∈ members := by
  induction members with
  | nil => simp
  | cons m rest ih =>
    obtain ⟨key', v'⟩ := m
    rw [List.map_cons, List.nodup_cons] at hkeys
    rw [List.lookup_cons, List.mem_cons]
    by_cases h : key = key'
    · subst h
      have hnot : (key, v) ∉ rest := fun hmem =>
        hkeys.1 (List.mem_map.mpr ⟨_, hmem, rfl⟩)
      simp [hnot, eq_comm]
    · have hne : (key == key') = false := by simpa using h
      rw [hne]
      simp [h, ih hkeys.2]

/-- The order of the members does not matter to who reads a dict by its keys. -/
theorem get_of_perm {members' : List (String × Json F)} (h : members.Perm members')
    (hkeys : (members.map (·.1)).Nodup) (key : String) : get members key = get members' key := by
  have hkeys' : (members'.map (·.1)).Nodup := ((h.map _).nodup_iff).mp hkeys
  have hlookup : members.lookup key = members'.lookup key := by
    apply Option.ext
    intro v
    rw [lookup_eq_some_iff hkeys, lookup_eq_some_iff hkeys', h.mem_iff]
  rw [get, get, hlookup]

/-- No object names a key twice. -/
inductive Distinct : Json F → Prop
  | null : Distinct .null
  | bool {b : Bool} : Distinct (.bool b)
  | int {n : Int} : Distinct (.int n)
  | float {x : F} : Distinct (.float x)
  | str {s : String} : Distinct (.str s)
  | arr {items : List (Json F)} (h : ∀ v ∈ items, Distinct v) : Distinct (.arr items)
  | obj {members : List (String × Json F)} (hkeys : (members.map (·.1)).Nodup)
      (h : ∀ m ∈ members, Distinct m.2) : Distinct (.obj members)

theorem distinct_arr_iff : (Json.arr items).Distinct ↔ ∀ v ∈ items, v.Distinct := by
  constructor
  · intro h
    cases h with
    | arr h => exact h
  · exact .arr

theorem distinct_obj_iff : (Json.obj members).Distinct ↔
      (members.map (·.1)).Nodup ∧ ∀ m ∈ members, m.2.Distinct := by
  constructor
  · intro h
    cases h with
    | obj hkeys h => exact ⟨hkeys, h⟩
  · exact fun h => .obj h.1 h.2

theorem assign_distinct (h : (Json.obj members).Distinct) (hv : v.Distinct) :
    (Json.obj (assign members key v)).Distinct := by
  rw [distinct_obj_iff] at h ⊢
  refine ⟨nodup_assign h.1, ?_⟩
  intro m hm
  rcases mem_assign hm with hm | rfl
  · exact h.2 m hm
  · exact hv

/-! ### Sorting keys -/

def byKey (a b : String × Json F) : Prop := a.1 ≤ b.1

instance (a b : String × Json F) : Decidable (byKey a b) := inferInstanceAs (Decidable (_ ≤ _))

mutual
/-- The value with the members of its objects in the order of their keys. -/
def sorted : Json F → Json F
  | .null => .null
  | .bool b => .bool b
  | .int n => .int n
  | .float x => .float x
  | .str s => .str s
  | .arr items => .arr (sortedItems items)
  | .obj members => .obj ((sortedMembers members).insertionSort byKey)
def sortedItems : List (Json F) → List (Json F)
  | [] => []
  | v :: rest => sorted v :: sortedItems rest
def sortedMembers : List (String × Json F) → List (String × Json F)
  | [] => []
  | (key, v) :: rest => (key, sorted v) :: sortedMembers rest
end

theorem sortedItems_eq (items : List (Json F)) : sortedItems items = items.map sorted := by
  induction items with
  | nil => rfl
  | cons v rest ih => simp [sortedItems, ih]

theorem sortedMembers_eq (members : List (String × Json F)) :
    sortedMembers members = members.map fun m => (m.1, m.2.sorted) := by
  induction members with
  | nil => rfl
  | cons m rest ih => simp [sortedMembers, ih]

@[simp] theorem sorted_arr : (Json.arr items).sorted = .arr (items.map sorted) := by
  rw [sorted, sortedItems_eq]

theorem sorted_obj : (Json.obj members).sorted =
      .obj ((members.map fun m => (m.1, m.2.sorted)).insertionSort byKey) := by
  rw [sorted, sortedMembers_eq]

/-- Sorting an object's members only moves them. -/
theorem sorted_perm (members : List (String × Json F)) :
    ((members.map fun m => (m.1, m.2.sorted)).insertionSort byKey).Perm
      (members.map fun m => (m.1, m.2.sorted)) :=
  List.perm_insertionSort _ _

theorem Distinct.sorted (h : v.Distinct) : v.sorted.Distinct := by
  induction h with
  | null | bool | int | float | str => constructor
  | arr _ ih =>
    rw [sorted_arr]
    refine .arr ?_
    intro w hw
    obtain ⟨v, hv, rfl⟩ := List.mem_map.mp hw
    exact ih v hv
  | @obj members hkeys _ ih =>
    rw [sorted_obj]
    have hperm := sorted_perm members
    refine .obj ?_ ?_
    · rw [(hperm.map _).nodup_iff, List.map_map]
      exact hkeys
    · intro m hm
      obtain ⟨m', hm', rfl⟩ := List.mem_map.mp (hperm.mem_iff.mp hm)
      exact ih m' hm'

end Json
