/-
Edits of a list that say what they leave alone.

An edit walks along the list: it keeps some items, drops some and inserts others.  What it does
depends on the places only, so that it does the same to a list of other things which are shown as
the items.
-/
import Mathlib.Data.List.Basic

namespace Splice

variable {α β : Type*}

/-- One step along the list. -/
inductive Part (α : Type*) where
  | keep (n : Nat)
  | drop (n : Nat)
  | insert (items : List α)

def Part.map (f : α → β) : Part α → Part β
  | .keep n => .keep n
  | .drop n => .drop n
  | .insert items => .insert (items.map f)

def splice : List (Part α) → List α → List α
  | [], _ => []
  | .keep n :: rest, t => t.take n ++ splice rest (t.drop n)
  | .drop n :: rest, t => splice rest (t.drop n)
  | .insert items :: rest, t => items ++ splice rest t

/-- How far the edit walks. -/
def width : List (Part α) → Nat
  | [] => 0
  | .keep n :: rest => n + width rest
  | .drop n :: rest => n + width rest
  | .insert _ :: rest => width rest

/-- **An edit does the same to what the items are shown as.** -/
theorem map_splice (f : α → β) (parts : List (Part α)) (t : List α) :
    (splice parts t).map f = splice (parts.map (Part.map f)) (t.map f) := by
  induction parts generalizing t with
  | nil => rfl
  | cons part rest ih =>
    cases part with
    | keep n =>
      show (t.take n ++ splice rest (t.drop n)).map f = (t.map f).take n ++ splice _ ((t.map f).drop n)
      rw [List.map_append, ih, List.map_take, List.map_drop]
    | drop n =>
      show (splice rest (t.drop n)).map f = splice _ ((t.map f).drop n)
      rw [ih, List.map_drop]
    | insert items =>
      show (items ++ splice rest t).map f = items.map f ++ splice _ (t.map f)
      rw [List.map_append, ih]

theorem map_map_part {γ : Type*} (f : α → β) (g : β → γ) (parts : List (Part α)) :
    (parts.map (Part.map f)).map (Part.map g) = parts.map (Part.map (g ∘ f)) := by
  rw [List.map_map]
  congr 1
  funext part
  cases part with
  | keep n | drop n => rfl
  | insert items =>
    show Part.insert ((items.map f).map g) = Part.insert (items.map (g ∘ f))
    rw [List.map_map]

theorem map_id_part (parts : List (Part α)) : parts.map (Part.map id) = parts := by
  refine List.map_id'' ?_ parts
  intro part
  cases part with
  | keep n | drop n => rfl
  | insert items => simp [Part.map]

/-! ### Edits put together -/

theorem splice_append {parts more : List (Part α)} {t u : List α} (h : width parts = t.length) :
    splice (parts ++ more) (t ++ u) = splice parts t ++ splice more u := by
  induction parts generalizing t with
  | nil =>
    obtain rfl : t = [] := List.length_eq_zero_iff.mp h.symm
    rfl
  | cons part rest ih =>
    cases part with
    | keep n =>
      have hn : n ≤ t.length := by
        rw [← h, width]
        omega
      have hrest : width rest = (t.drop n).length := by
        rw [List.length_drop, ← h, width]
        omega
      show (t ++ u).take n ++ splice (rest ++ more) ((t ++ u).drop n) =
        (t.take n ++ splice rest (t.drop n)) ++ splice more u
      rw [List.take_append_of_le_length hn, List.drop_append_of_le_length hn, ih hrest,
        List.append_assoc]
    | drop n =>
      have hn : n ≤ t.length := by
        rw [← h, width]
        omega
      have hrest : width rest = (t.drop n).length := by
        rw [List.length_drop, ← h, width]
        omega
      show splice (rest ++ more) ((t ++ u).drop n) = splice rest (t.drop n) ++ splice more u
      rw [List.drop_append_of_le_length hn, ih hrest]
    | insert items =>
      show items ++ splice (rest ++ more) (t ++ u) = (items ++ splice rest t) ++ splice more u
      rw [ih h, List.append_assoc]

theorem width_append (parts more : List (Part α)) :
    width (parts ++ more) = width parts + width more := by
  induction parts with
  | nil => simp [width]
  | cons part rest ih =>
    cases part with
    | keep n | drop n => simp [width, ih, Nat.add_assoc]
    | insert items => simp [width, ih]

/-- The edit of a text that has it in front of more of them. -/
structure Does (parts : List (Part α)) (t t' : List α) : Prop where
  width : width parts = t.length
  splice : splice parts t = t'

theorem Does.append {parts more : List (Part α)} {t t' u u' : List α} (h : Does parts t t')
    (hmore : Does more u u') : Does (parts ++ more) (t ++ u) (t' ++ u') where
  width := by rw [width_append, h.width, hmore.width, List.length_append]
  splice := by rw [splice_append h.width, h.splice, hmore.splice]

theorem does_nil : Does ([] : List (Part α)) [] [] := ⟨rfl, rfl⟩

theorem does_keep (t : List α) : Does [.keep t.length] t t where
  width := by simp [width]
  splice := by simp [splice]

theorem does_drop (t : List α) : Does [.drop t.length] t [] where
  width := by simp [width]
  splice := by simp [splice]

theorem does_insert (items : List α) : Does [.insert items] [] items where
  width := rfl
  splice := by simp [splice]

end Splice

/-! ### First and last items

Lists split at their first or last item of a kind.

Where a list is split in two ways, an item of the kind that stands between items that are not
says how the two are related.
-/

namespace Splits

variable {α : Type*} {p : α → Bool}

/-- The first item of the kind, and what is before and behind it. -/
theorem first_unique {a a' b b' : List α} {u u' : α} (ha : ∀ x ∈ a, p x = false)
    (ha' : ∀ x ∈ a', p x = false) (hu : p u = true) (hu' : p u' = true)
    (h : a ++ u :: b = a' ++ u' :: b') : a = a' ∧ u = u' ∧ b = b' := by
  induction a generalizing a' with
  | nil =>
    cases a' with
    | nil =>
      rw [List.nil_append, List.nil_append, List.cons.injEq] at h
      exact ⟨rfl, h⟩
    | cons x a' =>
      rw [List.nil_append, List.cons_append, List.cons.injEq] at h
      have hx := ha' x List.mem_cons_self
      rw [← h.1, hu] at hx
      cases hx
  | cons x a ih =>
    cases a' with
    | nil =>
      rw [List.nil_append, List.cons_append, List.cons.injEq] at h
      have hx := ha x List.mem_cons_self
      rw [h.1, hu'] at hx
      cases hx
    | cons x' a' =>
      rw [List.cons_append, List.cons_append, List.cons.injEq] at h
      obtain ⟨rfl, hrest⟩ := ih (fun y hy => ha y (List.mem_cons_of_mem x hy))
        (fun y hy => ha' y (List.mem_cons_of_mem x' hy)) h.2
      exact ⟨by rw [h.1], hrest⟩

/-- What has no item of the kind ends before one. -/
theorem split_before {x z mid post : List α} {v : α} (hx : ∀ y ∈ x, p y = false)
    (hv : p v = true) (h : x ++ z = mid ++ v :: post) :
    ∃ rest, mid = x ++ rest ∧ z = rest ++ v :: post := by
  rcases List.append_eq_append_iff.mp h with ⟨rest, hmid, hz⟩ | ⟨rest, hx', hz⟩
  · exact ⟨rest, hmid, hz⟩
  · cases rest with
    | nil =>
      rw [List.append_nil] at hx'
      rw [List.nil_append] at hz
      exact ⟨[], by rw [hx', List.append_nil], by rw [List.nil_append, hz]⟩
    | cons y rest =>
      rw [List.cons_append, List.cons.injEq] at hz
      have hy := hx v (by rw [hx', hz.1]; simp)
      rw [hv] at hy
      cases hy

/-- The last item of the kind, and what is behind it, are behind every item of the kind. -/
theorem last_suffix {before after first rest : List α} {u v : α}
    (hafter : ∀ x ∈ after, p x = false) (hv : p v = true)
    (h : before ++ u :: after = first ++ v :: rest) : u :: after <:+ v :: rest := by
  rcases List.append_eq_append_iff.mp h with ⟨mid, -, hmid⟩ | ⟨mid, -, hmid⟩
  · cases mid with
    | nil =>
      rw [List.nil_append] at hmid
      exact hmid ▸ List.suffix_refl _
    | cons x mid =>
      rw [List.cons_append, List.cons.injEq] at hmid
      have hmem := hafter v (by rw [hmid.2]; simp)
      rw [hv] at hmem
      cases hmem
  · rw [hmid]
    exact List.suffix_append mid _

end Splits
