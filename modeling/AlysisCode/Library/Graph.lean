/-
Relations without cycles, and what one more edge does to them.

An edge closes a cycle exactly if its end already led back to its start, so a relation that
is built up edge by edge stays acyclic exactly if no edge ever does.
-/
import Mathlib.Logic.Relation
import Mathlib.Logic.Function.Basic

namespace Graph

open Relation

variable {α : Type*} {r : α → α → Prop} {s t a b : α}

/-- Nothing leads back to where it came from. -/
def Acyclic (r : α → α → Prop) : Prop := ∀ a, ¬ TransGen r a a

/-- The relation with the edge from `s` to `t` added. -/
def WithEdge (r : α → α → Prop) (s t : α) (a b : α) : Prop := r a b ∨ (a = s ∧ b = t)

theorem Acyclic.mono {r' : α → α → Prop} (h : Acyclic r') (hle : ∀ a b, r a b → r' a b) :
    Acyclic r := fun a hcycle =>
  h a (TransGen.mono hle _ _ hcycle)

theorem acyclic_congr {r' : α → α → Prop} (h : ∀ a b, r a b ↔ r' a b) : Acyclic r ↔ Acyclic r' :=
  ⟨fun hr => hr.mono fun a b => (h a b).mpr, fun hr => hr.mono fun a b => (h a b).mp⟩

/-- A walk uses the added edge or it does not. -/
theorem WithEdge.walk (h : ReflTransGen (WithEdge r s t) a b) :
    ReflTransGen r a b ∨ (ReflTransGen r a s ∧ ReflTransGen r t b) := by
  induction h with
  | refl => exact .inl .refl
  | tail _ hstep ih =>
    rcases hstep with hold | ⟨rfl, rfl⟩
    · rcases ih with hwalk | ⟨hfirst, hlast⟩
      · exact .inl (hwalk.tail hold)
      · exact .inr ⟨hfirst, hlast.tail hold⟩
    · rcases ih with hwalk | ⟨hfirst, -⟩
      · exact .inr ⟨hwalk, .refl⟩
      · exact .inr ⟨hfirst, .refl⟩

/-- **An edge closes a cycle exactly if its end led back to its start.** -/
theorem acyclic_withEdge_iff : Acyclic (WithEdge r s t) ↔ Acyclic r ∧ ¬ ReflTransGen r t s := by
  constructor
  · intro h
    refine ⟨h.mono fun a b => .inl, fun hback => ?_⟩
    have hwalk : ReflTransGen (WithEdge r s t) t s := 
      ReflTransGen.mono (fun _ _ => Or.inl) _ _ hback
    exact h s (.head' (.inr ⟨rfl, rfl⟩) hwalk)
  · rintro ⟨hacyclic, hback⟩ a hcycle
    obtain ⟨c, hfirst, hrest⟩ := TransGen.head'_iff.mp hcycle
    rcases hfirst with hold | ⟨rfl, rfl⟩
    · rcases WithEdge.walk hrest with hwalk | ⟨hto, hfrom⟩
      · exact hacyclic a (.head' hold hwalk)
      · exact hback (hfrom.trans (.head hold hto))
    · rcases WithEdge.walk hrest with hwalk | ⟨hto, -⟩
      · exact hback hwalk
      · exact hback hto

end Graph

/-! ### Forests of aliases

Forests of aliases.

Each item has at most one parent, and an item without one is a root.  `Leads a r` says that
following parents from `a` ends at the root `r`.  A forest in which every item leads to a
root has no cycle, and grafting one root onto another keeps it one: what led to the first
then leads to the second.
-/

namespace Forest

variable {α : Type*} {parent : α → Option α}

/-- `b` is the parent of `a`. -/
def Edge (parent : α → Option α) (a b : α) : Prop := parent a = some b

/-- Following parents from the first item ends at the second. -/
inductive Leads (parent : α → Option α) : α → α → Prop
  | root {a : α} (h : parent a = none) : Leads parent a a
  | step {a b r : α} (h : parent a = some b) (hb : Leads parent b r) : Leads parent a r

/-- Every item leads to a root. -/
def Rooted (parent : α → Option α) : Prop := ∀ a, ∃ r, Leads parent a r

theorem Leads.isRoot {a r : α} (h : Leads parent a r) : parent r = none := by
  induction h with
  | root h => exact h
  | step _ _ ih => exact ih

/-- An item leads to one root only. -/
theorem Leads.unique {a r r' : α} (h : Leads parent a r) (h' : Leads parent a r') : r = r' := by
  induction h with
  | root h =>
    cases h' with
    | root => rfl
    | step hstep =>
      rw [h] at hstep
      cases hstep
  | step h _ ih =>
    cases h' with
    | root hroot =>
      rw [h] at hroot
      cases hroot
    | step hstep hb =>
      rw [h, Option.some.injEq] at hstep
      subst hstep
      exact ih hb

/-- A root leads to itself. -/
theorem Leads.eq_of_root {a r : α} (h : Leads parent a r) (ha : parent a = none) : r = a :=
  h.unique (.root ha)

/-- What leads to a root does not come back to where it started. -/
theorem Leads.acyclic {a r : α} (h : Leads parent a r) : ¬ Relation.TransGen (Edge parent) a a := by
  induction h with
  | root h =>
    intro hcycle
    obtain ⟨b, hb, -⟩ := Relation.TransGen.head'_iff.mp hcycle
    have hedge : parent _ = some b := hb
    rw [h] at hedge
    cases hedge
  | @step a b _ h _ ih =>
    intro hcycle
    obtain ⟨c, hc, hback⟩ := Relation.TransGen.head'_iff.mp hcycle
    obtain rfl : b = c := by simpa using h.symm.trans hc
    exact ih (Relation.TransGen.tail' hback h)

theorem rooted_of_no_parents : Rooted fun _ : α => none :=
  fun a => ⟨a, .root rfl⟩

section Graft

variable [DecidableEq α] {s t : α}

/-- Whatever led to `s` leads to `t` once `s` is grafted onto it. -/
theorem Leads.graft {a r : α} (h : Leads parent a r) (hs : parent s = none) (ht : parent t = none)
    (hne : s ≠ t) : Leads (Function.update parent s (some t)) a (if r = s then t else r) := by
  have htop : Leads (Function.update parent s (some t)) t t :=
    .root (by rw [Function.update_of_ne hne.symm, ht])
  induction h with
  | @root a ha =>
    by_cases has : a = s
    · rw [if_pos has, has]
      exact .step (Function.update_self ..) htop
    · rw [if_neg has]
      exact .root (by rw [Function.update_of_ne has, ha])
  | @step a b r ha _ ih =>
    have has : a ≠ s := by
      rintro rfl
      rw [hs] at ha
      cases ha
    exact .step (by rw [Function.update_of_ne has, ha]) ih

/-- Grafting a root onto another keeps the forest. -/
theorem Rooted.graft (h : Rooted parent) (hs : parent s = none) (ht : parent t = none)
    (hne : s ≠ t) : Rooted (Function.update parent s (some t)) := by
  intro a
  obtain ⟨r, hr⟩ := h a
  exact ⟨_, hr.graft hs ht hne⟩

end Graft

end Forest
