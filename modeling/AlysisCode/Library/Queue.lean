/-
Taking entries out of the middle of a queue.

`takeWhere p room` takes the first `room` entries for which `p` holds and leaves the others where
they are.  Nothing is lost, both parts keep their order, and every entry that was looked for and
stays is behind all that were taken.
-/
import Mathlib.Data.List.Perm.Basic

namespace Queue

variable {α β : Type}

/-- The first `room` entries with `p`, and what stays of the queue. -/
def takeWhere (p : α → Bool) : Nat → List α → List α × List α
  | _, [] => ([], [])
  | room, item :: rest =>
    if p item = true ∧ 0 < room then
      (item :: (takeWhere p (room - 1) rest).1, (takeWhere p (room - 1) rest).2)
    else ((takeWhere p room rest).1, item :: (takeWhere p room rest).2)

theorem takeWhere_map (f : β → α) (p : α → Bool) (room : Nat) (queue : List β) :
    takeWhere p room (queue.map f) =
      ((takeWhere (p ∘ f) room queue).1.map f, (takeWhere (p ∘ f) room queue).2.map f) := by
  induction queue generalizing room with
  | nil => rfl
  | cons item rest ih =>
    rw [List.map_cons]
    unfold takeWhere
    rw [Function.comp_apply, ih, ih]
    by_cases htake : p (f item) = true ∧ 0 < room
    · rw [if_pos htake, if_pos htake, List.map_cons]
    · rw [if_neg htake, if_neg htake, List.map_cons]

variable (p : α → Bool) (room : Nat) (queue : List α)

/-- Nothing is lost and nothing comes in. -/
theorem takeWhere_perm : ((takeWhere p room queue).1 ++ (takeWhere p room queue).2).Perm queue := by
  induction queue generalizing room with
  | nil => exact List.Perm.nil
  | cons item rest ih =>
    unfold takeWhere
    by_cases htake : p item = true ∧ 0 < room
    · rw [if_pos htake]
      exact (ih (room - 1)).cons item
    · rw [if_neg htake]
      exact List.perm_middle.trans ((ih room).cons item)

theorem of_mem_taken {p : α → Bool} {room : Nat} {queue : List α} {a : α}
    (h : a ∈ (takeWhere p room queue).1) : p a = true := by
  induction queue generalizing room with
  | nil => cases h
  | cons item rest ih =>
    unfold takeWhere at h
    by_cases htake : p item = true ∧ 0 < room
    · rw [if_pos htake] at h
      cases h with
      | head => exact htake.1
      | tail _ h => exact ih h
    · rw [if_neg htake] at h
      exact ih h

theorem mem_of_taken {p : α → Bool} {room : Nat} {queue : List α} {a : α}
    (h : a ∈ (takeWhere p room queue).1) : a ∈ queue :=
  (takeWhere_perm p room queue).subset (List.mem_append_left _ h)

theorem mem_of_kept {p : α → Bool} {room : Nat} {queue : List α} {a : α}
    (h : a ∈ (takeWhere p room queue).2) : a ∈ queue :=
  (takeWhere_perm p room queue).subset (List.mem_append_right _ h)

theorem kept_sublist : (takeWhere p room queue).2.Sublist queue := by
  induction queue generalizing room with
  | nil => exact List.Sublist.slnil
  | cons item rest ih =>
    unfold takeWhere
    by_cases htake : p item = true ∧ 0 < room
    · rw [if_pos htake]
      exact (ih (room - 1)).cons item
    · rw [if_neg htake]
      exact (ih room).cons_cons item

theorem taken_sublist : (takeWhere p room queue).1.Sublist queue := by
  induction queue generalizing room with
  | nil => exact List.Sublist.slnil
  | cons item rest ih =>
    unfold takeWhere
    by_cases htake : p item = true ∧ 0 < room
    · rw [if_pos htake]
      exact (ih (room - 1)).cons_cons item
    · rw [if_neg htake]
      exact (ih room).cons item

theorem takeWhere_zero : takeWhere p 0 queue = ([], queue) := by
  induction queue with
  | nil => rfl
  | cons item rest ih =>
    unfold takeWhere
    rw [if_neg (fun h => Nat.lt_irrefl 0 h.2), ih]

theorem length_taken : (takeWhere p room queue).1.length ≤ room := by
  induction queue generalizing room with
  | nil => exact Nat.zero_le _
  | cons item rest ih =>
    unfold takeWhere
    by_cases htake : p item = true ∧ 0 < room
    · rw [if_pos htake, List.length_cons]
      have hrest := ih (room - 1)
      omega
    · rw [if_neg htake]
      exact ih room

/-- Where nothing is taken, the queue stays as it is. -/
theorem kept_of_nothing {p : α → Bool} {room : Nat} {queue : List α}
    (h : (takeWhere p room queue).1 = []) : (takeWhere p room queue).2 = queue := by
  have hperm := takeWhere_perm p room queue
  rw [h, List.nil_append] at hperm
  exact (kept_sublist p room queue).eq_of_length hperm.length_eq

/-- **What was looked for and stays is behind all that was taken.** -/
theorem taken_before {R : α → α → Prop} {p : α → Bool} {queue : List α}
    (h : queue.Pairwise R) {room : Nat} {a b : α} (ha : a ∈ (takeWhere p room queue).1)
    (hb : b ∈ (takeWhere p room queue).2) (hp : p b = true) : R a b := by
  induction queue generalizing room with
  | nil => cases ha
  | cons item rest ih =>
    have hrest := List.pairwise_cons.mp h
    unfold takeWhere at ha hb
    by_cases htake : p item = true ∧ 0 < room
    · rw [if_pos htake] at ha hb
      cases ha with
      | head => exact hrest.1 b (mem_of_kept hb)
      | tail _ ha => exact ih hrest.2 ha hb
    · rw [if_neg htake] at ha hb
      cases hb with
      | head =>
        -- it was left for want of room, so nothing is taken behind it either
        have hroom : room = 0 := Nat.eq_zero_of_not_pos fun hpos => htake ⟨hp, hpos⟩
        rw [hroom, takeWhere_zero] at ha
        cases ha
      | tail _ hb => exact ih hrest.2 ha hb

end Queue
