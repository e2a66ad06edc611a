/-
Tables of rows, as SQL statements read and write them.

A table is the list of its rows in primary-key order.  `UPDATE … SET f WHERE p` is
`updateWhere`, and a `UNIQUE` column set or a partial unique index is a `Pairwise`
relation on the rows.  The lemmas say which of a table's properties a statement can
change: those about columns it does not write, never.
-/
import Mathlib.Data.List.Pairwise
import Mathlib.Data.List.Count

namespace Table

variable {α β : Type*}

/-- `UPDATE … SET f WHERE p`. -/
def updateWhere (p : α → Bool) (f : α → α) (rows : List α) : List α :=
  rows.map fun r => if p r then f r else r

@[simp] theorem length_updateWhere (p : α → Bool) (f : α → α) (rows : List α) :
    (updateWhere p f rows).length = rows.length := List.length_map _

variable {f : α → α} {p q : α → Bool} {rows : List α} {r : α} {g : α → β}

theorem mem_updateWhere :
    r ∈ updateWhere p f rows ↔ ∃ a ∈ rows, (if p a then f a else a) = r := List.mem_map

/-- A row the statement selects is in the table afterwards, rewritten. -/
theorem mem_updateWhere_of_pos {a : α} (ha : a ∈ rows) (hp : p a = true) :
    f a ∈ updateWhere p f rows :=
  mem_updateWhere.mpr ⟨a, ha, by rw [if_pos hp]⟩

/-- A row it does not select stays as it is. -/
theorem mem_updateWhere_of_neg {a : α} (ha : a ∈ rows) (hp : ¬ p a = true) :
    a ∈ updateWhere p f rows :=
  mem_updateWhere.mpr ⟨a, ha, by rw [if_neg hp]⟩

/-- What the statement leaves is either an old row or the rewriting of a selected one. -/
theorem of_mem_updateWhere (h : r ∈ updateWhere p f rows) :
    (r ∈ rows ∧ ¬ p r = true) ∨ ∃ a ∈ rows, p a = true ∧ r = f a := by
  obtain ⟨a, ha, hr⟩ := mem_updateWhere.mp h
  by_cases hp : p a = true
  · rw [if_pos hp] at hr
    exact .inr ⟨a, ha, hp, hr.symm⟩
  · rw [if_neg hp] at hr
    subst hr
    exact .inl ⟨ha, hp⟩

/-- A column the statement does not write is unchanged. -/
theorem map_updateWhere (hg : ∀ a, g (f a) = g a) (rows : List α) :
    (updateWhere p f rows).map g = rows.map g := by
  rw [updateWhere, List.map_map]
  refine List.map_congr_left fun a _ => ?_
  by_cases hp : p a = true
  · simp [hp, hg]
  · simp [hp]

/-- A statement that selects no row does nothing. -/
theorem updateWhere_of_none (h : ∀ a ∈ rows, ¬ p a = true) : updateWhere p f rows = rows := by
  unfold updateWhere
  refine (List.map_congr_left fun a ha => ?_).trans (List.map_id rows)
  rw [if_neg (h a ha)]
  rfl

/-- Two statements on the same rows are one. -/
theorem updateWhere_updateWhere {g : α → α} (hp : ∀ a, p (f a) = p a) (rows : List α) :
    updateWhere p g (updateWhere p f rows) = updateWhere p (fun a => g (f a)) rows := by
  unfold updateWhere
  rw [List.map_map]
  refine List.map_congr_left fun a _ => ?_
  by_cases h : p a = true
  · simp [h, hp]
  · simp [h]

/-! ### The first row in order -/

/-- `ORDER BY … LIMIT 1`: in a table sorted by `R`, the row found precedes every other
row the statement selects. -/
theorem find?_first {R : α → α → Prop} (hsorted : rows.Pairwise R) (h : rows.find? p = some r) :
    ∀ b ∈ rows, p b = true → b = r ∨ R r b := by
  induction rows with
  | nil => simp at h
  | cons a rest ih =>
    rw [List.pairwise_cons] at hsorted
    intro b hb hpb
    by_cases ha : p a = true
    · rw [List.find?_cons_of_pos ha, Option.some.injEq] at h
      subst h
      rcases List.mem_cons.mp hb with rfl | hb
      · exact .inl rfl
      · exact .inr (hsorted.1 b hb)
    · rw [List.find?_cons_of_neg ha] at h
      rcases List.mem_cons.mp hb with rfl | hb
      · exact absurd hpb ha
      · exact ih hsorted.2 h b hb hpb

/-! ### Counting -/

/-- A count over a column set the statement leaves alone does not change. -/
theorem countP_updateWhere (h : ∀ a ∈ rows, p a = true → q (f a) = q a) :
    (updateWhere p f rows).countP q = rows.countP q := by
  rw [updateWhere, List.countP_map]
  refine List.countP_congr fun a ha => ?_
  by_cases hp : p a = true
  · simp [hp, h a ha hp]
  · simp [hp]

/-- A count can only fall when no rewritten row newly satisfies the predicate. -/
theorem countP_updateWhere_le (h : ∀ a ∈ rows, p a = true → q (f a) = true → q a = true) :
    (updateWhere p f rows).countP q ≤ rows.countP q := by
  rw [updateWhere, List.countP_map]
  refine List.countP_mono_left fun a ha hq => ?_
  by_cases hp : p a = true
  · exact h a ha hp (by simpa [hp] using hq)
  · simpa [hp] using hq

/-- A predicate that splits into two disjoint ones is counted in two parts. -/
theorem countP_eq_add {s : α → Bool}
    (h : ∀ a ∈ rows, p a = (q a || s a) ∧ ¬ (q a = true ∧ s a = true)) :
    rows.countP p = rows.countP q + rows.countP s := by
  induction rows with
  | nil => rfl
  | cons a rest ih =>
    have hrest := ih fun b hb => h b (List.mem_cons_of_mem a hb)
    obtain ⟨hor, hnot⟩ := h a List.mem_cons_self
    rw [List.countP_cons, List.countP_cons, List.countP_cons, hrest, hor]
    cases hq : q a with
    | true =>
      have hs : s a = false := by
        cases hs : s a with
        | false => rfl
        | true => exact absurd ⟨hq, hs⟩ hnot
      simp only [hs, Bool.or_false, if_true]
      simp
      omega
    | false =>
      simp only [Bool.false_or]
      simp
      omega

/-- A count rises by the number of selected rows when each of them newly satisfies the
predicate. -/
theorem countP_updateWhere_add (h : ∀ a ∈ rows, p a = true → q a = false ∧ q (f a) = true) :
    (updateWhere p f rows).countP q = rows.countP q + rows.countP p := by
  rw [updateWhere, List.countP_map]
  apply countP_eq_add
  intro a ha
  by_cases hp : p a = true
  · obtain ⟨hold, hnew⟩ := h a ha hp
    simp [hp, hold, hnew]
  · simp [hp]

/-- One row has a column value that no two rows share. -/
theorem countP_of_nodup [BEq β] [LawfulBEq β] {row : α} (hnodup : (rows.map g).Nodup)
    (hrow : row ∈ rows) : rows.countP (g · == g row) = 1 := by
  have hcount : (rows.map g).count (g row) = 1 := by
    rw [hnodup.count, if_pos (List.mem_map_of_mem hrow)]
  rwa [List.count_eq_countP, List.countP_map] at hcount

end Table
