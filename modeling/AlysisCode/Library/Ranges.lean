/-
Lists of closed integer ranges.

A list of pairs stands for the numbers between the ends of any of them.  `absorb` joins a
range to the last one of a list that is sorted by where the ranges begin, and `without` cuts
one range out of the others; the numbers that are left come out in order, so a list of ranges
can be read as the list of its numbers.
-/
import Mathlib.Data.List.Sort

namespace Ranges

/-- `range(start, end + 1)`. -/
def numbers (r : Int × Int) : List Int :=
  (List.range (r.2 + 1 - r.1).toNat).map fun i : Nat => r.1 + (i : Int)

def Covers (ranges : List (Int × Int)) (n : Int) : Prop := ∃ r ∈ ranges, r.1 ≤ n ∧ n ≤ r.2

instance (ranges : List (Int × Int)) (n : Int) : Decidable (Covers ranges n) :=
  inferInstanceAs (Decidable (∃ r ∈ ranges, _))

variable {ranges rest : List (Int × Int)} {r : Int × Int} {n : Int}

@[simp] theorem mem_numbers : n ∈ numbers r ↔ r.1 ≤ n ∧ n ≤ r.2 := by
  unfold numbers
  rw [List.mem_map]
  constructor
  · rintro ⟨i, hi, rfl⟩
    rw [List.mem_range] at hi
    omega
  · rintro ⟨hlo, hhi⟩
    refine ⟨(n - r.1).toNat, ?_, ?_⟩
    · rw [List.mem_range]
      omega
    · omega

@[simp] theorem length_numbers : (numbers r).length = (r.2 + 1 - r.1).toNat := by
  simp [numbers]

@[simp] theorem covers_nil : ¬ Covers [] n := by simp [Covers]

@[simp] theorem covers_cons : Covers (r :: rest) n ↔ (r.1 ≤ n ∧ n ≤ r.2) ∨ Covers rest n := by
  simp [Covers]

@[simp] theorem covers_append : Covers (ranges ++ rest) n ↔ Covers ranges n ∨ Covers rest n := by
  simp only [Covers, List.mem_append, or_and_right, exists_or]

theorem covers_iff_mem : Covers ranges n ↔ n ∈ ranges.flatMap numbers := by
  simp [Covers]

theorem pairwise_numbers (r : Int × Int) : (numbers r).Pairwise (· < ·) := by
  unfold numbers
  rw [List.pairwise_map]
  apply List.pairwise_lt_range.imp
  intro i j hij
  omega

theorem numbers_eq_nil (h : r.2 < r.1) : numbers r = [] := by
  apply List.eq_nil_of_length_eq_zero
  rw [length_numbers]
  omega

/-- A range is its numbers up to a point and those behind it. -/
theorem numbers_split {a m b : Int} (ha : a ≤ m) (hb : m ≤ b + 1) :
    numbers (a, b) = numbers (a, m - 1) ++ numbers (m, b) := by
  obtain ⟨i, rfl⟩ := Int.le.dest ha
  have hlen : (b + 1 - a).toNat = i + (b + 1 - (a + i)).toNat := by omega
  have hfirst : (a + i - 1 + 1 - a).toNat = i := by omega
  unfold numbers
  simp only
  rw [hlen, hfirst, List.range_add, List.map_append, List.map_map]
  congr 1
  apply List.map_congr_left
  intro j _
  simp only [Function.comp_apply]
  omega

/-- The numbers of a range within another, by where they stand among its numbers. -/
theorem numbers_within {a b first last : Int} (ha : a ≤ first) (hle : first ≤ last + 1)
    (hb : last ≤ b) : numbers (first, last) =
      ((numbers (a, b)).take (last + 1 - a).toNat).drop (first - a).toNat := by
  have hbehind : numbers (a, b) = numbers (a, last) ++ numbers (last + 1, b) := by
    rw [numbers_split (m := last + 1) (by omega) (by omega), Int.add_sub_cancel]
  have hbefore : numbers (a, last) = numbers (a, first - 1) ++ numbers (first, last) :=
    numbers_split ha hle
  have hlen : (numbers (a, first - 1)).length = (first - a).toNat := by
    rw [length_numbers]
    simp only
    omega
  have hall : (numbers (a, last)).length = (last + 1 - a).toNat := length_numbers
  rw [hbehind, List.take_left' hall, hbefore, List.drop_left' hlen]

/-! ### Joining ranges -/

/-- Join a range that begins no earlier to the last one, unless a number lies between. -/
def absorb (merged : List (Int × Int)) (r : Int × Int) : List (Int × Int) :=
  match merged.getLast? with
  | none => [r]
  | some last =>
    if last.2 + 1 < r.1 then merged ++ [r]
    else merged.dropLast ++ [(last.1, max last.2 r.2)]

/-- No range of the list begins behind `n`. -/
def BeginsBy (ranges : List (Int × Int)) (n : Int) : Prop := ∀ r ∈ ranges, r.1 ≤ n

variable {merged : List (Int × Int)}

theorem absorb_covers (h : BeginsBy merged r.1) :
    Covers (absorb merged r) n ↔ Covers merged n ∨ (r.1 ≤ n ∧ n ≤ r.2) := by
  rcases List.eq_nil_or_concat' merged with rfl | ⟨init, last, rfl⟩
  · simp [absorb]
  · have hlast := h last (by simp)
    unfold absorb
    rw [List.getLast?_concat]
    dsimp only
    split
    · simp [or_assoc]
    · simp only [List.dropLast_concat, covers_append, covers_cons, covers_nil, or_false]
      constructor
      · rintro (hinit | hjoined)
        · exact .inl (.inl hinit)
        · omega
      · rintro ((hinit | hold) | hnew)
        · exact .inl hinit
        · right
          omega
        · right
          omega

theorem absorb_beginsBy (h : BeginsBy merged r.1) : BeginsBy (absorb merged r) r.1 := by
  rcases List.eq_nil_or_concat' merged with rfl | ⟨init, last, rfl⟩
  · simp [absorb, BeginsBy]
  · unfold absorb
    rw [List.getLast?_concat]
    dsimp only
    unfold BeginsBy at h ⊢
    split
    · intro x hx
      rcases List.mem_append.mp hx with hx | hx
      · exact h x hx
      · rw [List.mem_singleton.mp hx]
    · intro x hx
      rw [List.dropLast_concat] at hx
      rcases List.mem_append.mp hx with hx | hx
      · exact h x (List.mem_append_left _ hx)
      · rw [List.mem_singleton.mp hx]
        exact h last (by simp)

/-- Joined, ranges that begin in order hold the same numbers. -/
theorem covers_foldl_absorb (hsorted : ranges.Pairwise (·.1 ≤ ·.1))
    (h : ∀ r ∈ ranges, BeginsBy merged r.1) :
    Covers (ranges.foldl absorb merged) n ↔ Covers merged n ∨ Covers ranges n := by
  induction ranges generalizing merged with
  | nil => simp
  | cons r rest ih =>
    obtain ⟨hfirst, hrest⟩ := List.pairwise_cons.mp hsorted
    have hr := h r List.mem_cons_self
    have hnext : ∀ r' ∈ rest, BeginsBy (absorb merged r) r'.1 := by
      intro r' hr' x hx
      exact (absorb_beginsBy hr x hx).trans (hfirst r' hr')
    rw [List.foldl_cons, ih hrest hnext, absorb_covers hr, covers_cons, or_assoc]

/-- No range ends before it begins. -/
def Proper (ranges : List (Int × Int)) : Prop := ∀ r ∈ ranges, r.1 ≤ r.2

theorem Proper.absorb {merged : List (Int × Int)} (h : Proper merged) (hr : r.1 ≤ r.2) :
    Proper (absorb merged r) := by
  unfold Ranges.absorb
  split
  · intro x hx
    rw [List.mem_singleton.mp hx]
    exact hr
  · rename_i last hlast
    have hle := h last (List.mem_of_getLast? hlast)
    split
    · intro x hx
      rcases List.mem_append.mp hx with hx | hx
      · exact h x hx
      · rw [List.mem_singleton.mp hx]
        exact hr
    · intro x hx
      rcases List.mem_append.mp hx with hx | hx
      · exact h x (List.dropLast_subset _ hx)
      · rw [List.mem_singleton.mp hx]
        exact hle.trans (le_max_left _ _)

theorem Proper.foldl_absorb (h : Proper merged) (hranges : Proper ranges) :
    Proper (ranges.foldl Ranges.absorb merged) := by
  induction ranges generalizing merged with
  | nil => exact h
  | cons r rest ih =>
    exact ih (h.absorb (hranges r List.mem_cons_self)) fun x hx =>
      hranges x (List.mem_cons_of_mem r hx)

/-! ### Cutting a range out -/

/-- The parts of a range outside another. -/
def cut (hole r : Int × Int) : List (Int × Int) :=
  if hole.2 < r.1 ∨ r.2 < hole.1 then [r]
  else (if r.1 < hole.1 then [(r.1, hole.1 - 1)] else []) ++
    if hole.2 < r.2 then [(hole.2 + 1, r.2)] else []

/-- The parts of the ranges outside one. -/
def without (remaining : List (Int × Int)) (hole : Int × Int) : List (Int × Int) :=
  remaining.flatMap (cut hole)

/-- **What is left of a range are its numbers outside the hole, in order.** -/
theorem numbers_cut {hole : Int × Int} (hhole : hole.1 ≤ hole.2) (r : Int × Int) :
    (cut hole r).flatMap numbers = (numbers r).filter fun n => ¬ (hole.1 ≤ n ∧ n ≤ hole.2) := by
  obtain ⟨a, b⟩ := r
  obtain ⟨lo, hi⟩ := hole
  unfold cut
  simp only at hhole ⊢
  split
  · rw [List.flatMap_singleton, List.filter_eq_self.mpr]
    intro n hn
    rw [mem_numbers] at hn
    simp only [decide_eq_true_eq]
    omega
  · rcases Int.lt_or_le b a with hempty | hab
    · rw [if_neg (by omega), if_neg (by omega), numbers_eq_nil (by exact hempty)]
      rfl
    have hleft : (if a < lo then [(a, lo - 1)] else []).flatMap numbers =
        (numbers (a, max a lo - 1)) := by
      split
      · rw [List.flatMap_singleton, max_eq_right (by omega)]
      · rw [numbers_eq_nil (by simp only; omega)]
        rfl
    have hright : (if hi < b then [(hi + 1, b)] else []).flatMap numbers =
        numbers (min hi b + 1, b) := by
      split
      · rw [List.flatMap_singleton, min_eq_left (by omega)]
      · rw [numbers_eq_nil (by simp only; omega)]
        rfl
    have hsplit : numbers (a, b) = numbers (a, max a lo - 1) ++
        (numbers (max a lo, min hi b) ++ numbers (min hi b + 1, b)) := by
      rw [numbers_split (m := max a lo) (by omega) (by omega)]
      congr 1
      rw [numbers_split (m := min hi b + 1) (by omega) (by omega), Int.add_sub_cancel]
    have hkeep : ∀ s, (∀ n ∈ numbers s, n < lo ∨ hi < n) →
        (numbers s).filter (fun n => ¬ (lo ≤ n ∧ n ≤ hi)) = numbers s := by
      intro s hs
      rw [List.filter_eq_self]
      intro n hn
      have := hs n hn
      simp only [decide_eq_true_eq]
      omega
    have hgone : (numbers (max a lo, min hi b)).filter (fun n => ¬ (lo ≤ n ∧ n ≤ hi)) = [] := by
      rw [List.filter_eq_nil_iff]
      intro n hn
      rw [mem_numbers] at hn
      simp only [decide_eq_true_eq]
      omega
    rw [List.flatMap_append, hleft, hright, hsplit, List.filter_append, List.filter_append,
      hkeep (a, max a lo - 1) (by simp only [mem_numbers]; omega),
      hkeep (min hi b + 1, b) (by simp only [mem_numbers]; omega), hgone, List.nil_append]

theorem numbers_without {hole : Int × Int} (hhole : hole.1 ≤ hole.2)
    (remaining : List (Int × Int)) :
    (without remaining hole).flatMap numbers =
      (remaining.flatMap numbers).filter fun n => ¬ (hole.1 ≤ n ∧ n ≤ hole.2) := by
  unfold without
  rw [List.flatMap_assoc, List.filter_flatMap]
  exact List.flatMap_congr fun r _ => numbers_cut hhole r

/-- **Cutting out all the holes leaves the numbers no hole holds, in order.** -/
theorem numbers_foldl_without {holes : List (Int × Int)} (hholes : Proper holes)
    (remaining : List (Int × Int)) :
    (holes.foldl without remaining).flatMap numbers =
      (remaining.flatMap numbers).filter fun n => ¬ Covers holes n := by
  induction holes generalizing remaining with
  | nil => simp
  | cons hole rest ih =>
    have hhole := hholes hole List.mem_cons_self
    rw [List.foldl_cons, ih (fun x hx => hholes x (List.mem_cons_of_mem hole hx)),
      numbers_without hhole, List.filter_filter]
    apply List.filter_congr
    intro n _
    simp only [covers_cons, not_or, Bool.decide_and, Bool.and_comm]

theorem Proper.without (remaining : List (Int × Int)) (h : Proper remaining)
    (hole : Int × Int) : Proper (without remaining hole) := by
  intro x hx
  obtain ⟨r, hr, hx⟩ := List.mem_flatMap.mp hx
  have hle := h r hr
  unfold cut at hx
  split at hx
  · rw [List.mem_singleton.mp hx]
    exact hle
  · rcases List.mem_append.mp hx with hx | hx
    · split at hx
      · rw [List.mem_singleton.mp hx]
        simp only
        omega
      · cases hx
    · split at hx
      · rw [List.mem_singleton.mp hx]
        simp only
        omega
      · cases hx

theorem Proper.foldl_without {remaining : List (Int × Int)} (h : Proper remaining)
    (holes : List (Int × Int)) : Proper (holes.foldl Ranges.without remaining) := by
  induction holes generalizing remaining with
  | nil => exact h
  | cons hole _ ih => exact ih (Proper.without remaining h hole)

end Ranges
