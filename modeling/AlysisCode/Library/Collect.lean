/-
Collecting items from a list in one pass.

`distinct` keeps the first item of every key until there are enough, and `best` keeps for
every key the first of its best items, at the place where the key came first.  `keepOne` is the
step of `distinct` without a limit.  A list that
needs no collecting is left as it is, which is what makes both idempotent.
-/
import Mathlib.Data.List.Induction
import Mathlib.Data.List.Nodup

namespace Collect

variable {α κ : Type*} [DecidableEq κ] {key : α → κ}

/-! ### The first item of every key -/

/-- The items behind `out` whose keys were not seen before, until there are `limit`. -/
def distinct (key : α → κ) (limit : Nat) (out : List α) : List α → List α
  | [] => out
  | a :: rest =>
    if key a ∈ out.map key then distinct key limit out rest
    else if limit ≤ out.length + 1 then out ++ [a]
    else distinct key limit (out ++ [a]) rest

omit [DecidableEq κ] in
theorem nodup_snoc {out : List α} {a : α} (hout : (out.map key).Nodup) (ha : key a ∉ out.map key) :
    ((out ++ [a]).map key).Nodup := by
  rw [List.map_append, List.nodup_append]
  refine ⟨hout, by simp, fun k hk k' hk' heq => ?_⟩
  rw [List.map_singleton, List.mem_singleton] at hk'
  exact ha (hk' ▸ heq ▸ hk)

variable {items out kept : List α} {limit : Nat} {a : α}

theorem nodup_distinct (h : (out.map key).Nodup) :
    ((distinct key limit out items).map key).Nodup := by
  induction items generalizing out with
  | nil => exact h
  | cons a rest ih =>
    rw [distinct]
    by_cases ha : key a ∈ out.map key
    · rw [if_pos ha]
      exact ih h
    · rw [if_neg ha]
      by_cases hfull : limit ≤ out.length + 1
      · rw [if_pos hfull]
        exact nodup_snoc h ha
      · rw [if_neg hfull]
        exact ih (nodup_snoc h ha)

theorem length_distinct (h : out.length < limit) :
    (distinct key limit out items).length ≤ limit := by
  induction items generalizing out with
  | nil =>
    show out.length ≤ limit
    omega
  | cons a rest ih =>
    rw [distinct]
    by_cases ha : key a ∈ out.map key
    · rw [if_pos ha]
      exact ih h
    · rw [if_neg ha]
      by_cases hfull : limit ≤ out.length + 1
      · rw [if_pos hfull, List.length_append, List.length_singleton]
        omega
      · rw [if_neg hfull]
        refine ih ?_
        rw [List.length_append, List.length_singleton]
        omega

theorem mem_distinct (h : a ∈ distinct key limit out items) : a ∈ out ∨ a ∈ items := by
  induction items generalizing out with
  | nil => exact .inl h
  | cons b rest ih =>
    rw [distinct] at h
    have hsnoc (h : a ∈ out ++ [b] ∨ a ∈ rest) : a ∈ out ∨ a ∈ b :: rest := by
      rcases h with h | h
      · rcases List.mem_append.mp h with h | h
        · exact .inl h
        · exact .inr (List.mem_singleton.mp h ▸ List.mem_cons_self)
      · exact .inr (List.mem_cons_of_mem b h)
    by_cases hb : key b ∈ out.map key
    · rw [if_pos hb] at h
      rcases ih h with h | h
      · exact .inl h
      · exact .inr (List.mem_cons_of_mem b h)
    · rw [if_neg hb] at h
      by_cases hfull : limit ≤ out.length + 1
      · rw [if_pos hfull] at h
        exact hsnoc (.inl h)
      · rw [if_neg hfull] at h
        exact hsnoc (ih h)

theorem distinct_eq (hkeys : ((out ++ items).map key).Nodup)
    (hlength : (out ++ items).length ≤ limit) :
    distinct key limit out items = out ++ items := by
  induction items generalizing out with
  | nil => rw [distinct, List.append_nil]
  | cons a rest ih =>
    have hsnoc : out ++ a :: rest = out ++ [a] ++ rest := by simp
    have ha : key a ∉ out.map key := by
      intro hmem
      rw [List.map_append, List.map_cons, List.nodup_append] at hkeys
      exact hkeys.2.2 _ hmem _ List.mem_cons_self rfl
    rw [distinct, if_neg ha]
    rw [hsnoc] at hkeys hlength ⊢
    by_cases hfull : limit ≤ out.length + 1
    · rw [if_pos hfull]
      have hrest : rest = [] := by
        rw [← List.length_eq_zero_iff]
        simp only [List.length_append, List.length_singleton] at hlength
        omega
      rw [hrest, List.append_nil]
    · rw [if_neg hfull]
      exact ih hkeys hlength

/-! ### One more, unless its key is there -/

/-- The item joins the kept ones if none of them has its key. -/
def keepOne (key : α → κ) (kept : List α) (a : α) : List α :=
  if key a ∈ kept.map key then kept else kept ++ [a]

/-- What is kept of the items: those of the beginning, and the first of every other key. -/
theorem mem_keepFirst : a ∈ items.foldl (keepOne key) kept ↔
      a ∈ kept ∨ ∃ before after, items = before ++ a :: after ∧
        key a ∉ (kept ++ before).map key := by
  induction items generalizing kept with
  | nil => simp
  | cons b rest ih =>
    rw [List.foldl_cons, ih]
    unfold keepOne
    by_cases hb : key b ∈ kept.map key
    · rw [if_pos hb]
      refine or_congr_right ?_
      constructor
      · intro ⟨before, after, hrest, hnew⟩
        refine ⟨b :: before, after, by rw [hrest, List.cons_append], ?_⟩
        simp only [List.map_append, List.mem_append, List.map_cons, List.mem_cons, not_or] at hnew ⊢
        exact ⟨hnew.1, fun heq => hnew.1 (heq ▸ hb), hnew.2⟩
      · intro ⟨before, after, hrest, hnew⟩
        cases before with
        | nil =>
          obtain ⟨rfl, -⟩ := List.cons.inj hrest
          rw [List.append_nil] at hnew
          exact absurd hb hnew
        | cons c before =>
          rw [List.cons_append, List.cons.injEq] at hrest
          obtain ⟨rfl, hrest⟩ := hrest
          refine ⟨before, after, hrest, fun h => hnew ?_⟩
          simp only [List.map_append, List.mem_append, List.map_cons, List.mem_cons] at h ⊢
          exact h.imp_right Or.inr
    · rw [if_neg hb, List.mem_append, List.mem_singleton, or_assoc]
      refine or_congr_right ?_
      constructor
      · intro h
        rcases h with rfl | ⟨before, after, hrest, hnew⟩
        · exact ⟨[], rest, rfl, by simpa using hb⟩
        · refine ⟨b :: before, after, by rw [hrest, List.cons_append], ?_⟩
          simpa using hnew
      · intro ⟨before, after, hrest, hnew⟩
        cases before with
        | nil =>
          obtain ⟨rfl, -⟩ := List.cons.inj hrest
          exact .inl rfl
        | cons c before =>
          rw [List.cons_append, List.cons.injEq] at hrest
          obtain ⟨rfl, hrest⟩ := hrest
          exact .inr ⟨before, after, hrest, by simpa using hnew⟩

theorem mem_of_mem_keepFirst (h : a ∈ items.foldl (keepOne key) kept) : a ∈ kept ∨ a ∈ items := by
  rcases mem_keepFirst.mp h with h | ⟨before, after, rfl, -⟩
  · exact .inl h
  · exact .inr (List.mem_append_right before List.mem_cons_self)

theorem starts_keepFirst (kept items : List α) : kept <+: items.foldl (keepOne key) kept := by
  induction items generalizing kept with
  | nil => exact List.prefix_refl kept
  | cons a rest ih =>
    have hone : kept <+: keepOne key kept a := by
      unfold keepOne
      split
      · exact List.prefix_refl kept
      · exact List.prefix_append kept [a]
    exact hone.trans (ih _)

variable {β : Type*} {f : β → List α} {groups : List β}

/-- What is kept of several groups is kept of one of them alone. -/
theorem mem_keepFirst_flatMap (h : a ∈ (groups.flatMap f).foldl (keepOne key) kept) :
    a ∈ kept ∨ ∃ g ∈ groups, a ∈ (f g).foldl (keepOne key) [] := by
  induction groups generalizing kept with
  | nil => exact .inl h
  | cons g rest ih =>
    rw [List.flatMap_cons, List.foldl_append] at h
    rcases ih h with hg | ⟨g', hg', ha⟩
    · rcases mem_keepFirst.mp hg with ha | ⟨before, after, hsplit, hnew⟩
      · exact .inl ha
      · refine .inr ⟨g, List.mem_cons_self, mem_keepFirst.mpr (.inr ⟨before, after, hsplit, ?_⟩)⟩
        simp only [List.map_append, List.mem_append, not_or] at hnew
        exact hnew.2
    · exact .inr ⟨g', List.mem_cons_of_mem g hg', ha⟩

/-- Where every item is its own key, the items themselves are kept. -/
theorem mem_keepFirst_id {kept items : List κ} {k : κ} :
    k ∈ items.foldl (keepOne id) kept ↔ k ∈ kept ∨ k ∈ items := by
  induction items generalizing kept with
  | nil => simp
  | cons b rest ih =>
    rw [List.foldl_cons, ih, List.mem_cons, ← or_assoc]
    refine or_congr_left ?_
    unfold keepOne
    rw [List.map_id]
    by_cases hb : id b ∈ kept
    · rw [if_pos hb]
      constructor
      · exact .inl
      · rintro (h | rfl)
        · exact h
        · exact hb
    · rw [if_neg hb, List.mem_append, List.mem_singleton]

/-- Every item has one of its key among the kept. -/
theorem key_mem_keepFirst {kept items : List α} {a : α} (ha : a ∈ items) :
    key a ∈ (items.foldl (keepOne key) kept).map key := by
  induction items generalizing kept with
  | nil => cases ha
  | cons b rest ih =>
    rw [List.foldl_cons]
    rcases List.mem_cons.mp ha with rfl | ha
    · have hone : key a ∈ (keepOne key kept a).map key := by
        unfold keepOne
        split
        · assumption
        · simp
      exact ((starts_keepFirst _ rest).map key).subset hone
    · exact ih ha

theorem keepFirst_eq (h : ∀ a ∈ items, key a ∈ kept.map key) :
    items.foldl (keepOne key) kept = kept := by
  induction items with
  | nil => rfl
  | cons a rest ih =>
    rw [List.foldl_cons, keepOne, if_pos (h a List.mem_cons_self)]
    exact ih fun b hb => h b (List.mem_cons_of_mem a hb)

/-- A group that comes again adds nothing. -/
theorem keepFirst_again {rest : List β} {g : β} (hg : g ∈ groups) :
    ((groups ++ g :: rest).flatMap f).foldl (keepOne key) [] =
      ((groups ++ rest).flatMap f).foldl (keepOne key) [] := by
  have hkept : (f g).foldl (keepOne key) ((groups.flatMap f).foldl (keepOne key) []) =
      (groups.flatMap f).foldl (keepOne key) [] := by
    refine keepFirst_eq fun a ha => key_mem_keepFirst ?_
    exact List.mem_flatMap.mpr ⟨g, hg, ha⟩
  rw [List.flatMap_append, List.flatMap_append, List.flatMap_cons, List.foldl_append,
    List.foldl_append, List.foldl_append, hkept]

/-- Groups are collected alike after those of a key that is there are left out, if no two have
one key. -/
theorem keepFirst_keepFirst {κ' : Type*} [DecidableEq κ'] {key' : β → κ'} {more : List β}
    (h : ∀ g ∈ more, ∀ g' ∈ groups ++ more, key' g' = key' g → g' = g) :
    ((more.foldl (keepOne key') groups).flatMap f).foldl (keepOne key) [] =
      ((groups ++ more).flatMap f).foldl (keepOne key) [] := by
  induction more generalizing groups with
  | nil => rw [List.foldl_nil, List.append_nil]
  | cons g more ih =>
    rw [List.foldl_cons, keepOne]
    by_cases hg : key' g ∈ groups.map key'
    · have hmem : g ∈ groups := by
        obtain ⟨g', hg', hkey⟩ := List.mem_map.mp hg
        exact h g List.mem_cons_self g' (List.mem_append_left _ hg') hkey ▸ hg'
      rw [if_pos hg, keepFirst_again hmem]
      refine ih fun x hx x' hx' => h x (List.mem_cons_of_mem g hx) x' ?_
      rcases List.mem_append.mp hx' with hx' | hx'
      · exact List.mem_append_left _ hx'
      · exact List.mem_append_right _ (List.mem_cons_of_mem g hx')
    · have hsplit : groups ++ g :: more = groups ++ [g] ++ more := by simp
      rw [if_neg hg, hsplit]
      refine ih fun x hx x' hx' => h x (List.mem_cons_of_mem g hx) x' ?_
      rw [hsplit]
      exact hx'

/-- If no two have one key, all are kept. -/
theorem subset_keepFirst {kept items : List α}
    (h : ∀ a ∈ items, ∀ b ∈ kept ++ items, key b = key a → b = a) :
    kept ++ items ⊆ items.foldl (keepOne key) kept := by
  intro a ha
  rcases List.mem_append.mp ha with ha | ha
  · exact (starts_keepFirst kept items).subset ha
  · obtain ⟨b, hb, hkey⟩ := List.mem_map.mp (@key_mem_keepFirst _ _ _ key kept items a ha)
    exact h a ha b (List.mem_append.mpr (mem_of_mem_keepFirst hb)) hkey ▸ hb

/-! ### The best item of every key -/

variable (better : α → α → Bool)

/-- `a` has the place of the item of its key if it is better, or the last one if there is none. -/
def keep (key : α → κ) (a : α) : List α → List α
  | [] => [a]
  | b :: rest =>
    if key b = key a then (if better a b then a else b) :: rest else b :: keep key a rest

def best (key : α → κ) (items : List α) : List α :=
  items.foldl (fun kept a => keep better key a kept) []

variable {better}

theorem map_keep : (keep better key a kept).map key =
      if key a ∈ kept.map key then kept.map key else kept.map key ++ [key a] := by
  induction kept with
  | nil => rfl
  | cons b rest ih =>
    rw [keep]
    by_cases hb : key b = key a
    · have hmem : key a ∈ (b :: rest).map key := by simp [hb]
      rw [if_pos hb, if_pos hmem]
      by_cases hbetter : better a b = true
      · rw [if_pos hbetter, List.map_cons, List.map_cons, hb]
      · rw [if_neg hbetter]
    · have hmem : key a ∈ (b :: rest).map key ↔ key a ∈ rest.map key := by
        rw [List.map_cons, List.mem_cons, or_iff_right (fun h => hb h.symm)]
      rw [if_neg hb, List.map_cons, ih]
      by_cases hrest : key a ∈ rest.map key
      · rw [if_pos hrest, if_pos (hmem.mpr hrest)]
        rfl
      · rw [if_neg hrest, if_neg (fun h => hrest (hmem.mp h))]
        rfl

theorem keep_eq (h : key a ∉ kept.map key) : keep better key a kept = kept ++ [a] := by
  induction kept with
  | nil => rfl
  | cons b rest ih =>
    rw [List.map_cons, List.mem_cons, not_or] at h
    rw [keep, if_neg (fun hb => h.1 hb.symm), ih h.2]
    rfl

theorem mem_keep {x : α} (h : x ∈ keep better key a kept) : x = a ∨ x ∈ kept := by
  induction kept with
  | nil => exact .inl (List.mem_singleton.mp h)
  | cons b rest ih =>
    rw [keep] at h
    by_cases hb : key b = key a
    · rw [if_pos hb] at h
      rcases List.mem_cons.mp h with h | h
      · by_cases hbetter : better a b = true
        · rw [if_pos hbetter] at h
          exact .inl h
        · rw [if_neg hbetter] at h
          exact .inr (h ▸ List.mem_cons_self)
      · exact .inr (List.mem_cons_of_mem b h)
    · rw [if_neg hb] at h
      rcases List.mem_cons.mp h with h | h
      · exact .inr (h ▸ List.mem_cons_self)
      · rcases ih h with h | h
        · exact .inl h
        · exact .inr (List.mem_cons_of_mem b h)

theorem best_snoc (items : List α) (a : α) :
    best better key (items ++ [a]) = keep better key a (best better key items) := by
  rw [best, List.foldl_append]
  rfl

theorem nodup_best (items : List α) : ((best better key items).map key).Nodup := by
  induction items using List.reverseRecOn with
  | nil => exact List.nodup_nil
  | append_singleton items a ih =>
    rw [best_snoc, map_keep]
    by_cases ha : key a ∈ (best better key items).map key
    · rw [if_pos ha]
      exact ih
    · rw [if_neg ha]
      have hsnoc := nodup_snoc ih ha
      rwa [List.map_append] at hsnoc

theorem mem_best {x : α} (h : x ∈ best better key items) : x ∈ items := by
  induction items using List.reverseRecOn with
  | nil => exact h
  | append_singleton items a ih =>
    rw [best_snoc] at h
    rcases mem_keep h with h | h
    · exact List.mem_append_right _ (h ▸ List.mem_cons_self)
    · exact List.mem_append_left _ (ih h)

theorem best_eq (h : (items.map key).Nodup) : best better key items = items := by
  induction items using List.reverseRecOn with
  | nil => rfl
  | append_singleton items a ih =>
    rw [List.map_append, List.nodup_append] at h
    rw [best_snoc, ih h.1]
    refine keep_eq fun hmem => ?_
    exact h.2.2 _ hmem _ List.mem_cons_self rfl

end Collect
